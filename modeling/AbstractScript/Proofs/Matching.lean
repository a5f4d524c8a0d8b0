import AbstractScript.Grammar.Matcher
import Mathlib.Algebra.GroupWithZero.Nat

/-!
# What a pattern matches

`Gives` says what the matcher finds, without the steps it is granted and without the place of the
furthest failure. A pattern gives at most one thing at a place, and a run with steps enough gives
it. What is taken is a text at the front of the input.
-/
namespace AbstractScript.Grammar

variable {R : Type}

/-! ## Places -/

namespace Cursor

/-- The text `front` stands between two places. -/
structure Reads (a : Cursor) (front : List Char) (b : Cursor) : Prop where
  text : a.rest = front ++ b.rest
  position : b.position = a.position.advanceAll front

/-- Nothing stands between a place and itself. -/
theorem Reads.refl (c : Cursor) : c.Reads [] c := ⟨rfl, rfl⟩

/-- One text after another. -/
theorem Reads.trans {a b c : Cursor} {front back : List Char} (first : a.Reads front b)
    (second : b.Reads back c) : a.Reads (front ++ back) c where
  text := by rw [first.text, second.text, List.append_assoc]
  position := by
    rw [second.position, first.position, Position.advanceAll, Position.advanceAll,
      Position.advanceAll, List.foldl_append]

/-- The text and where it begins tell where it ends. -/
theorem Reads.unique {a b c : Cursor} {front : List Char} (first : a.Reads front b)
    (second : a.Reads front c) : b = c := by
  obtain ⟨place, rest⟩ := b
  obtain ⟨place', rest'⟩ := c
  have rests : rest = rest' := List.append_cancel_left (first.text.symm.trans second.text)
  have places : place = place' := first.position.trans second.position.symm
  rw [rests, places]

/-- Where it begins and where it ends tell the text. -/
theorem Reads.text_unique {a b : Cursor} {front front' : List Char} (first : a.Reads front b)
    (second : a.Reads front' b) : front = front' :=
  List.append_cancel_right (first.text.symm.trans second.text)

/-- The front of an input. -/
theorem reads_append (p : Position) (front back : List Char) :
    Reads ⟨p, front ++ back⟩ front ⟨p.advanceAll front, back⟩ := ⟨rfl, rfl⟩

/-- A fixed text is taken where it stands. -/
theorem take?_eq_some_iff {cs : List Char} {a b : Cursor} : take? cs a = some b ↔ a.Reads cs b := by
  induction cs generalizing a with
  | nil =>
    constructor
    · rintro ⟨⟩
      exact .refl _
    · intro reads
      exact congrArg some ((Reads.refl _).unique reads)
  | cons x cs ih =>
    obtain ⟨p, rest⟩ := a
    rcases rest with - | ⟨y, rest⟩
    · constructor
      · rintro ⟨⟩
      · intro reads
        exact absurd reads.text (List.cons_ne_nil x _).symm
    · simp only [take?]
      by_cases same : x = y
      · subst same
        rw [if_pos rfl, ih]
        constructor
        · intro reads
          exact (reads_append p [x] rest).trans reads
        · rintro ⟨text, position⟩
          exact ⟨List.cons_inj_right x |>.1 text, position⟩
      · rw [if_neg same]
        constructor
        · rintro ⟨⟩
        · intro reads
          exact absurd (List.cons.inj reads.text).1.symm same

/-- One character of a class is taken where it stands. -/
theorem takeChar?_eq_some_iff {p : Char → Bool} {a b : Cursor} :
    takeChar? p a = some b ↔ ∃ x, p x = true ∧ a.Reads [x] b := by
  obtain ⟨place, rest⟩ := a
  rcases rest with - | ⟨y, rest⟩
  · constructor
    · rintro ⟨⟩
    · rintro ⟨x, -, reads⟩
      exact absurd reads.text (List.cons_ne_nil x _).symm
  · simp only [takeChar?]
    by_cases holds : p y = true
    · rw [if_pos holds]
      constructor
      · rintro ⟨⟩
        exact ⟨y, holds, reads_append place [y] rest⟩
      · rintro ⟨x, -, reads⟩
        obtain ⟨rfl, -⟩ := List.cons.inj reads.text
        exact congrArg some ((reads_append place [y] rest).unique reads)
    · rw [if_neg holds]
      constructor
      · rintro ⟨⟩
      · rintro ⟨x, holds', reads⟩
        obtain ⟨rfl, -⟩ := List.cons.inj reads.text
        exact absurd holds' holds

/-- The bytes of a text. -/
def bytes (cs : List Char) : Nat := (cs.map Char.utf8Size).sum

/-- The bytes of a text are counted by the offset. -/
theorem offset_advanceAll (p : Position) (cs : List Char) :
    (p.advanceAll cs).offset = p.offset + bytes cs := by
  induction cs generalizing p with
  | nil => rfl
  | cons c cs ih =>
    have one : (p.advance c).offset = p.offset + c.utf8Size := by
      rw [Position.advance]
      split <;> rfl
    calc (p.advanceAll (c :: cs)).offset
      _ = (p.advance c).offset + bytes cs := ih _
      _ = p.offset + bytes (c :: cs) := by
        rw [one, bytes, bytes, List.map_cons, List.sum_cons, Nat.add_assoc]

/-- As many bytes as a text has are that text. -/
theorem takeBytes_bytes (cs rest : List Char) : takeBytes (bytes cs) (cs ++ rest) = cs := by
  induction cs with
  | nil => cases rest <;> rfl
  | cons c cs ih =>
    have size : bytes (c :: cs) = c.utf8Size + bytes cs := by
      rw [bytes, bytes, List.map_cons, List.sum_cons]
    have pos := c.utf8Size_pos
    rw [List.cons_append, takeBytes, if_neg (by omega), size, Nat.add_sub_cancel_left, ih]

/-- The text between two places is what stands between them. -/
theorem Reads.textTo {a b : Cursor} {front : List Char} (reads : a.Reads front b) :
    a.textTo b = String.ofList front := by
  rw [Cursor.textTo, reads.position, reads.text, offset_advanceAll, Nat.add_sub_cancel_left,
    takeBytes_bytes]

end Cursor

/-! ## Without steps -/

/-- What is asked for at a place. -/
inductive Goal (R : Type) where
  /-- A match of a pattern. -/
  | once (p : Pattern R)
  /-- All further matches of a pattern, each after what is skipped. -/
  | more (p : Pattern R)
  /-- What is skipped between the parts of a match. -/
  | gap

/-- What there is to be found: tokens and the rest of the input, or nothing. -/
abbrev Found (R : Type) := Option (List (Token R) × Cursor)

/-- The tokens of a rule that matches between two places, with the tokens found inside. -/
def RuleSet.tokens (g : RuleSet R) (inWord : Bool) (r : R) (a b : Cursor)
    (inside : List (Token R)) : List (Token R) :=
  if inWord then []
  else match g.manner r with
    | .word => [.word r (a.spanTo b) (a.textTo b)]
    | .ordinary => [.node r (a.spanTo b) inside]

/-- What a goal gives at a place, inside a word or not. -/
inductive Gives (g : RuleSet R) : Bool → Goal R → Cursor → Found R → Prop
  | text {w cs c r} (taken : (c.take? cs).map (Prod.mk []) = r) : Gives g w (.once (.text cs)) c r
  | char {w k c r} (taken : (c.takeChar? (CharClass.holds k)).map (Prod.mk []) = r) :
    Gives g w (.once (.char k)) c r
  | stop {w c} (ended : c.rest.isEmpty) : Gives g w (.once .stop) c (some ([], c))
  | noStop {w c} (goesOn : c.rest.isEmpty = false) : Gives g w (.once .stop) c none
  | seq {w a b c ts c₁ skipped c₂ us c₃} (first : Gives g w (.once a) c (some (ts, c₁)))
    (between : Gives g w .gap c₁ (some (skipped, c₂)))
    (second : Gives g w (.once b) c₂ (some (us, c₃))) :
    Gives g w (.once (.seq a b)) c (some (ts ++ us, c₃))
  | noFirst {w a b c} (first : Gives g w (.once a) c none) : Gives g w (.once (.seq a b)) c none
  | noBetween {w a b c ts c₁} (first : Gives g w (.once a) c (some (ts, c₁)))
    (between : Gives g w .gap c₁ none) : Gives g w (.once (.seq a b)) c none
  | noSecond {w a b c ts c₁ skipped c₂} (first : Gives g w (.once a) c (some (ts, c₁)))
    (between : Gives g w .gap c₁ (some (skipped, c₂))) (second : Gives g w (.once b) c₂ none) :
    Gives g w (.once (.seq a b)) c none
  | left {w a b c x} (first : Gives g w (.once a) c (some x)) :
    Gives g w (.once (.alt a b)) c (some x)
  | right {w a b c r} (first : Gives g w (.once a) c none) (second : Gives g w (.once b) c r) :
    Gives g w (.once (.alt a b)) c r
  | opt {w a c x} (inside : Gives g w (.once a) c (some x)) : Gives g w (.once (.opt a)) c (some x)
  | noOpt {w a c} (inside : Gives g w (.once a) c none) :
    Gives g w (.once (.opt a)) c (some ([], c))
  | many {w a c ts c₁ us c₂} (first : Gives g w (.once a) c (some (ts, c₁)))
    (further : Gives g w (.more a) c₁ (some (us, c₂))) :
    Gives g w (.once (.many a)) c (some (ts ++ us, c₂))
  | noMany {w a c} (first : Gives g w (.once a) c none) :
    Gives g w (.once (.many a)) c (some ([], c))
  | more {w a c skipped c₁ ts c₂ us c₃} (between : Gives g w .gap c (some (skipped, c₁)))
    (first : Gives g w (.once a) c₁ (some (ts, c₂)))
    (further : Gives g w (.more a) c₂ (some (us, c₃))) :
    Gives g w (.more a) c (some (ts ++ us, c₃))
  | noGap {w a c} (between : Gives g w .gap c none) : Gives g w (.more a) c (some ([], c))
  | noMore {w a c skipped c₁} (between : Gives g w .gap c (some (skipped, c₁)))
    (first : Gives g w (.once a) c₁ none) : Gives g w (.more a) c (some ([], c))
  | unless {w a c} (inside : Gives g w (.once a) c none) :
    Gives g w (.once (.unless a)) c (some ([], c))
  | noUnless {w a c x} (inside : Gives g w (.once a) c (some x)) :
    Gives g w (.once (.unless a)) c none
  | rule {w r c ts c₁}
    (inside : Gives g (w || g.manner r = .word) (.once (g.body r)) c (some (ts, c₁))) :
    Gives g w (.once (.rule r)) c (some (g.tokens w r c c₁ ts, c₁))
  | noRule {w r c} (inside : Gives g (w || g.manner r = .word) (.once (g.body r)) c none) :
    Gives g w (.once (.rule r)) c none
  | close {c} : Gives g true .gap c (some ([], c))
  | apart {c r} (blanks : Gives g true (.once g.blank) c r) : Gives g false .gap c r

namespace Gives

variable {g : RuleSet R}

/-- A goal gives at most one thing at a place. -/
theorem unique {w : Bool} {goal : Goal R} {c : Cursor} {r r' : Found R}
    (first : Gives g w goal c r) (second : Gives g w goal c r') : r = r' := by
  induction first generalizing r' with
  | text | char | stop | noStop | close => cases second <;> simp_all
  | _ => cases second <;> grind

/-- What is taken stands at the front of the input. -/
theorem reads {w : Bool} {goal : Goal R} {c c' : Cursor} {ts : List (Token R)}
    (h : Gives g w goal c (some (ts, c'))) : ∃ front, c.Reads front c' := by
  generalize found : some (ts, c') = r at h
  -- by induction on the derivation: what the parts read stands one after the other
  induction h generalizing ts c' with
  | text taken =>
    obtain ⟨c'', taken, same⟩ := Option.map_eq_some_iff.1 (taken.trans found.symm)
    cases same
    exact ⟨_, Cursor.take?_eq_some_iff.1 taken⟩
  | char taken =>
    obtain ⟨c'', taken, same⟩ := Option.map_eq_some_iff.1 (taken.trans found.symm)
    cases same
    obtain ⟨y, -, reads⟩ := Cursor.takeChar?_eq_some_iff.1 taken
    exact ⟨[y], reads⟩
  | seq _ _ _ first between second | more _ _ _ first between second =>
    cases found
    obtain ⟨front, first⟩ := first rfl
    obtain ⟨blanks, between⟩ := between rfl
    obtain ⟨back, second⟩ := second rfl
    exact ⟨_, (first.trans between).trans second⟩
  | many _ _ first further =>
    cases found
    obtain ⟨front, first⟩ := first rfl
    obtain ⟨back, further⟩ := further rfl
    exact ⟨_, first.trans further⟩
  | left _ inside | right _ _ _ inside | opt _ inside | apart _ inside => exact inside found
  | rule _ inside =>
    cases found
    exact inside rfl
  | stop | noOpt | noMany | noGap | noMore | «unless» | close =>
    cases found
    exact ⟨[], .refl _⟩
  | noStop | noFirst | noBetween | noSecond | noUnless | noRule => cases found

end Gives

/-! ## Runs -/

/-- What an outcome says, if the steps did not run out. -/
def Outcome.found? : Outcome R → Option (Found R)
  | .matched tokens c _ => some (some (tokens, c))
  | .failed _ => some none
  | .spent => none

/-- A repetition takes all further matches, if each of its steps is what the goals say. -/
theorem gives_of_iterate {g : RuleSet R} {w : Bool} {a : Pattern R}
    {step : Cursor → Position → Outcome R}
    (sound : ∀ c far r, (step c far).found? = some r →
      (Gives g w .gap c none ∧ r = none) ∨
        ∃ skipped c₁, Gives g w .gap c (some (skipped, c₁)) ∧ Gives g w (.once a) c₁ r) :
    ∀ {count : Nat} {done : List (Token R)} {c : Cursor} {far : Position} {r : Found R},
      (iterate step count done c far).found? = some r →
        ∃ us c', r = some (done.reverse ++ us, c') ∧ Gives g w (.more a) c (some (us, c')) := by
  intro count
  -- by induction on the repetitions that are left
  induction count with
  | zero => nofun
  | succ count ih =>
    intro done c far r found
    rw [iterate] at found
    have step := sound c far
    split at found
    next ts c₂ far' ran =>
      obtain ⟨us, c₃, rfl, further⟩ := ih found
      rcases step _ (congrArg _ ran) with ⟨-, absurd⟩ | ⟨skipped, c₁, between, first⟩
      · cases absurd
      · exact ⟨ts ++ us, c₃, by simp, .more between first further⟩
    next far' ran =>
      obtain rfl := Option.some.inj found
      refine ⟨[], c, by simp, ?_⟩
      rcases step _ (congrArg _ ran) with ⟨between, -⟩ | ⟨skipped, c₁, between, first⟩
      · exact .noGap between
      · exact .noMore between first
    next => cases found

/-- What a run skips between two parts. -/
def skip (g : RuleSet R) (steps : Nat) (mode : Mode) (c : Cursor) (far : Position) : Outcome R :=
  if mode.inWord then .matched [] c far else run g steps ⟨true, mode.negated⟩ g.blank c far

/-- A run of one pattern and then another. -/
theorem run_seq (g : RuleSet R) (steps : Nat) (mode : Mode) (a b : Pattern R) (c : Cursor)
    (far : Position) :
    run g (steps + 1) mode (.seq a b) c far =
      match run g steps mode a c far with
      | .matched front c far₁ =>
        match skip g steps mode c far with
        | .matched _ c _ =>
          match run g steps mode b c far₁ with
          | .matched back c far => .matched (front ++ back) c far
          | other => other
        | other => other
      | other => other := rfl

/-- A run of a repetition. -/
theorem run_many (g : RuleSet R) (steps : Nat) (mode : Mode) (a : Pattern R) (c : Cursor)
    (far : Position) :
    run g (steps + 1) mode (.many a) c far =
      match run g steps mode a c far with
      | .matched tokens c far₁ =>
        iterate (fun c far₁ =>
          match skip g steps mode c far with
          | .matched _ c _ => run g steps mode a c far₁
          | other => other) steps tokens.reverse c far₁
      | .failed far => .matched [] c far
      | .spent => .spent := rfl

/-- A run whose steps did not run out gives what the pattern gives. -/
theorem gives_of_run {g : RuleSet R} :
    ∀ {steps : Nat} {mode : Mode} {p : Pattern R} {c : Cursor} {far : Position} {r : Found R},
      (run g steps mode p c far).found? = some r → Gives g mode.inWord (.once p) c r := by
  intro steps
  -- by induction on the steps that are left, with one constructor for each way in which the parts
  -- may end
  induction steps with
  | zero => nofun
  | succ steps ih =>
    have skipped : ∀ {mode : Mode} {c : Cursor} {far : Position} {r : Found R},
        (skip g steps mode c far).found? = some r → Gives g mode.inWord .gap c r := by
      rintro ⟨inWord, negated⟩ c far r found
      cases inWord with
      | true =>
        obtain rfl := Option.some.inj found
        exact .close
      | false => exact .apart (ih found)
    intro mode p c far r found
    cases p with
    | text cs =>
      refine .text ?_
      simp only [run] at found
      split at found <;> simp_all [Outcome.found?]
    | char k =>
      refine .char ?_
      simp only [run] at found
      split at found <;> simp_all [Outcome.found?]
    | stop =>
      simp only [run] at found
      split at found
      next ended =>
        obtain rfl := Option.some.inj found
        exact .stop ended
      next goesOn =>
        obtain rfl := Option.some.inj found
        exact .noStop (Bool.eq_false_iff.2 goesOn)
    | seq a b =>
      rw [run_seq] at found
      rcases first : run g steps mode a c far with ⟨ts, c₁, far₁⟩ | far₁ | _ <;>
        simp only [first] at found
      · have first := ih (congrArg _ first)
        rcases between : skip g steps mode c₁ far with ⟨_, c₂, far₂⟩ | far₂ | _ <;>
          simp only [between] at found
        · have between := skipped (congrArg _ between)
          rcases second : run g steps mode b c₂ far₁ with ⟨us, c₃, far₃⟩ | far₃ | _ <;>
            simp only [second] at found
          · obtain rfl := Option.some.inj found
            exact .seq first between (ih (congrArg _ second))
          · obtain rfl := Option.some.inj found
            exact .noSecond first between (ih (congrArg _ second))
          · cases found
        · obtain rfl := Option.some.inj found
          exact .noBetween first (skipped (congrArg _ between))
        · cases found
      · obtain rfl := Option.some.inj found
        exact .noFirst (ih (congrArg _ first))
      · cases found
    | alt a b =>
      simp only [run] at found
      rcases first : run g steps mode a c far with ⟨ts, c₁, far₁⟩ | far₁ | _ <;>
        simp only [first] at found
      · obtain rfl := Option.some.inj found
        exact .left (ih (congrArg _ first))
      · exact .right (ih (congrArg _ first)) (ih found)
      · cases found
    | opt a =>
      simp only [run] at found
      rcases inside : run g steps mode a c far with ⟨ts, c₁, far₁⟩ | far₁ | _ <;>
        simp only [inside] at found
      · obtain rfl := Option.some.inj found
        exact .opt (ih (congrArg _ inside))
      · obtain rfl := Option.some.inj found
        exact .noOpt (ih (congrArg _ inside))
      · cases found
    | many a =>
      rw [run_many] at found
      rcases first : run g steps mode a c far with ⟨ts, c₁, far₁⟩ | far₁ | _ <;>
        simp only [first] at found
      · obtain ⟨us, c₂, rfl, further⟩ := gives_of_iterate (w := mode.inWord) (a := a) (by
          intro c far₁ r found
          rcases between : skip g steps mode c far with ⟨blanks, c₁, far₂⟩ | far₂ | _ <;>
            simp only [between] at found
          · exact .inr ⟨blanks, c₁, skipped (congrArg _ between), ih found⟩
          · obtain rfl := Option.some.inj found
            exact .inl ⟨skipped (congrArg _ between), rfl⟩
          · cases found) found
        rw [List.reverse_reverse]
        exact .many (ih (congrArg _ first)) further
      · obtain rfl := Option.some.inj found
        exact .noMany (ih (congrArg _ first))
      · cases found
    | «unless» a =>
      simp only [run] at found
      rcases inside : run g steps ⟨mode.inWord, !mode.negated⟩ a c far with
        ⟨ts, c₁, far₁⟩ | far₁ | _ <;> simp only [inside] at found
      · obtain rfl := Option.some.inj found
        have inside : Gives g (Mode.mk mode.inWord !mode.negated).inWord (.once a) c
            (some (ts, c₁)) := ih (congrArg _ inside)
        exact .noUnless inside
      · obtain rfl := Option.some.inj found
        have inside : Gives g (Mode.mk mode.inWord !mode.negated).inWord (.once a) c none :=
          ih (congrArg _ inside)
        exact .unless inside
      · cases found
    | rule r =>
      simp only [run] at found
      rcases inside : run g steps ⟨mode.inWord || g.manner r = .word, mode.negated⟩ (g.body r) c far
        with ⟨ts, c₁, far₁⟩ | far₁ | _ <;> simp only [inside] at found
      · obtain rfl := Option.some.inj found
        exact .rule (ih (congrArg _ inside))
      · obtain rfl := Option.some.inj found
        exact .noRule (ih (congrArg _ inside))
      · cases found

/-- What a run skips is what the goal of skipping gives. -/
theorem gives_of_skip {g : RuleSet R} {steps : Nat} {mode : Mode} {c : Cursor} {far : Position}
    {r : Found R} (found : (skip g steps mode c far).found? = some r) :
    Gives g mode.inWord .gap c r := by
  obtain ⟨inWord, negated⟩ := mode
  cases inWord with
  | true =>
    obtain rfl := Option.some.inj found
    exact .close
  | false => exact .apart (gives_of_run found)

/-- What is read from a text is what the rule gives at its beginning. -/
theorem gives_of_parse {g : RuleSet R} {r : R} {text : String} {t : Token R}
    (h : parse g r text = .ok t) :
    ∃ ts c, Gives g false (.once (.rule r)) (.ofChars text.toList) (some (t :: ts, c)) := by
  rw [parse] at h
  rcases ran : run g (stepsFor text.toList) ⟨false, false⟩ (.rule r) (.ofChars text.toList) .start
    with ⟨ts, c, far⟩ | far | _ <;> simp only [ran] at h
  · cases ts with
    | nil => cases h
    | cons t' ts =>
      obtain rfl := Except.ok.inj h
      exact ⟨ts, c, gives_of_run (congrArg _ ran)⟩
  · cases h
  · cases h

end AbstractScript.Grammar
