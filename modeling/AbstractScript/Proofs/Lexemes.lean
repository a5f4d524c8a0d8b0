import AbstractScript.Proofs.LiteralTexts
import AbstractScript.Proofs.Printing

/-!
# Words and marks of scripts

What the word rules of the grammar say about a token that a blank or the end of the input follows.
Inside a word, such a token is matched as it would be by itself, so that fixed tokens are settled by
a run of the matcher; names and integers are settled by their first characters.
-/
namespace AbstractScript

namespace Grammar

/-! ## Inside words -/

/-- The pattern matches nothing at the front of the text. -/
def Refuses (inWord : Bool) (p : Pattern Rule) (cs : List Char) : Prop :=
  ∀ place, Gives scripts inWord (.once p) ⟨place, cs⟩ none

/-- Inside a word, the goal takes the text up to `rest`. -/
def Takes (goal : Goal Rule) (cs rest : List Char) : Prop :=
  ∀ place, ∃ place', Gives scripts true goal ⟨place, cs⟩ (some ([], ⟨place', rest⟩))

variable {a b p : Pattern Rule} {r : Rule} {w : Bool} {cs mid rest tail : List Char}

namespace Refuses

/-- Both of two patterns are refused. -/
theorem alt (first : Refuses w a cs) (second : Refuses w b cs) : Refuses w (.alt a b) cs :=
  fun place => .right (first place) (second place)

/-- The first of two patterns is refused. -/
theorem first (first : Refuses w a cs) : Refuses w (.seq a b) cs :=
  fun place => .noFirst (first place)

/-- The second of two patterns is refused. -/
theorem second (first : Takes (.once a) cs mid) (second : Refuses true b mid) :
    Refuses true (.seq a b) cs :=
  fun place =>
    let ⟨place', first⟩ := first place
    .noSecond first .close (second place')

/-- What is forbidden is there. -/
theorem «unless» (there : Takes (.once a) cs rest) : Refuses true (.unless a) cs :=
  fun place =>
    let ⟨_, there⟩ := there place
    .noUnless there

/-- What a word's pattern refuses, the word refuses. -/
theorem word (manner : r.manner = .word) (inside : Refuses true r.body cs) :
    Refuses w (.rule r) cs := by
  intro place
  refine .noRule ?_
  have inWord : (w || decide (scripts.manner r = .word)) = true := by
    rw [show scripts.manner r = .word from manner, decide_eq_true rfl, Bool.or_true]
  rw [inWord]
  exact inside place

/-- What a rule's pattern refuses, the rule refuses. -/
theorem rule (inside : ∀ w, Refuses w r.body cs) : Refuses w (.rule r) cs :=
  fun place => .noRule (inside _ place)

end Refuses

namespace Takes

/-- One pattern after another. -/
theorem seq (first : Takes (.once a) cs mid) (second : Takes (.once b) mid rest) :
    Takes (.once (.seq a b)) cs rest :=
  fun place =>
    let ⟨place', first⟩ := first place
    let ⟨place'', second⟩ := second place'
    ⟨place'', .seq first .close second⟩

/-- The first of two patterns. -/
theorem left (first : Takes (.once a) cs rest) : Takes (.once (.alt a b)) cs rest :=
  fun place =>
    let ⟨place', first⟩ := first place
    ⟨place', .left first⟩

/-- The second of two patterns. -/
theorem right (first : Refuses true a cs) (second : Takes (.once b) cs rest) :
    Takes (.once (.alt a b)) cs rest :=
  fun place =>
    let ⟨place', second⟩ := second place
    ⟨place', .right (first place) second⟩

/-- What is forbidden is not there. -/
theorem «unless» (absent : Refuses true a cs) : Takes (.once (.unless a)) cs cs :=
  fun place => ⟨place, .unless (absent place)⟩

/-- What may be there is not there. -/
theorem noOpt (absent : Refuses true a cs) : Takes (.once (.opt a)) cs cs :=
  fun place => ⟨place, .noOpt (absent place)⟩

/-- What may be there is there. -/
theorem opt (inside : Takes (.once a) cs rest) : Takes (.once (.opt a)) cs rest :=
  fun place =>
    let ⟨place', inside⟩ := inside place
    ⟨place', .opt inside⟩

/-- There is no further match. -/
theorem noMore (absent : Refuses true a cs) : Takes (.more a) cs cs :=
  fun place => ⟨place, .noMore .close (absent place)⟩

/-- One more match. -/
theorem more (first : Takes (.once a) cs mid) (further : Takes (.more a) mid rest) :
    Takes (.more a) cs rest :=
  fun place =>
    let ⟨place', first⟩ := first place
    let ⟨place'', further⟩ := further place'
    ⟨place'', .more .close first further⟩

/-- All further matches are all matches, where nothing is skipped. -/
theorem many (further : Takes (.more a) cs rest) : Takes (.once (.many a)) cs rest := by
  intro place
  obtain ⟨place', further⟩ := further place
  refine ⟨place', ?_⟩
  generalize found : some (([] : List (Token Rule)), Cursor.mk place' rest) = r at further
  cases further with
  | more between first further =>
    cases between
    exact .many first further
  | noGap between => cases between
  | noMore between first =>
    cases between
    cases found
    exact .noMany first

/-- What a word's pattern takes, the word takes inside another. -/
theorem rule (inside : Takes (.once r.body) cs rest) : Takes (.once (.rule r)) cs rest :=
  fun place =>
    let ⟨place', inside⟩ := inside place
    ⟨place', .rule inside⟩

/-- A fixed text at the front. -/
theorem text (cs rest : List Char) : Takes (.once (.text cs)) (cs ++ rest) rest :=
  fun place =>
    have taken := Cursor.take?_eq_some_iff.2 (Cursor.reads_append place cs rest)
    ⟨place.advanceAll cs, .text (by rw [taken]; rfl)⟩

end Takes

/-- A word leaves a token with its text. -/
theorem exists_word {front : List Char} (manner : r.manner = .word)
    (h : Takes (.once r.body) (front ++ rest) rest) (place : Position) :
    ∃ span place', Gives scripts false (.once (.rule r)) ⟨place, front ++ rest⟩
      (some ([.word r span (String.ofList front)], ⟨place', rest⟩)) := by
  obtain ⟨place', gives⟩ := h place
  obtain ⟨front', reads⟩ := gives.reads
  obtain rfl : front = front' := List.append_cancel_right reads.text
  have inside : Gives scripts (false || decide (scripts.manner r = .word)) (.once (scripts.body r))
      ⟨place, front ++ rest⟩ (some ([], ⟨place', rest⟩)) := by
    rw [show scripts.manner r = .word from manner]
    exact gives
  have token := Gives.rule inside
  rw [RuleSet.tokens, if_neg Bool.false_ne_true, show scripts.manner r = .word from manner,
    reads.textTo] at token
  exact ⟨_, place', token⟩

/-! ## Fixed tokens -/

/-- A blank or the end of the input follows. -/
def Ends (tail : List Char) : Prop := ∀ c ∈ tail.head?, isBlankChar c = true

/-- True if a match of the pattern does not depend on what follows a blank. -/
def Pattern.tight : Pattern Rule → Bool
  | .text cs => cs.all (!isBlankChar ·)
  | .char k => k ≠ .any
  | .stop => false
  | .rule r =>
    match r with
    | .keyword w => w.toList.all (!isBlankChar ·)
    | .identifierName | .identifier | .reservedWord | .numericLiteral | .postfixOperator
    | .unaryOperator | .multiplicativeOperator | .additiveOperator | .shiftOperator
    | .relationalOperator | .equalityOperator | .bitwiseAndOperator | .bitwiseXorOperator
    | .bitwiseOrOperator | .logicalAndOperator | .logicalOrOperator | .assignmentOperator => true
    | _ => false
  | .seq a b | .alt a b => a.tight && b.tight
  | .many a | .opt a | .unless a => a.tight

/-- The patterns of tight rules are tight. -/
theorem tight_body (h : (Pattern.rule r).tight = true) : r.body.tight = true := by
  cases r with
  | keyword w =>
    have part : identifierPart.tight = true := by decide
    exact Bool.and_eq_true_iff.2 ⟨h, part⟩
  | _ => first | (cases h; done) | decide

/-- The blank characters, one after another. -/
def blankChars : List Char :=
  [' ', '\t', '\x0b', '\x0c', '\u00a0', '\ufeff', '\n', '\r', '\u2028', '\u2029']

theorem mem_blankChars {c : Char} : c ∈ blankChars ↔ isBlankChar c = true := by
  simp [blankChars, isBlankChar, isLineEnd, or_assoc]

/-- No character class but the class of all characters has a blank character. -/
theorem CharClass.holds_blank {k : CharClass} (tight : k ≠ .any) {c : Char}
    (blank : isBlankChar c = true) : k.holds c = false := by
  have classes : ([CharClass.asciiLetter, .digit, .nonzeroDigit, .hexDigit, .letter, .number,
      .connector].all fun k => blankChars.all fun c => !k.holds c) = true := by decide +kernel
  have among := List.all_eq_true.1 classes k (by cases k <;> first | exact absurd rfl tight | simp)
  simpa using List.all_eq_true.1 among c (mem_blankChars.2 blank)

/-- What is found with more input behind it. -/
inductive Extended (tail : List Char) : Found Rule → Found Rule → Prop
  | none : Extended tail none none
  | some {ts place place' cs} :
    Extended tail (some (ts, ⟨place, cs⟩)) (some (ts, ⟨place', cs ++ tail⟩))

/-- A fixed text without blanks is taken or refused with a blank behind the input as before. -/
theorem extended_take? (ends : Ends tail) {place place' : Position}
    (tight : cs.all (!isBlankChar ·) = true) :
    Extended tail ((Cursor.take? cs ⟨place, rest⟩).map (Prod.mk []))
      ((Cursor.take? cs ⟨place', rest ++ tail⟩).map (Prod.mk [])) := by
  induction cs generalizing place place' rest with
  | nil => exact .some
  | cons x cs ih =>
    obtain ⟨first, others⟩ := Bool.and_eq_true_iff.1 tight
    cases rest with
    | cons y rest =>
      simp only [Cursor.take?, List.cons_append]
      split
      · exact ih others
      · exact .none
    | nil =>
      -- what follows begins with a blank, which is no part of the text
      have refused : Cursor.take? (x :: cs) ⟨place', tail⟩ = none := by
        cases tail with
        | nil => rfl
        | cons y tail =>
          refine if_neg ?_
          rintro rfl
          simp [ends x rfl] at first
      rw [List.nil_append, refused]
      exact .none

/-- One character of a class is taken or refused with a blank behind the input as before. -/
theorem extended_takeChar? (ends : Ends tail) {place place' : Position} {k : CharClass}
    (tight : k ≠ .any) :
    Extended tail ((Cursor.takeChar? k.holds ⟨place, rest⟩).map (Prod.mk []))
      ((Cursor.takeChar? k.holds ⟨place', rest ++ tail⟩).map (Prod.mk [])) := by
  cases rest with
  | cons y rest =>
    simp only [Cursor.takeChar?, List.cons_append]
    split
    · exact .some
    · exact .none
  | nil =>
    -- what follows begins with a blank, which is not of the class
    have refused : Cursor.takeChar? k.holds ⟨place', tail⟩ = none := by
      cases tail with
      | nil => rfl
      | cons y tail =>
        refine if_neg ?_
        rw [CharClass.holds_blank tight (ends y rfl)]
        exact Bool.false_ne_true
    rw [List.nil_append, refused]
    exact .none

/-- The pattern whose matches a goal asks for is tight. -/
def Goal.tight : Goal Rule → Bool
  | .once p | .more p => p.tight
  | .gap => true

/-- **Inside a word, nothing depends on the place or on what follows a blank.** -/
theorem Gives.elsewhere {goal : Goal Rule} {c : Cursor} {found : Found Rule}
    (h : Gives scripts w goal c found) (inWord : w = true) (tight : goal.tight = true)
    (ends : Ends tail) (place : Position) :
    ∃ found', Gives scripts true goal ⟨place, c.rest ++ tail⟩ found' ∧
      Extended tail found found' := by
  -- by induction on the derivation: nothing stands between the parts of a word, so that only texts
  -- and characters look at what is read
  induction h generalizing place with
  | text taken =>
    subst taken
    exact ⟨_, .text rfl, extended_take? ends tight⟩
  | char taken =>
    subst taken
    exact ⟨_, .char rfl, extended_takeChar? ends (of_decide_eq_true tight)⟩
  | stop | noStop => cases tight
  | seq _ between _ ih₁ _ ih₃ =>
    obtain ⟨tight₁, tight₂⟩ := Bool.and_eq_true_iff.1 tight
    subst inWord
    cases between
    obtain ⟨_, first, ⟨⟩⟩ := ih₁ rfl tight₁ place
    obtain ⟨_, second, ⟨⟩⟩ := ih₃ rfl tight₂ _
    exact ⟨_, .seq first .close second, .some⟩
  | noFirst _ ih =>
    obtain ⟨_, first, ⟨⟩⟩ := ih inWord (Bool.and_eq_true_iff.1 tight).1 place
    exact ⟨_, .noFirst first, .none⟩
  | noBetween _ between =>
    subst inWord
    cases between
  | noSecond _ between _ ih₁ _ ih₃ =>
    obtain ⟨tight₁, tight₂⟩ := Bool.and_eq_true_iff.1 tight
    subst inWord
    cases between
    obtain ⟨_, first, ⟨⟩⟩ := ih₁ rfl tight₁ place
    obtain ⟨_, second, ⟨⟩⟩ := ih₃ rfl tight₂ _
    exact ⟨_, .noSecond first .close second, .none⟩
  | left _ ih =>
    obtain ⟨_, first, ⟨⟩⟩ := ih inWord (Bool.and_eq_true_iff.1 tight).1 place
    exact ⟨_, .left first, .some⟩
  | right _ _ ih₁ ih₂ =>
    obtain ⟨tight₁, tight₂⟩ := Bool.and_eq_true_iff.1 tight
    obtain ⟨_, first, ⟨⟩⟩ := ih₁ inWord tight₁ place
    obtain ⟨found', second, extended⟩ := ih₂ inWord tight₂ place
    exact ⟨found', .right first second, extended⟩
  | opt _ ih =>
    obtain ⟨_, inside, ⟨⟩⟩ := ih inWord tight place
    exact ⟨_, .opt inside, .some⟩
  | noOpt _ ih =>
    obtain ⟨_, inside, ⟨⟩⟩ := ih inWord tight place
    exact ⟨_, .noOpt inside, .some⟩
  | many _ _ ih₁ ih₂ =>
    obtain ⟨_, first, ⟨⟩⟩ := ih₁ inWord tight place
    obtain ⟨_, further, ⟨⟩⟩ := ih₂ inWord tight _
    exact ⟨_, .many first further, .some⟩
  | noMany _ ih =>
    obtain ⟨_, first, ⟨⟩⟩ := ih inWord tight place
    exact ⟨_, .noMany first, .some⟩
  | more between _ _ _ ih₂ ih₃ =>
    subst inWord
    cases between
    obtain ⟨_, first, ⟨⟩⟩ := ih₂ rfl tight place
    obtain ⟨_, further, ⟨⟩⟩ := ih₃ rfl tight _
    exact ⟨_, .more .close first further, .some⟩
  | noGap between =>
    subst inWord
    cases between
  | noMore between _ _ ih₂ =>
    subst inWord
    cases between
    obtain ⟨_, first, ⟨⟩⟩ := ih₂ rfl tight place
    exact ⟨_, .noMore .close first, .some⟩
  | «unless» _ ih =>
    obtain ⟨_, inside, ⟨⟩⟩ := ih inWord tight place
    exact ⟨_, .unless inside, .some⟩
  | noUnless _ ih =>
    obtain ⟨_, inside, ⟨⟩⟩ := ih inWord tight place
    exact ⟨_, .noUnless inside, .none⟩
  | rule _ ih =>
    subst inWord
    obtain ⟨_, inside, ⟨⟩⟩ := ih rfl (tight_body tight) place
    exact ⟨_, .rule inside, .some⟩
  | noRule _ ih =>
    subst inWord
    obtain ⟨_, inside, ⟨⟩⟩ := ih rfl (tight_body tight) place
    exact ⟨_, .noRule inside, .none⟩
  | close => exact ⟨_, .close, .some⟩
  | apart => cases inWord

/-- What the matcher finds in a single token. -/
def outcomeOn (p : Pattern Rule) (token : String) : Outcome Rule :=
  run scripts 100 ⟨true, false⟩ p (.ofChars token.toList) .start

/-- True if the pattern refuses the token. -/
def rejects (p : Pattern Rule) (token : String) : Bool :=
  p.tight && match outcomeOn p token with
    | .failed _ => true
    | _ => false

/-- True if the pattern takes the whole token. -/
def accepts (p : Pattern Rule) (token : String) : Bool :=
  p.tight && match outcomeOn p token with
    | .matched [] c _ => c.rest.isEmpty
    | _ => false

/-- A token that the matcher refuses is refused in any text. -/
theorem refuses_of_rejects {token : String} (h : rejects p token = true) (ends : Ends tail) :
    Refuses true p (token.toList ++ tail) := by
  intro place
  obtain ⟨tight, ran⟩ := Bool.and_eq_true_iff.1 h
  cases ran' : outcomeOn p token with
  | failed far =>
    have found : (outcomeOn p token).found? = some none := by rw [ran']; rfl
    obtain ⟨_, gives, ⟨⟩⟩ := (gives_of_run found).elsewhere rfl tight ends place
    exact gives
  | matched | spent =>
    rw [ran'] at ran
    cases ran

/-- A token that the matcher takes is taken in any text. -/
theorem takes_of_accepts {token : String} (h : accepts p token = true) (ends : Ends tail) :
    Takes (.once p) (token.toList ++ tail) tail := by
  intro place
  obtain ⟨tight, ran⟩ := Bool.and_eq_true_iff.1 h
  cases ran' : outcomeOn p token with
  | matched ts c far =>
    rw [ran'] at ran
    obtain ⟨position, left⟩ := c
    cases ts with
    | cons => cases ran
    | nil =>
      -- nothing of the token is left
      obtain rfl := List.isEmpty_iff.1 ran
      have found : (outcomeOn p token).found? = some (some ([], ⟨position, []⟩)) := by
        rw [ran']
        rfl
      obtain ⟨_, gives, ⟨⟩⟩ := (gives_of_run found).elsewhere rfl tight ends place
      exact ⟨_, gives⟩
  | failed | spent =>
    rw [ran'] at ran
    cases ran

/-! ## What a match begins with -/

/-- The fixed texts, the characters and the words of `whole` rules that a match of the pattern can
begin with, as far as `n` steps into the grammar tell. -/
def Pattern.openings (whole : Rule → Bool) : Nat → Pattern Rule → List (Pattern Rule)
  | 0, _ => [.text []]
  | n + 1, p =>
    match p with
    | .rule r => if whole r then [.rule r] else r.body.openings whole n
    | .seq a _ => a.openings whole n
    | .alt a b => a.openings whole n ++ b.openings whole n
    | .text cs => [.text cs]
    | .char k => [.char k]
    | _ => [.text []]

/-- Where no opening matches, the pattern does not match. -/
theorem refuses_of_openings {whole : Rule → Bool} (words : ∀ r, whole r = true → r.manner = .word)
    {n : Nat} (h : ∀ q ∈ p.openings whole n, Refuses true q cs) : ∀ w, Refuses w p cs := by
  -- an empty text matches anywhere
  have never : ¬∀ q ∈ [Pattern.text (R := Rule) []], Refuses true q cs := by
    intro all
    cases (all _ (List.mem_singleton_self _) .start) with
    | text taken => cases taken
  induction n generalizing p with
  | zero => exact absurd h never
  | succ n ih =>
    cases p with
    | text cs' =>
      intro w place
      cases h _ (List.mem_singleton_self _) place with
      | text taken => exact .text taken
    | char k =>
      intro w place
      cases h _ (List.mem_singleton_self _) place with
      | char taken => exact .char taken
    | rule r =>
      rw [Pattern.openings] at h
      split at h
      next isWhole =>
        intro w
        refine .word (words r isWhole) fun place => ?_
        cases h _ (List.mem_singleton_self _) place with
        | noRule inside => exact inside
      next => exact fun w => .rule (ih h)
    | seq a b => exact fun w => (ih h w).first
    | alt a b =>
      obtain ⟨first, second⟩ := List.forall_mem_append.1 h
      exact fun w => (ih first w).alt (ih second w)
    | stop | many | opt | «unless» => exact absurd h never

/-! ## Single characters -/

/-- The pattern takes one character with property `f`. -/
structure Picks (p : Pattern Rule) (f : Char → Bool) : Prop where
  takes : ∀ {c cs}, f c = true → Takes (.once p) (c :: cs) cs
  refuses : ∀ {cs : List Char}, (∀ c ∈ cs.head?, f c = false) → Refuses true p cs

namespace Picks

variable {f f' : Char → Bool}

/-- The same property in other words. -/
theorem congr (h : Picks p f) (same : ∀ c, f c = f' c) : Picks p f' := funext same ▸ h

/-- A character of a class. -/
theorem char (k : CharClass) : Picks (.char k) k.holds where
  takes := by
    intro c cs holds place
    exact ⟨place.advance c, .char (congrArg (Option.map (Prod.mk [])) (if_pos holds))⟩
  refuses := by
    intro cs none place
    refine .char ?_
    cases cs with
    | nil => rfl
    | cons c cs =>
      have other : ¬k.holds c = true := Bool.eq_false_iff.1 (none c rfl)
      exact congrArg (Option.map (Prod.mk [])) (if_neg other)

/-- A certain character. -/
theorem single (c : Char) : Picks (.text [c]) (· = c) where
  takes := by
    intro c' cs same
    obtain rfl := of_decide_eq_true same
    exact .text [c'] cs
  refuses := by
    intro cs none place
    refine .text ?_
    cases cs with
    | nil => rfl
    | cons c' cs =>
      have other : c ≠ c' := fun same => of_decide_eq_false (none c' rfl) same.symm
      exact congrArg (Option.map (Prod.mk [])) (if_neg other)

/-- A character of one kind or of another. -/
theorem alt (first : Picks a f) (second : Picks b f') :
    Picks (.alt a b) fun c => f c || f' c where
  takes := by
    intro c cs holds
    by_cases left : f c = true
    · exact (first.takes left).left
    · have left := Bool.eq_false_iff.2 left
      refine .right (first.refuses ?_) (second.takes ?_)
      · rintro c' ⟨⟩
        exact left
      · rwa [left, Bool.false_or] at holds
  refuses := by
    intro cs none
    refine .alt (first.refuses ?_) (second.refuses ?_)
    · exact fun c mem => (Bool.or_eq_false_iff.1 (none c mem)).1
    · exact fun c mem => (Bool.or_eq_false_iff.1 (none c mem)).2

/-- As many characters as there are. -/
theorem more (h : Picks p f) (all : ∀ c ∈ cs, f c = true)
    (none : ∀ c ∈ rest.head?, f c = false) : Takes (.more p) (cs ++ rest) rest := by
  induction cs with
  | nil => exact .noMore (h.refuses none)
  | cons c cs ih =>
    obtain ⟨first, others⟩ := List.forall_mem_cons.1 all
    exact .more (h.takes first) (ih others)

end Picks

/-- The first characters of names. -/
theorem picks_identifierStart : Picks identifierStart isNameStart :=
  ((Picks.char .asciiLetter).alt
    ((Picks.single '$').alt ((Picks.single '_').alt (.char .letter)))).congr
    fun c => by simp only [isNameStart, CharClass.holds, Bool.or_assoc]

/-- The further characters of names. -/
theorem picks_identifierPart : Picks identifierPart isNamePart :=
  (picks_identifierStart.alt ((Picks.char .digit).alt ((Picks.char .number).alt
    ((Picks.char .connector).alt ((Picks.single '\u200c').alt (.single '\u200d')))))).congr
    fun c => by simp only [isNamePart, CharClass.holds, Bool.or_assoc]

/-- No blank character is part of a name. -/
theorem isNamePart_blank {c : Char} (blank : isBlankChar c = true) : isNamePart c = false := by
  have outside : c ≠ '$' ∧ c ≠ '_' ∧ c ≠ '\u200c' ∧ c ≠ '\u200d' := by
    refine ⟨?_, ?_, ?_, ?_⟩ <;> rintro rfl <;> exact absurd blank (by decide)
  have letter : c.isAlpha = false := CharClass.holds_blank (k := .asciiLetter) nofun blank
  have digit : c.isDigit = false := CharClass.holds_blank (k := .digit) nofun blank
  have letter' : Text.isLetter c = false := CharClass.holds_blank (k := .letter) nofun blank
  have number : Text.isNumber c = false := CharClass.holds_blank (k := .number) nofun blank
  have connector : Text.isConnector c = false := CharClass.holds_blank (k := .connector) nofun blank
  simp [isNamePart, isNameStart, outside, letter, digit, letter', number, connector]

/-- No digit begins a name. -/
theorem isDigit_isNameStart {c : Char} (start : isNameStart c = true) : c.isDigit = false := by
  have digits : ∀ n < 10, isNameStart (Char.ofNat ('0'.toNat + n)) = false := by decide
  refine Bool.eq_false_iff.2 fun digit => ?_
  obtain ⟨low, high⟩ := Char.isDigit_iff_toNat.1 digit
  have small : c.toNat - '0'.toNat < 10 := by
    have : '9'.toNat = '0'.toNat + 9 := rfl
    omega
  have same := digits _ small
  rw [Nat.add_sub_cancel' low, Char.ofNat_toNat, start] at same
  cases same

/-! ## Names -/

end Grammar

namespace Word

/-- A word is made of parts of names. -/
theorem isNamePart_of_mem (n : Word) {c : Char} (mem : c ∈ n.text.toList) :
    isNamePart c = true := by
  rw [text, String.toList_ofList, List.mem_cons] at mem
  rcases mem with rfl | mem
  · rw [isNamePart, n.start]
    rfl
  · exact n.parts c mem

/-- The characters of a word. -/
theorem toList_text (n : Word) : n.text.toList = n.first :: n.others := String.toList_ofList

end Word

namespace Grammar

/-- A word is taken up to what is no part of a name. -/
theorem takes_word (n : Word) (ends : ∀ c ∈ tail.head?, isNamePart c = false) :
    Takes (.once Rule.identifierName.body) (n.text.toList ++ tail) tail := by
  rw [n.toList_text]
  exact .seq (picks_identifierStart.takes n.start) (.many (picks_identifierPart.more n.parts ends))

/-- A word is taken as it stands. -/
theorem takes_identifierName (n : Word) (ends : Ends tail) :
    Takes (.once Rule.identifierName.body) (n.text.toList ++ tail) tail :=
  takes_word n fun c mem => isNamePart_blank (ends c mem)

/-- One of several texts stands at the front of a word, or none does. -/
theorem refuses_or_takes {texts : List String} {cs : List Char}
    (solid : ∀ s ∈ texts, s.toList.all (!isBlankChar ·) = true) (ends : Ends tail) :
    Refuses true (.oneOfTexts texts) (cs ++ tail) ∨ ∃ s ∈ texts, ∃ rest, cs = s.toList ++ rest ∧
      Takes (.once (.oneOfTexts texts)) (cs ++ tail) (rest ++ tail) := by
  -- one of the texts stands in front of what is left, or is refused
  have one : ∀ {s : String}, s.toList.all (!isBlankChar ·) = true →
      Refuses true (.lit s) (cs ++ tail) ∨ ∃ rest, cs = s.toList ++ rest ∧
        Takes (.once (.lit s)) (cs ++ tail) (rest ++ tail) := by
    intro s solid
    cases taken : Cursor.take? s.toList ⟨.start, cs⟩ with
    | none =>
      refine .inl fun place => ?_
      have gives : Gives scripts true (.once (.lit s)) ⟨.start, cs⟩ none :=
        .text (by rw [taken]; rfl)
      obtain ⟨_, gives, ⟨⟩⟩ := gives.elsewhere rfl solid ends place
      exact gives
    | some c =>
      obtain ⟨same, -⟩ := Cursor.take?_eq_some_iff.1 taken
      refine .inr ⟨c.rest, same, ?_⟩
      rw [show cs = _ from same, List.append_assoc]
      exact .text _ _
  induction texts with
  | nil => exact .inl (.unless (.text [] _))
  | cons s texts ih =>
    obtain ⟨first, others⟩ := List.forall_mem_cons.1 solid
    cases texts with
    | nil =>
      refine (one first).imp_right ?_
      rintro ⟨rest, same, takes⟩
      exact ⟨s, List.mem_singleton_self s, rest, same, takes⟩
    | cons s' texts =>
      rcases one first with refused | ⟨rest, same, takes⟩
      · rcases ih others with refused' | ⟨t, mem, rest, same, takes⟩
        · exact .inl (.alt refused refused')
        · exact .inr ⟨t, List.mem_cons_of_mem s mem, rest, same, .right refused takes⟩
      · exact .inr ⟨s, List.mem_cons_self, rest, same, .left takes⟩

/-- A name is no reserved word. -/
theorem refuses_reserved (n : Name) {texts : List String}
    (reserved : ∀ s ∈ texts, s ∈ keywords ++ unusedWords) (ends : Ends tail) :
    Refuses true (.notBefore (.oneOfTexts texts) identifierPart) (n.text.toList ++ tail) := by
  have solid : ∀ s ∈ keywords ++ unusedWords, s.toList.all (!isBlankChar ·) = true := by
    decide
  rcases refuses_or_takes (fun s mem => solid s (reserved s mem)) ends with
    refused | ⟨s, mem, rest, same, takes⟩
  · exact refused.first
  · suffices one : Takes (.once identifierPart) (rest ++ tail) (rest.tail ++ tail) from
      .second takes (.unless one)
    cases rest with
    | nil =>
      rw [List.append_nil, String.toList_inj] at same
      exact absurd (same ▸ reserved s mem) n.free
    | cons c rest =>
      refine picks_identifierPart.takes (n.isNamePart_of_mem ?_)
      rw [same]
      exact List.mem_append_right _ List.mem_cons_self

/-- A name is no keyword. -/
theorem refuses_keyword (n : Name) {s : String} (listed : s ∈ keywords) (ends : Ends tail) :
    Refuses w (word s) (n.text.toList ++ tail) := by
  have reserved : ∀ t ∈ [s], t ∈ keywords ++ unusedWords :=
    List.forall_mem_singleton.2 (List.mem_append_left _ listed)
  exact .word rfl (refuses_reserved n reserved ends)

/-- What refuses each of several patterns refuses the first that matches. -/
theorem Refuses.oneOf {ps : List (Pattern Rule)} (h : ∀ q ∈ ps, Refuses true q cs) :
    Refuses true (.oneOf ps) cs := by
  induction ps with
  | nil => exact .unless (.text [] cs)
  | cons q ps ih =>
    obtain ⟨first, others⟩ := List.forall_mem_cons.1 h
    cases ps with
    | nil => exact first
    | cons => exact .alt first (ih others)

/-- A name is taken as an identifier. -/
theorem takes_identifier (n : Name) (ends : Ends tail) :
    Takes (.once Rule.identifier.body) (n.text.toList ++ tail) tail := by
  refine .seq (.unless (.word rfl (.oneOf ?_))) (.rule (takes_identifierName n.toWord ends))
  rw [List.forall_mem_append, List.forall_mem_map, List.forall_mem_singleton]
  exact ⟨fun s listed => refuses_keyword n listed ends,
    refuses_reserved n (fun s => List.mem_append_right _) ends⟩

/-- True for the openings that do not begin a name. -/
def Pattern.missesNames : Pattern Rule → Bool
  | .text (c :: _) => !isNameStart c
  | .char .nonzeroDigit => true
  | .rule (.keyword s) => s ∈ keywords
  | _ => false

/-- Such an opening refuses names. -/
theorem refuses_name (h : p.missesNames = true) (n : Name) (ends : Ends tail) :
    Refuses true p (n.text.toList ++ tail) := by
  cases p with
  | text cs =>
    cases cs with
    | nil => cases h
    | cons c cs =>
      intro place
      have other : c ≠ n.first := by
        rintro rfl
        simp [Pattern.missesNames, n.start] at h
      rw [n.toList_text]
      exact .text (congrArg (Option.map (Prod.mk [])) (if_neg other))
  | char k =>
    cases k with
    | nonzeroDigit =>
      -- a name begins with no digit
      refine (Picks.char _).refuses ?_
      rw [n.toList_text]
      rintro c ⟨⟩
      rw [CharClass.holds, isDigit_isNameStart n.start, Bool.false_and]
    | _ => cases h
  | rule r =>
    cases r with
    | keyword s => exact refuses_keyword n (of_decide_eq_true h) ends
    | _ => cases h
  | _ => cases h

/-! ## Integers -/

/-- The numeral of a number is a digit and further digits, and none after a zero. -/
theorem exists_digits (n : Nat) : ∃ d ds, (Nat.repr n).toList = d :: ds ∧ d.isDigit = true ∧
    (∀ c ∈ ds, c.isDigit = true) ∧ (d = '0' → ds = []) := by
  have digits : ∀ c ∈ (Nat.repr n).toList, c.isDigit = true := fun c => Number.isDigit_of_mem_repr
  cases same : (Nat.repr n).toList with
  | nil =>
    have read := Number.natOfDigits?_repr n
    rw [same] at read
    cases read
  | cons d ds =>
    rw [same] at digits
    obtain ⟨first, others⟩ := List.forall_mem_cons.1 digits
    refine ⟨d, ds, rfl, first, others, ?_⟩
    rintro rfl
    cases ds with
    | nil => rfl
    | cons d ds => exact absurd same (Number.repr_ne_zero_cons n d ds)

/-- Digits are taken up to what is no digit. -/
theorem takes_digits {ds : List Char} (digits : ∀ c ∈ ds, c.isDigit = true)
    (ends : ∀ c ∈ tail.head?, c.isDigit = false) :
    Takes (.once (.many (.char .digit))) (ds ++ tail) tail :=
  .many ((Picks.char .digit).more digits ends)

/-- Digits without a superfluous zero are taken as an integer. -/
theorem takes_decimalInteger {d : Char} {ds : List Char} (digit : d.isDigit = true)
    (digits : ∀ c ∈ ds, c.isDigit = true) (zero : d = '0' → ds = [])
    (ends : ∀ c ∈ tail.head?, c.isDigit = false) :
    Takes (.once decimalInteger) (d :: (ds ++ tail)) tail := by
  by_cases isZero : d = '0'
  · obtain rfl := isZero
    obtain rfl := zero rfl
    exact .left (.text ['0'] tail)
  · have mark : Refuses true (.lit "0") (d :: (ds ++ tail)) := fun place =>
      .text (congrArg (Option.map (Prod.mk [])) (if_neg (Ne.symm isZero)))
    have nonzero : CharClass.nonzeroDigit.holds d = true := by
      simp [CharClass.holds, digit, isZero]
    exact .right mark (.seq ((Picks.char _).takes nonzero) (takes_digits digits ends))

/-- A numeral is taken as a numeric literal. -/
theorem takes_numericLiteral (n : Nat) (ends : Ends tail) :
    Takes (.once Rule.numericLiteral.body) ((Nat.repr n).toList ++ tail) tail := by
  obtain ⟨d, ds, same, digit, digits, zero⟩ := exists_digits n
  -- what may follow the digits is not there
  have absent : ∀ {q : Pattern Rule}, rejects q "" = true → Refuses true q tail := fun h =>
    refuses_of_rejects h ends
  rw [same]
  by_cases isZero : d = '0'
  · obtain rfl := isZero
    obtain rfl := zero rfl
    have accepted : accepts Rule.numericLiteral.body "0" = true := by decide
    exact takes_of_accepts accepted ends
  · have mark : ∀ cs, Refuses true (.text ('0' :: cs)) (d :: ds ++ tail) := fun cs place =>
      .text (congrArg (Option.map (Prod.mk [])) (if_neg (Ne.symm isZero)))
    have whole : Takes (.once decimalInteger) (d :: (ds ++ tail)) tail :=
      takes_decimalInteger digit digits zero fun c mem =>
        CharClass.holds_blank (k := .digit) (by decide) (ends c mem)
    refine .seq (.right (.first (.alt (mark _) (mark _))) (.left ?_))
      (.unless (absent (by decide)))
    exact .seq (.seq whole (.noOpt (absent (by decide))))
      (.noOpt (absent (by decide)))

/-- What a numeral denotes. -/
theorem numberOf_repr (span : Span) (n : Nat) :
    ScriptToken.numberOf span (Nat.repr n) = .ok (Number.ofDecimal n 0) := by
  obtain ⟨d, ds, same, digit, digits, zero⟩ := exists_digits n
  have all : ∀ c ∈ d :: ds, c.isDigit = true := List.forall_mem_cons.2 ⟨digit, digits⟩
  have value : Nat.ofDigitChars 10 (d :: ds) 0 = n := by
    have read := Number.natOfDigits?_repr n
    rw [same, Number.natOfDigits?, if_pos ⟨List.cons_ne_nil d ds, List.all_eq_true.2 all⟩] at read
    exact Option.some.inj read
  have spans : Number.spanDigits (d :: ds) = (d :: ds, []) := by
    have spans := @Number.spanDigits_append _ [] all (by simp)
    rwa [List.append_nil] at spans
  have read : Number.ofNumeral? (d :: ds) = some (Number.ofDecimal n 0) := by
    simp [Number.ofNumeral?, spans, Number.exponentPart?, value]
  rw [ScriptToken.numberOf, same]
  split
  next h => cases (List.cons.inj h).1; cases (zero rfl).symm.trans (List.cons.inj h).2
  next h => cases (List.cons.inj h).1; cases (zero rfl).symm.trans (List.cons.inj h).2
  next => rw [read]; rfl

/-- True for the openings that do not begin a numeral. -/
def Pattern.missesNumerals : Pattern Rule → Bool
  | .text (c :: _) => !c.isDigit && c ≠ '.'
  | .rule (.keyword s) => s ∈ keywords
  | .char k => k ∈ [.asciiLetter, .letter]
  | _ => false

/-- Such an opening refuses what begins with a digit or a point. -/
theorem refuses_numeral (h : p.missesNumerals = true) {d : Char}
    (front : d.isDigit = true ∨ d = '.') : Refuses true p (d :: cs) := by
  -- a numeral begins with a digit or with the point
  have mark : ∀ {c cs'}, c.isDigit = false → c ≠ '.' →
      Refuses true (.text (c :: cs')) (d :: cs) := by
    intro c cs' other other' place
    refine .text (congrArg (Option.map (Prod.mk [])) (if_neg ?_))
    rintro rfl
    exact front.elim (fun digit => Bool.false_ne_true (other.symm.trans digit)) other'
  cases p with
  | text cs' =>
    cases cs' with
    | nil => cases h
    | cons c cs' =>
      obtain ⟨other, other'⟩ : c.isDigit = false ∧ c ≠ '.' := by
        simpa [Pattern.missesNumerals] using h
      exact mark other other'
  | char k =>
    refine (Picks.char k).refuses ?_
    rintro c ⟨⟩
    refine Bool.eq_false_iff.2 fun holds => ?_
    have start : isNameStart d = true := by
      have listed : k = .asciiLetter ∨ k = .letter := by simpa [Pattern.missesNumerals] using h
      rcases listed with rfl | rfl <;> simp_all [CharClass.holds, isNameStart]
    rcases front with digit | rfl
    · cases digit.symm.trans (isDigit_isNameStart start)
    · exact absurd start (by decide)
  | rule r =>
    cases r with
    | keyword s =>
      have letters : ∀ s ∈ keywords, (s.toList.head?.any fun c => !c.isDigit && c ≠ '.') = true := by
        decide
      obtain ⟨c, first, other⟩ := Option.any_eq_true _ _ |>.1 (letters s (of_decide_eq_true h))
      obtain ⟨cs', spelled⟩ := List.head?_eq_some_iff.1 first
      obtain ⟨other, other'⟩ : c.isDigit = false ∧ c ≠ '.' := by simpa using other
      refine .word rfl (.first ?_)
      rw [Pattern.lit, spelled]
      exact mark other other'
    | _ => cases h
  | _ => cases h

end Grammar

end AbstractScript
