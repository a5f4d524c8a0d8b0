import AbstractScript.Grammar.Script
import AbstractScript.Proofs.Matching

/-!
# The matcher has steps enough

A ranking bounds how deep the rules of a grammar nest before a character is taken. Where a grammar
has one, no rule calls itself without taking a character and no repetition repeats an empty match,
and a number of steps in proportion to the length of the input is enough for every match. The
grammar of scripts has a ranking, so that what it says about a text is what the matcher finds.
-/
namespace AbstractScript.Grammar

/-- How deep rules nest, and which rules take characters. -/
structure Ranking (R : Type) where
  /-- Steps enough for a match of the rule as long as no character is taken. -/
  rank : R → Nat
  /-- True for rules that match no empty text. -/
  takes : R → Bool
  /-- Steps enough for what is skipped between two parts. -/
  gap : Nat
  /-- Steps enough for any pattern until the next character is taken. -/
  bound : Nat

namespace Pattern

variable {R : Type} (ρ : Ranking R)

/-- True if no match of the pattern is empty. -/
def takes : Pattern R → Bool
  | text cs => !cs.isEmpty
  | char _ => true
  | rule r => ρ.takes r
  | seq a b => a.takes || b.takes
  | alt a b => a.takes && b.takes
  | stop | many _ | opt _ | .unless _ => false

/-- Steps enough for a match as long as no character is taken. -/
def depth (gap : Nat) : Pattern R → Nat
  | text _ | char _ | stop => 1
  | rule r => ρ.rank r
  | seq a b => max (a.depth gap) (max gap (if a.takes ρ then 0 else b.depth gap)) + 1
  | alt a b => max (a.depth gap) (b.depth gap) + 1
  | many a => max (a.depth gap) gap + 1
  | opt a | .unless a => a.depth gap + 1

/-- True if every repetition repeats matches that take characters, and what follows a taken
character is within the bound. -/
def fits : Pattern R → Bool
  | text _ | char _ | stop | rule _ => true
  | seq a b => a.fits && b.fits && (!a.takes ρ || b.depth ρ ρ.gap ≤ ρ.bound)
  | alt a b => a.fits && b.fits
  | many a => a.fits && a.takes ρ
  | opt a | .unless a => a.fits

end Pattern

/-- A ranking that is right about a grammar. -/
structure Ranking.IsSound {R : Type} (ρ : Ranking R) (g : RuleSet R) : Prop where
  fits : ∀ r, (g.body r).fits ρ = true
  rank : ∀ r, (g.body r).depth ρ ρ.gap < ρ.rank r
  takes : ∀ r, ρ.takes r = true → (g.body r).takes ρ = true
  blankFits : g.blank.fits ρ = true
  blank : g.blank.depth ρ 0 ≤ ρ.gap
  bound : 0 < ρ.bound

/-! ## Lengths -/

section

variable {R : Type} {g : RuleSet R}

/-- Nothing is put in front of the input. -/
theorem Gives.length_le {w : Bool} {goal : Goal R} {c c' : Cursor} {ts : List (Token R)}
    (h : Gives g w goal c (some (ts, c'))) : c'.rest.length ≤ c.rest.length := by
  obtain ⟨front, reads⟩ := h.reads
  rw [reads.text, List.length_append]
  omega

/-- A match of a pattern that takes characters leaves less of the input. -/
theorem Gives.length_lt {ρ : Ranking R} (sound : ρ.IsSound g) {w : Bool} {p : Pattern R}
    {c c' : Cursor} {ts : List (Token R)} (h : Gives g w (.once p) c (some (ts, c')))
    (takes : p.takes ρ = true) : c'.rest.length < c.rest.length := by
  have taken : ∀ {front : List Char} {a b : Cursor}, a.Reads front b → front ≠ [] →
      b.rest.length < a.rest.length := by
    intro front a b reads ne
    have := List.length_pos_iff.2 ne
    rw [reads.text, List.length_append]
    omega
  generalize goal : Goal.once p = once at h
  generalize found : some (ts, c') = r at h
  -- by induction on the derivation: one of the parts takes a character, and none gives any back
  induction h generalizing p ts c' with
  | @text w cs c r matched =>
    cases goal
    obtain ⟨c'', matched, same⟩ := Option.map_eq_some_iff.1 (matched.trans found.symm)
    cases same
    refine taken (Cursor.take?_eq_some_iff.1 matched) ?_
    rintro rfl
    cases takes
  | char matched =>
    obtain ⟨c'', matched, same⟩ := Option.map_eq_some_iff.1 (matched.trans found.symm)
    cases same
    obtain ⟨x, -, reads⟩ := Cursor.takeChar?_eq_some_iff.1 matched
    exact taken reads (List.cons_ne_nil x [])
  | seq first between second ih _ ih' =>
    cases goal
    cases found
    have l₁ := first.length_le
    have l₂ := between.length_le
    have l₃ := second.length_le
    rcases Bool.or_eq_true_iff.1 takes with takes | takes
    · have := ih takes rfl rfl
      omega
    · have := ih' takes rfl rfl
      omega
  | left _ ih =>
    cases goal
    exact ih (Bool.and_eq_true_iff.1 takes).1 rfl found
  | right _ _ _ ih =>
    cases goal
    exact ih (Bool.and_eq_true_iff.1 takes).2 rfl found
  | @rule w r c ts c₁ _ ih =>
    cases goal
    cases found
    exact ih (sound.takes r takes) rfl rfl
  | stop | opt | noOpt | many | noMany | «unless» =>
    cases goal
    cases takes
  | _ => first | (cases goal; done) | cases found

end

/-! ## Steps -/

namespace Pattern

variable {R : Type} {ρ : Ranking R}

/-- Every match takes a step. -/
theorem depth_pos (p : Pattern R) (gap : Nat) (rank : ∀ r, 0 < ρ.rank r) : 0 < p.depth ρ gap := by
  cases p with
  | rule r => exact rank r
  | _ => simp [depth]

/-- Skipping less takes fewer steps. -/
theorem depth_mono (p : Pattern R) {gap gap' : Nat} (le : gap ≤ gap') :
    p.depth ρ gap ≤ p.depth ρ gap' := by
  induction p with
  | text | char | stop | rule => exact Nat.le_refl _
  | seq a b ih ih' =>
    simp only [depth]
    split <;> omega
  | alt a b ih ih' =>
    simp only [depth]
    omega
  | many a ih =>
    simp only [depth]
    omega
  | opt a ih | «unless» a ih => exact Nat.succ_le_succ ih

end Pattern

variable {R : Type} {g : RuleSet R} {ρ : Ranking R}

/-- A repetition ends if each of its steps does and takes characters. -/
theorem iterate_ne_spent {step : Cursor → Position → Outcome R} :
    ∀ {count : Nat} {done : List (Token R)} {c : Cursor} {far : Position},
      c.rest.length < count →
      (∀ c' far, c'.rest.length ≤ c.rest.length → step c' far ≠ .spent) →
      (∀ c' far ts c'' far', step c' far = .matched ts c'' far' →
        c''.rest.length < c'.rest.length) →
      iterate step count done c far ≠ .spent := by
  intro count
  induction count with
  | zero => exact fun short => absurd short (Nat.not_lt_zero _)
  | succ count ih =>
    intro done c far short ends shorter
    rw [iterate]
    cases ran : step c far with
    | matched ts c' far' =>
      have less := shorter c far ts c' far' ran
      exact ih (by omega) (fun c'' far h => ends c'' far (by omega)) shorter
    | failed => rintro ⟨⟩
    | spent => exact absurd ran (ends c far (Nat.le_refl _))

/-- **Steps in proportion to the input are enough.** -/
theorem run_ne_spent (sound : ρ.IsSound g) :
    ∀ {steps : Nat} {mode : Mode} {p : Pattern R} {c : Cursor} {far : Position},
      p.fits ρ = true →
      ρ.bound * c.rest.length + p.depth ρ (if mode.inWord then 0 else ρ.gap) ≤ steps →
      run g steps mode p c far ≠ .spent := by
  intro steps
  induction steps with
  | zero =>
    intro mode p c far _ enough
    have rank : ∀ r, 0 < ρ.rank r := fun r => Nat.zero_lt_of_lt (sound.rank r)
    have := Pattern.depth_pos p (if mode.inWord then 0 else ρ.gap) rank
    omega
  | succ steps ih =>
    intro mode p c far fits enough
    have skips : ∀ {c : Cursor} {far : Position},
        ρ.bound * c.rest.length + (if mode.inWord then 0 else ρ.gap) ≤ steps →
        skip g steps mode c far ≠ .spent := by
      obtain ⟨inWord, negated⟩ := mode
      intro c far enough
      cases inWord with
      | true => rintro ⟨⟩
      | false =>
        have enough : ρ.bound * c.rest.length + g.blank.depth ρ 0 ≤ steps :=
          Nat.le_trans (Nat.add_le_add_left sound.blank _) enough
        show run g steps ⟨true, negated⟩ g.blank c far ≠ .spent
        exact ih sound.blankFits enough
    have gapLe : (if mode.inWord then 0 else ρ.gap) ≤ ρ.gap := by split <;> omega
    -- less input needs fewer steps
    have scale : ∀ {m n : Nat}, m ≤ n → ρ.bound * m ≤ ρ.bound * n := Nat.mul_le_mul_left _
    cases p with
    | text cs =>
      simp only [run]
      split <;> rintro ⟨⟩
    | char k =>
      simp only [run]
      split <;> rintro ⟨⟩
    | stop =>
      simp only [run]
      split <;> rintro ⟨⟩
    | seq a b =>
      obtain ⟨⟨fitsA, fitsB⟩, within⟩ : (a.fits ρ = true ∧ b.fits ρ = true) ∧
          (a.takes ρ = false ∨ b.depth ρ ρ.gap ≤ ρ.bound) := by
        simpa [Pattern.fits] using fits
      simp only [Pattern.depth] at enough
      rw [run_seq]
      cases first : run g steps mode a c far with
      | spent => exact absurd first (ih fitsA (by omega))
      | failed => rintro ⟨⟩
      | matched ts c₁ far₁ =>
        have gives : Gives g mode.inWord (.once a) c (some (ts, c₁)) :=
          gives_of_run (congrArg _ first)
        have := scale gives.length_le
        simp only
        cases between : skip g steps mode c₁ far with
        | spent => exact absurd between (skips (by omega))
        | failed => rintro ⟨⟩
        | matched us c₂ far₂ =>
          have gap : Gives g mode.inWord .gap c₁ (some (us, c₂)) :=
            gives_of_skip (congrArg _ between)
          have := scale gap.length_le
          simp only
          cases second : run g steps mode b c₂ far₁ with
          | spent =>
            refine absurd second (ih fitsB ?_)
            cases takes : a.takes ρ with
            | false =>
              rw [takes, if_neg Bool.false_ne_true] at enough
              omega
            | true =>
              have less := gives.length_lt sound takes
              have := scale (Nat.succ_le_of_lt less)
              have := within.resolve_left (takes ▸ Bool.noConfusion)
              have : b.depth ρ _ ≤ b.depth ρ ρ.gap := b.depth_mono gapLe
              rw [Nat.mul_succ] at *
              omega
          | failed => rintro ⟨⟩
          | matched => rintro ⟨⟩
    | alt a b =>
      obtain ⟨fitsA, fitsB⟩ := Bool.and_eq_true_iff.1 fits
      simp only [Pattern.depth] at enough
      simp only [run]
      cases first : run g steps mode a c far with
      | spent => exact absurd first (ih fitsA (by omega))
      | failed => exact ih fitsB (by omega)
      | matched => rintro ⟨⟩
    | many a =>
      obtain ⟨fitsA, takes⟩ := Bool.and_eq_true_iff.1 fits
      simp only [Pattern.depth] at enough
      rw [run_many]
      cases first : run g steps mode a c far with
      | spent => exact absurd first (ih fitsA (by omega))
      | failed => rintro ⟨⟩
      | matched ts c₁ far₁ =>
        have gives : Gives g mode.inWord (.once a) c (some (ts, c₁)) :=
          gives_of_run (congrArg _ first)
        refine iterate_ne_spent ?_ ?_ ?_
        · have less := gives.length_lt sound takes
          have : c.rest.length ≤ ρ.bound * c.rest.length := Nat.le_mul_of_pos_left _ sound.bound
          omega
        · intro c' far' shorter
          have := scale (Nat.le_trans shorter gives.length_le)
          cases between : skip g steps mode c' far with
          | spent => exact absurd between (skips (by omega))
          | failed => rintro ⟨⟩
          | matched us c₂ far₂ =>
            have gap : Gives g mode.inWord .gap c' (some (us, c₂)) :=
              gives_of_skip (congrArg _ between)
            have := scale gap.length_le
            exact ih fitsA (by omega)
        · intro c' far' ts' c'' far'' ran
          cases between : skip g steps mode c' far with
          | spent => rw [between] at ran; cases ran
          | failed => rw [between] at ran; cases ran
          | matched us c₂ far₂ =>
            rw [between] at ran
            have gap : Gives g mode.inWord .gap c' (some (us, c₂)) :=
              gives_of_skip (congrArg _ between)
            have again : Gives g mode.inWord (.once a) c₂ (some (ts', c'')) :=
              gives_of_run (congrArg _ ran)
            exact Nat.lt_of_lt_of_le (again.length_lt sound takes) gap.length_le
    | opt a =>
      simp only [Pattern.depth] at enough
      simp only [run]
      cases first : run g steps mode a c far with
      | spent => exact absurd first (ih fits (by omega))
      | failed => rintro ⟨⟩
      | matched => rintro ⟨⟩
    | «unless» a =>
      simp only [Pattern.depth] at enough
      simp only [run]
      cases first : run g steps ⟨mode.inWord, !mode.negated⟩ a c far with
      | spent => exact absurd first (ih fits (by simpa using by omega))
      | failed => rintro ⟨⟩
      | matched => rintro ⟨⟩
    | rule r =>
      have rank := sound.rank r
      have gapLe : (if mode.inWord || g.manner r = .word then 0 else ρ.gap) ≤ ρ.gap := by
        split <;> omega
      have smaller : (g.body r).depth ρ _ ≤ (g.body r).depth ρ ρ.gap :=
        (g.body r).depth_mono gapLe
      simp only [Pattern.depth] at enough
      simp only [run]
      cases inside : run g steps ⟨mode.inWord || g.manner r = .word, mode.negated⟩ (g.body r) c far
      with
      | spent => exact absurd inside (ih (sound.fits r) (by dsimp only; omega))
      | failed => rintro ⟨⟩
      | matched => rintro ⟨⟩

/-- Every pattern gives something at every place. -/
theorem exists_gives (sound : ρ.IsSound g) {p : Pattern R} (fits : p.fits ρ = true) (w : Bool)
    (c : Cursor) : ∃ r, Gives g w (.once p) c r := by
  have enough : ρ.bound * c.rest.length + p.depth ρ (if w then 0 else ρ.gap) ≤
      ρ.bound * c.rest.length + p.depth ρ ρ.gap := by
    refine Nat.add_le_add_left (p.depth_mono ?_) _
    split <;> omega
  have ends : run g (ρ.bound * c.rest.length + p.depth ρ ρ.gap) ⟨w, false⟩ p c .start ≠ .spent :=
    run_ne_spent sound fits enough
  rcases ran : run g (ρ.bound * c.rest.length + p.depth ρ ρ.gap) ⟨w, false⟩ p c .start with
    ⟨ts, c', far⟩ | far | _
  · exact ⟨_, gives_of_run (congrArg _ ran)⟩
  · exact ⟨_, gives_of_run (congrArg _ ran)⟩
  · exact absurd ran ends

/-- A pattern that takes characters gives nothing at the end of the input. -/
theorem gives_none_of_takes (sound : ρ.IsSound g) {p : Pattern R} (fits : p.fits ρ = true)
    (takes : p.takes ρ = true) (w : Bool) (place : Position) :
    Gives g w (.once p) ⟨place, []⟩ none := by
  obtain ⟨found, gives⟩ := exists_gives sound fits w ⟨place, []⟩
  cases found with
  | none => exact gives
  | some found => exact absurd (gives.length_lt sound takes) (Nat.not_lt_zero _)

/-! ## The grammar of scripts -/

/-- The ranks of the rules of scripts. A level of precedence stands above the levels that it begins
with; the rules that begin with a word or a mark of their own stand below all of them. -/
def scriptRank : Rule → Nat
  | .keyword _ | .identifierName | .numericLiteral | .stringLiteral => 30
  | .propertyName => 50
  | .identifier => 65
  | .formalParameters | .labelledStatement | .variableDeclaration => 70
  | .variableDeclarationList => 75
  | .primaryExpression => 80
  | .memberExpression => 85
  | .leftHandSideExpression => 90
  | .postfixExpression => 95
  | .unaryExpression => 100
  | .multiplicativeExpression => 105
  | .additiveExpression => 110
  | .shiftExpression => 115
  | .relationalExpression => 120
  | .equalityExpression => 125
  | .bitwiseAndExpression => 130
  | .bitwiseXorExpression => 135
  | .bitwiseOrExpression => 140
  | .logicalAndExpression => 145
  | .logicalOrExpression => 150
  | .conditionalExpression => 155
  | .assignmentExpression => 160
  | .expression => 165
  | .expressionStatement | .forInit | .forTest | .forUpdate => 170
  | .script => 200
  | _ => 60

/-- The ranking of the grammar of scripts. -/
def scriptRanking : Ranking Rule where
  rank := scriptRank
  takes
    | .keyword w => !w.toList.isEmpty
    | .endOfInput | .formalParameters | .script => false
    | _ => true
  gap := 10
  bound := 1000

/-- The ranking of the grammar of scripts is right. -/
theorem scriptRanking_sound : scriptRanking.IsSound scripts where
  fits r := by
    cases r with
    | keyword w =>
      have within : (Pattern.unless identifierPart).depth scriptRanking 10 ≤ 1000 := by
        decide
      have fits : identifierPart.fits scriptRanking = true := by decide
      simp [scripts, Rule.body, wholeWord, Pattern.notBefore, Pattern.lit, Pattern.fits, fits]
      exact .inr within
    | _ => decide
  rank r := by
    cases r with
    | keyword w =>
      have within : (Pattern.unless identifierPart).depth scriptRanking 10 < 29 := by
        decide
      show max 1 (max 10 (if _ then 0
        else (Pattern.unless identifierPart).depth scriptRanking 10)) + 1 < 30
      split <;> omega
    | _ => decide +kernel
  takes r := by
    cases r with
    | keyword w =>
      intro takes
      exact Bool.or_eq_true_iff.2 (.inl takes)
    | _ => decide
  blankFits := by decide
  blank := by decide
  bound := by decide

/-- What is read from a text is what the grammar says about it. -/
theorem parseScript_eq_ok_iff {text : String} {t : Token Rule} :
    parseScript text = .ok t ↔
      ∃ c, Gives scripts false (.once (.rule .script)) (.ofChars text.toList)
        (some ([t], c)) := by
  constructor
  · intro h
    obtain ⟨ts, c, gives⟩ := gives_of_parse h
    refine ⟨c, ?_⟩
    generalize found : t :: ts = us at gives
    cases gives with
    | rule inside =>
      cases found
      exact .rule inside
  · rintro ⟨c, gives⟩
    -- the parser has enough steps for its text
    have enough : scriptRanking.bound * text.toList.length +
        (Pattern.rule Rule.script).depth scriptRanking 10 ≤ stepsFor text.toList := by
      show 1000 * text.toList.length + 200 ≤ 1000 * (text.toList.length + 2)
      omega
    have ends : run scripts (stepsFor text.toList) ⟨false, false⟩ (.rule .script)
        (.ofChars text.toList) .start ≠ .spent := run_ne_spent scriptRanking_sound rfl enough
    rw [parseScript, parse]
    cases ran : run scripts (stepsFor text.toList) ⟨false, false⟩ (.rule .script)
        (.ofChars text.toList) .start with
    | spent => exact absurd ran ends
    | failed far => cases gives.unique (gives_of_run (congrArg _ ran))
    | matched ts c far =>
      cases gives.unique (gives_of_run (congrArg _ ran))
      rfl

end AbstractScript.Grammar
