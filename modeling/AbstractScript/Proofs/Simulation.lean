import AbstractScript.Proofs.Effect

/-!
# Statements simulate

A run in which some values are unknown simulates the run in which they are known. If a statement ends
abruptly for certain, then it ends so in both runs; if it ends normally, then the other run ends
normally too, or its end is one of the possible exits recorded since. No construct loses an exit: a
label, a handler or a block claims one only if it takes the same end in the other run.
-/
namespace AbstractScript

namespace Effect

variable {α β : Type}

/-- How a statement has ended in two runs, the possible exits since a mark included. -/
structure Outcome (mark : Nat) (c : Completion) (σ : Store) (c' : Completion) (τ : Store) :
    Prop where
  covers : σ.Covers τ
  abrupt : c.isAbrupt = true → c.Covers c'
  normal : c.isNormal = true → σ.Accounts mark c'

/-- From a store that covers another one, two statements end alike, unless an abrupt completion is
overtaken. -/
def Simulates (d e : Effect Completion) : Prop := ∀ σ τ : Store, σ.Covers τ →
  ¬ (d.after σ).overtaken →
    Outcome σ.exits.length (d.result σ) (d.after σ) (e.result τ) (e.after τ)

/-- Inside an ambiguous block, an effect records how a statement of the other run ends. -/
def Catches (d : Effect α) (e : Effect Completion) : Prop := ∀ σ τ : Store, σ.IsInside →
  σ.Covers τ → ¬ (d.after σ).overtaken →
    (d.after σ).Covers (e.after τ) ∧ (d.after σ).Accounts σ.exits.length (e.result τ)

theorem Outcome.of_isNormal {mark : Nat} {c c' : Completion} {σ τ : Store} (covers : σ.Covers τ)
    (left : c.isNormal = true) (right : σ.Accounts mark c') : Outcome mark c σ c' τ where
  covers := covers
  abrupt abrupt := absurd abrupt (Completion.not_isAbrupt_iff.2 left)
  normal _ := right

theorem Outcome.of_isAbrupt {mark : Nat} {c c' : Completion} {σ τ : Store} (covers : σ.Covers τ)
    (left : c.isAbrupt = true) (right : c.Covers c') : Outcome mark c σ c' τ where
  covers := covers
  abrupt _ := right
  normal normal := absurd left (Completion.not_isAbrupt_iff.2 normal)

/-! ## Ambiguous blocks -/

namespace Catches

theorem bind_left {d : Effect α} {f : α → Effect β} {e : Effect Completion} (hd : Fading d)
    (h : ∀ a, Catches (f a) e) : Catches (d >>= f) e := by
  intro σ τ inside covers open'
  obtain ⟨covers', accounts⟩ :=
    h _ _ τ (inside.fades (hd σ)) (covers.fades inside (hd σ)) open'
  exact ⟨covers', accounts.mono (hd σ).exits.length_le (List.prefix_refl _)⟩

/-- Around an ambiguous block, its end is accounted for. -/
theorem inBlock {d : Effect α} {e : Effect Completion} (h : Catches d e) (hd : Fading d)
    {σ τ : Store} (covers : σ.Covers τ) (open' : ¬ ((inBlock d).after σ).overtaken) :
    ((inBlock d).after σ).Covers (e.after τ) ∧
      ((inBlock d).after σ).Accounts σ.exits.length (e.result τ) := by
  obtain ⟨covers', accounts⟩ := h σ.enter τ covers.isInside_enter covers.enter open'
  exact ⟨covers.leave (hd σ.enter) covers', accounts⟩

end Catches

namespace Simulates

/-- A statement whose end is noted catches what it simulates. -/
theorem catches {d e : Effect Completion} {f : Completion → Unit → Effect β} (h : Simulates d e)
    (hd : Fading d) (hf : ∀ c u, Fading (f c u)) : Catches (do
      let c ← d
      let u ← note c
      f c u) e := by
  intro σ τ inside covers open'
  have noted := Fading.note (d.result σ) (d.after σ)
  have faded := noted.trans (hf (d.result σ) () _)
  have outcome := h σ τ covers fun later => open' (faded.overtaken later)
  refine ⟨outcome.covers.fades (inside.fades (hd σ)) faded, ?_⟩
  by_cases abrupt : (d.result σ).isAbrupt = true
  · -- the end that was noted is itself the exit that accounts for the other run
    have listed : (note (d.result σ)).after (d.after σ) = (d.after σ).exit (d.result σ) :=
      if_pos abrupt
    have accounts : ((d.after σ).exit (d.result σ)).Accounts σ.exits.length (e.result τ) := by
      refine .inr ⟨d.result σ, ?_, outcome.abrupt abrupt⟩
      rw [Store.exit, List.drop_append_of_le_length (hd σ).exits.length_le]
      exact List.mem_append_right _ (List.mem_singleton_self _)
    exact accounts.mono (Nat.le_refl _) (listed ▸ (hf (d.result σ) () _).exits)
  · exact (outcome.normal (Completion.not_isAbrupt_iff.1 abrupt)).mono (Nat.le_refl _) faded.exits

/-- Something that may or may not happen accounts for what it simulates. -/
theorem ambiguously {d e : Effect Completion} (h : Simulates d e) (hd : Fading d) {σ τ : Store}
    (covers : σ.Covers τ) (open' : ¬ ((ambiguously d).after σ).overtaken) :
    ((ambiguously d).after σ).Covers (e.after τ) ∧
      ((ambiguously d).after σ).Accounts σ.exits.length (e.result τ) :=
  (h.catches hd fun c _ => .pure (Eval.possibly c)).inBlock
    (.bind hd fun c => .bind (.note c) fun _ => .pure _) covers open'

end Simulates

/-- Something that may or may not happen covers a run in which it does not happen. -/
theorem covers_ambiguously {d : Effect Completion} (hd : Fading d) {σ τ : Store}
    (covers : σ.Covers τ) : ((ambiguously d).after σ).Covers τ := by
  have inner : Fading (do
      let c ← d
      note c
      return Eval.possibly c) := .bind hd fun c => .bind (.note c) fun _ => .pure _
  exact covers.leave (inner σ.enter)
    (covers.enter.fades covers.isInside_enter (inner σ.enter))

/-! ## Statement lists -/

section

variable {d : Effect Completion} {σ : Store}

/-- An abrupt completion ends a list. -/
theorem runAll_of_isAbrupt (h : (d.result σ).isAbrupt = true) (value : Option Value)
    (rest : List (Effect Completion)) :
    (runAll value (d :: rest)).result σ = (d.result σ).updateEmpty value ∧
      (runAll value (d :: rest)).after σ = d.after σ := by
  have run : runAll value (d :: rest) σ = ((d.result σ).updateEmpty value, d.after σ) := by
    rw [runAll]
    show (if (d.result σ).isAbrupt then _ else _ : Effect Completion) (d.after σ) = _
    rw [if_pos h]
    rfl
  exact ⟨by rw [result, run], by rw [after, run]⟩

/-- After a statement that may have exited, the others may or may not happen. -/
theorem runAll_of_exits (normal : ¬ (d.result σ).isAbrupt = true)
    (since : σ.exits.length < (d.after σ).exits.length) (value : Option Value)
    (rest : List (Effect Completion)) :
    ((runAll value (d :: rest)).result σ).isNormal = true ∧
      (runAll value (d :: rest)).after σ = (ambiguously (runAll none rest)).after (d.after σ) := by
  have run : runAll value (d :: rest) σ = (.finished ((d.result σ).value <|> value),
      (ambiguously (runAll none rest)).after (d.after σ)) := by
    rw [runAll]
    show (if (d.result σ).isAbrupt then _ else _ : Effect Completion) (d.after σ) = _
    rw [if_neg normal]
    show (if decide (σ.exits.length < (d.after σ).exits.length) then _ else _ : Effect Completion)
      (d.after σ) = _
    rw [if_pos (decide_eq_true since)]
    rfl
  exact ⟨by rw [result, run]; rfl, by rw [after, run]⟩

/-- After a statement that has ended normally for certain, the others go on. -/
theorem runAll_of_certain (normal : ¬ (d.result σ).isAbrupt = true)
    (certain : (d.after σ).exits.length ≤ σ.exits.length) (value : Option Value)
    (rest : List (Effect Completion)) :
    (runAll value (d :: rest)).result σ =
        (runAll ((d.result σ).value <|> value) rest).result (d.after σ) ∧
      (runAll value (d :: rest)).after σ =
        (runAll ((d.result σ).value <|> value) rest).after (d.after σ) := by
  have run : runAll value (d :: rest) σ =
      runAll ((d.result σ).value <|> value) rest (d.after σ) := by
    rw [runAll]
    show (if (d.result σ).isAbrupt then _ else _ : Effect Completion) (d.after σ) = _
    rw [if_neg normal]
    show (if decide (σ.exits.length < (d.after σ).exits.length) then _ else _ : Effect Completion)
      (d.after σ) = _
    rw [if_neg (by simpa using certain)]
    rfl
  exact ⟨congrArg Prod.fst run, congrArg Prod.snd run⟩

end

theorem isNormal_ambiguously (d : Effect Completion) (σ : Store) :
    ((ambiguously d).result σ).isNormal = true := by
  show (Eval.possibly _).isNormal = true
  unfold Eval.possibly
  split <;> rfl

namespace Simulates

theorem of_normal {d e : Effect Completion} {R : Completion → Completion → Prop}
    (h : Relates R d e) (normal : ∀ c c', R c c' → c.isNormal = true ∧ c'.isNormal = true) :
    Simulates d e := by
  intro σ τ covers _
  obtain ⟨related, covers⟩ := h σ τ covers
  obtain ⟨left, right⟩ := normal _ _ related
  exact .of_isNormal covers left (.of_normal right)

theorem runAll {ds : List (Effect Completion)} (fading : ∀ d ∈ ds, Fading d)
    (h : ∀ d ∈ ds, Simulates d d) (value value' : Option Value) :
    Simulates (runAll value ds) (runAll value' ds) := by
  induction ds generalizing value value' with
  | nil => exact .of_normal (Relates.pure (R := fun c c' => c.isNormal = true ∧ c'.isNormal = true)
      ⟨rfl, rfl⟩) fun _ _ => id
  | cons d rest ih =>
    have fadingRest : ∀ d ∈ rest, Fading d := fun d hd => fading d (List.mem_cons_of_mem _ hd)
    have ih := ih fadingRest fun d hd => h d (List.mem_cons_of_mem _ hd)
    intro σ τ covers open'
    have le := (fading d List.mem_cons_self σ).exits.length_le
    by_cases abrupt : (d.result σ).isAbrupt = true
    · -- both runs end with the first statement
      obtain ⟨left, left'⟩ := runAll_of_isAbrupt abrupt value rest
      rw [left'] at open'
      have first := h d List.mem_cons_self σ τ covers open'
      have matched := first.abrupt abrupt
      obtain ⟨right, right'⟩ := runAll_of_isAbrupt (matched.isAbrupt ▸ abrupt) value' rest
      rw [left, left', right, right']
      refine .of_isAbrupt first.covers ?_ (matched.updateEmpty value value')
      rw [Completion.isAbrupt, Completion.isNormal, Completion.kind_updateEmpty]
      exact abrupt
    have normal := Completion.not_isAbrupt_iff.1 abrupt
    by_cases since : σ.exits.length < (d.after σ).exits.length
    · -- the others may or may not happen in one run, and the first statement decides in the other
      obtain ⟨left, left'⟩ := runAll_of_exits abrupt since value rest
      have faded := (Fading.runAll fadingRest none).ambiguously (d.after σ)
      rw [left'] at open'
      have first := h d List.mem_cons_self σ τ covers fun later => open' (faded.overtaken later)
      rw [left']
      by_cases abrupt' : (d.result τ).isAbrupt = true
      · obtain ⟨right, right'⟩ := runAll_of_isAbrupt abrupt' value' rest
        rw [right, right']
        refine .of_isNormal (covers_ambiguously (.runAll fadingRest none) first.covers) left ?_
        exact ((first.normal normal).updateEmpty abrupt' value').mono (Nat.le_refl _) faded.exits
      · obtain ⟨right, right'⟩ := runAll_of_certain abrupt' (by
          rw [first.covers.exits]
          exact Nat.zero_le _) value' rest
        obtain ⟨covers', accounts⟩ := (ih none ((d.result τ).value <|> value')).ambiguously
          (.runAll fadingRest none) first.covers open'
        rw [right, right']
        exact .of_isNormal covers' left (accounts.mono le (List.prefix_refl _))
    · -- nothing is left open, so that both runs go on
      have certain := Nat.le_of_not_lt since
      obtain ⟨left, left'⟩ := runAll_of_certain abrupt certain value rest
      have faded := Fading.runAll fadingRest ((d.result σ).value <|> value) (d.after σ)
      rw [left'] at open'
      have first := h d List.mem_cons_self σ τ covers fun later => open' (faded.overtaken later)
      have normal' := (first.normal normal).isNormal certain
      obtain ⟨right, right'⟩ := runAll_of_certain (Completion.not_isAbrupt_iff.2 normal') (by
        rw [first.covers.exits]
        exact Nat.zero_le _) value' rest
      rw [left, left', right, right', Nat.le_antisymm le certain]
      exact ih _ _ _ _ first.covers open'

/-- What comes after an expression ends alike if it does so for values that cover each other. -/
theorem bind {R : α → β → Prop} {d : Effect α} {e : Effect β} {f : α → Effect Completion}
    {g : β → Effect Completion} (h : Relates R d e) (hd : Fading d)
    (hf : ∀ a b, R a b → Simulates (f a) (g b)) : Simulates (d >>= f) (e >>= g) := by
  intro σ τ covers open'
  obtain ⟨related, covers⟩ := h σ τ covers
  have rest := hf _ _ related _ _ covers open'
  exact { rest with
    normal := fun normal => (rest.normal normal).mono (hd σ).exits.length_le (List.prefix_refl _) }

/-! ## Branches -/

/-- Both statements, as something that may or may not happen, simulate either of them. -/
theorem either {x y : Effect Completion} (hx : Simulates x x) (hy : Simulates y y)
    (fx : Fading x) (fy : Fading y) {z : Effect Completion} (hz : z = x ∨ z = y) :
    Simulates (Effect.ambiguously do
      note (← x)
      y) z := by
  have last (c : Completion) : Fading (do
      note c
      return Eval.possibly c) := .bind (.note c) fun _ => .pure _
  have caught : Catches (do
      let c ← x
      let _ ← note c
      let c ← y
      note c
      return Eval.possibly c) z := by
    rcases hz with rfl | rfl
    · exact hx.catches fx fun _ _ => .bind fy last
    · refine .bind_left fx fun c => .bind_left (.note c) fun _ => ?_
      exact hy.catches fy fun _ _ => .pure _
  intro σ τ covers open'
  obtain ⟨covers', accounts⟩ := caught.inBlock
    (.bind fx fun c => .bind (.note c) fun _ => .bind fy last) covers open'
  exact .of_isNormal covers' (isNormal_ambiguously _ σ) accounts

theorem branch {test : Effect Value} {x y : Effect Completion}
    (ht : Relates ValueCovers test test) (hx : Simulates x x) (hy : Simulates y y)
    (ft : Fading test) (fx : Fading x) (fy : Fading y) :
    Simulates (Effect.branch test x y) (Effect.branch test x y) := by
  refine .bind ht ft fun v w related => ?_
  obtain ⟨b, decided⟩ := related.known.toBool?
  rw [decided]
  rcases related.covers with rfl | rfl
  · cases b with
    | true => exact .either hx hy fx fy (.inl rfl)
    | false => exact .either hx hy fx fy (.inr rfl)
  · rw [decided]
    cases b with
    | true => exact hx
    | false => exact hy

end Simulates

/-! ## Labels and handlers -/

/-- A claim takes what is claimed and nothing else. -/
theorem accounts_claim {σ : Store} {mark : Nat} {c : Completion} {p : Completion → Bool}
    (h : σ.Accounts mark c) (le : mark ≤ σ.exits.length)
    (other : ∀ x : Completion, x.Covers c → p x = false) :
    ((claim mark p).after σ).Accounts mark c := by
  refine h.imp_right fun ⟨x, hx, covers⟩ => ⟨x, ?_, covers⟩
  show x ∈ (σ.exits.take mark ++ (σ.exits.drop mark).filter _).drop mark
  rw [List.drop_append_of_le_length (by rw [List.length_take]; omega)]
  exact List.mem_append_right _ (List.mem_filter.2 ⟨hx, by rw [other x covers]; rfl⟩)

theorem covers_claim {σ τ : Store} (h : σ.Covers τ) (mark : Nat) (p : Completion → Bool) :
    ((claim mark p).after σ).Covers τ := h.withExits _

/-- Without possible exits there is nothing to claim. -/
theorem claim_of_covers {σ τ : Store} (h : σ.Covers τ) (mark : Nat) (p : Completion → Bool) :
    claim mark p τ = ([], τ) := by
  cases τ with
  | mk globals scopes level exits overtaken =>
    obtain rfl : exits = [] := h.exits
    simp [claim]

theorem after_claim_of_covers {σ τ : Store} (h : σ.Covers τ) (mark : Nat) (p : Completion → Bool) :
    (claim mark p).after τ = τ := by
  rw [after, claim_of_covers h]

theorem result_claim_of_covers {σ τ : Store} (h : σ.Covers τ) (mark : Nat)
    (p : Completion → Bool) : (claim mark p).result τ = [] := by
  rw [result, claim_of_covers h]

/-- A label takes the completions that are aimed at it. -/
def labelEnd (label : String) (c : Completion) : Completion :=
  if c.leavesLabel label then .finished c.value else c

theorem isAbrupt_of_leavesLabel {label : String} {c : Completion} (h : c.leavesLabel label = true) :
    c.isAbrupt = true := by
  simp only [Completion.leavesLabel, Bool.and_eq_true, decide_eq_true_eq] at h
  simp [Completion.isAbrupt, Completion.isNormal, h.1]

namespace Simulates

theorem labeled {d : Effect Completion} (h : Simulates d d) (hd : Fading d) (label : String) :
    Simulates (Effect.labeled label d) (Effect.labeled label d) := by
  intro σ τ covers open'
  have outcome := h σ τ covers open'
  have right : (Effect.labeled label d).after τ = d.after τ :=
    after_claim_of_covers outcome.covers τ.exits.length (Completion.leavesLabel label)
  show Outcome _ (labelEnd label (d.result σ)) ((claim _ _).after (d.after σ))
    (labelEnd label (d.result τ)) _
  rw [right]
  have covers' := covers_claim outcome.covers σ.exits.length (Completion.leavesLabel label)
  by_cases abrupt : (d.result σ).isAbrupt = true
  · -- the label takes both completions or none
    have matched := outcome.abrupt abrupt
    rw [labelEnd, labelEnd, matched.leavesLabel]
    split
    · exact .of_isNormal covers' rfl (.of_normal rfl)
    · exact .of_isAbrupt covers' abrupt matched
  · have normal := Completion.not_isAbrupt_iff.1 abrupt
    have stays : labelEnd label (d.result σ) = d.result σ :=
      if_neg fun leaves => abrupt (isAbrupt_of_leavesLabel leaves)
    rw [stays]
    refine .of_isNormal covers' normal ?_
    unfold labelEnd
    split
    next => exact .of_normal rfl
    next other =>
      refine accounts_claim (outcome.normal normal) (hd σ).exits.length_le fun x hx => ?_
      rw [hx.leavesLabel]
      exact Bool.not_eq_true _ ▸ other

theorem withVariable {d : Effect Completion} (h : Simulates d d) {v w : Value}
    (related : ValueCovers v w) (name : String) :
    Simulates (Effect.withVariable name v d) (Effect.withVariable name w d) := by
  intro σ τ covers open'
  have outcome := h _ _ (covers.push related.covers related.known name) open'
  exact { outcome with covers := outcome.covers.pop }

end Simulates

section

variable (mark : Nat) {c : Completion} (h : Value → Effect Completion) (σ : Store)

/-- A handler runs with what was thrown for certain. -/
theorem handleThrows_of_isThrow (throws : c.isThrow = true) :
    (handleThrows mark c h).result σ =
        (h c.getValue).result ((claim mark Completion.isThrow).after σ) ∧
      (handleThrows mark c h).after σ =
        (h c.getValue).after ((claim mark Completion.isThrow).after σ) := by
  have run : handleThrows mark c h σ = h c.getValue ((claim mark Completion.isThrow).after σ) := by
    show (if c.isThrow then _ else _ : Effect Completion) _ = _
    rw [if_pos throws]
    rfl
  exact ⟨by rw [result, run]; rfl, by rw [after, run]; rfl⟩

/-- Without a throw there is nothing to handle. -/
theorem handleThrows_of_isEmpty (throws : ¬ c.isThrow = true)
    (none : ((claim mark Completion.isThrow).result σ).isEmpty = true) :
    (handleThrows mark c h).result σ = c ∧
      (handleThrows mark c h).after σ = (claim mark Completion.isThrow).after σ := by
  have run : handleThrows mark c h σ = (c, (claim mark Completion.isThrow).after σ) := by
    show (if c.isThrow then _ else _ : Effect Completion) _ = _
    rw [if_neg throws]
    show (if ((claim mark Completion.isThrow).result σ).isEmpty then _ else _ : Effect Completion)
      _ = _
    rw [if_pos none]
    rfl
  exact ⟨by rw [result, run], by rw [after, run]⟩

/-- A handler may or may not run if there may have been a throw. -/
theorem handleThrows_of_possible (throws : ¬ c.isThrow = true)
    (some : ¬ ((claim mark Completion.isThrow).result σ).isEmpty = true) :
    (handleThrows mark c h).result σ = c ∧ (handleThrows mark c h).after σ =
      (ambiguously (h .unknown)).after ((claim mark Completion.isThrow).after σ) := by
  have run : handleThrows mark c h σ =
      (c, (ambiguously (h .unknown)).after ((claim mark Completion.isThrow).after σ)) := by
    show (if c.isThrow then _ else _ : Effect Completion) _ = _
    rw [if_neg throws]
    show (if ((claim mark Completion.isThrow).result σ).isEmpty then _ else _ : Effect Completion)
      _ = _
    rw [if_neg some]
    rfl
  exact ⟨by rw [result, run], by rw [after, run]⟩

end

/-- What a handler does with the one store when nothing was thrown for certain: it covers the store
of a run in which there was nothing to handle. -/
structure MayHandle (mark : Nat) (c : Completion) (h : Value → Effect Completion) (σ τ : Store) :
    Prop where
  result : (handleThrows mark c h).result σ = c
  covers : ((handleThrows mark c h).after σ).Covers τ
  faded : ((claim mark Completion.isThrow).after σ).Fades ((handleThrows mark c h).after σ)
  possible : ¬ ((claim mark Completion.isThrow).result σ).isEmpty = true →
    (handleThrows mark c h).after σ =
      (ambiguously (h .unknown)).after ((claim mark Completion.isThrow).after σ)

theorem mayHandle {h : Value → Effect Completion} (fading : Fading (h .unknown)) {mark : Nat}
    {c : Completion} {σ τ : Store} (covers : σ.Covers τ) (throws : ¬ c.isThrow = true) :
    MayHandle mark c h σ τ := by
  have claimed := covers_claim covers mark Completion.isThrow
  by_cases none : ((claim mark Completion.isThrow).result σ).isEmpty = true
  · obtain ⟨left, left'⟩ := handleThrows_of_isEmpty mark h σ throws none
    exact ⟨left, left' ▸ claimed, left' ▸ .refl _, fun some => absurd none some⟩
  · obtain ⟨left, left'⟩ := handleThrows_of_possible mark h σ throws none
    exact ⟨left, left' ▸ covers_ambiguously fading claimed, left' ▸ fading.ambiguously _,
      fun _ => left'⟩

/-- A claim leaves what came before its mark. -/
theorem le_length_after_claim {mark : Nat} {σ : Store} (le : mark ≤ σ.exits.length)
    (p : Completion → Bool) : mark ≤ ((claim mark p).after σ).exits.length := by
  show mark ≤ (σ.exits.take mark ++ _).length
  rw [List.length_append, List.length_take]
  omega

namespace Simulates

variable {h : Value → Effect Completion} {mark mark' : Nat} {c c' : Completion} {σ τ : Store}

/-- Both runs handle what was thrown for certain. -/
theorem handleThrows_certain (simulates : ∀ v w, ValueCovers v w → Simulates (h v) (h w))
    (outcome : Outcome mark c σ c' τ) (le : mark ≤ σ.exits.length) (throws : c.isThrow = true)
    (open' : ¬ ((Effect.handleThrows mark c h).after σ).overtaken) :
    Outcome mark ((Effect.handleThrows mark c h).result σ) ((Effect.handleThrows mark c h).after σ)
      ((Effect.handleThrows mark' c' h).result τ) ((Effect.handleThrows mark' c' h).after τ) := by
  have abrupt : c.isAbrupt = true := by
    simp only [Completion.isThrow, decide_eq_true_eq] at throws
    simp [Completion.isAbrupt, Completion.isNormal, throws]
  have matched := outcome.abrupt abrupt
  have throws' : c'.isThrow = true := matched.isThrow ▸ throws
  obtain ⟨v, w, hv, hw, covers⟩ := matched.thrown (of_decide_eq_true throws')
  have thrown : ValueCovers c.getValue c'.getValue :=
    ⟨by simpa [Completion.getValue, hv, hw] using covers.1,
      by simpa [Completion.getValue, hw] using covers.2⟩
  obtain ⟨left, left'⟩ := handleThrows_of_isThrow mark h σ throws
  obtain ⟨right, right'⟩ := handleThrows_of_isThrow mark' h τ throws'
  rw [left'] at open'
  rw [left, left', right, right', after_claim_of_covers outcome.covers]
  have handled := simulates _ _ thrown _ _ (covers_claim outcome.covers mark _) open'
  exact { handled with
    normal := fun normal =>
      (handled.normal normal).mono (le_length_after_claim le _) (List.prefix_refl _) }

/-- The other run handles what it has thrown: the exit that accounts for it lets the handler run. -/
theorem handleThrows_possible (fading : ∀ v, Fading (h v))
    (simulates : ∀ v w, ValueCovers v w → Simulates (h v) (h w)) (outcome : Outcome mark c σ c' τ)
    (le : mark ≤ σ.exits.length) (throws : ¬ c.isThrow = true) (throws' : c'.isThrow = true)
    (open' : ¬ ((Effect.handleThrows mark c h).after σ).overtaken) :
    Outcome mark ((Effect.handleThrows mark c h).result σ) ((Effect.handleThrows mark c h).after σ)
      ((Effect.handleThrows mark' c' h).result τ) ((Effect.handleThrows mark' c' h).after τ) := by
  obtain ⟨left, -, -, possible⟩ := mayHandle (fading .unknown) outcome.covers throws
  obtain ⟨right, right'⟩ := handleThrows_of_isThrow mark' h τ throws'
  -- a normal completion on the left means that the throw on the right is one of the noted exits
  have normal : c.isNormal = true := by
    by_contra abrupt
    have matched := outcome.abrupt (by simpa [Completion.isAbrupt] using abrupt)
    exact throws (matched.isThrow ▸ throws')
  have abrupt' : ¬ c'.isNormal = true := by
    simp only [Completion.isThrow, decide_eq_true_eq] at throws'
    simp [Completion.isNormal, throws']
  obtain ⟨x, hx, matched⟩ := (outcome.normal normal).resolve_left abrupt'
  obtain ⟨v, w, -, hw, covers⟩ := matched.thrown (of_decide_eq_true throws')
  have some : ¬ ((claim mark Completion.isThrow).result σ).isEmpty = true := by
    intro none
    have listed : x ∈ (claim mark Completion.isThrow).result σ :=
      List.mem_filter.2 ⟨hx, matched.isThrow ▸ throws'⟩
    rw [List.isEmpty_iff.1 none] at listed
    cases listed
  have thrown : ValueCovers .unknown c'.getValue :=
    ⟨.unknown _, by simpa [Completion.getValue, hw] using covers.2⟩
  rw [possible some] at open'
  obtain ⟨covers', accounts⟩ := (simulates _ _ thrown).ambiguously (fading .unknown)
    (covers_claim outcome.covers mark _) open'
  rw [left, possible some, right, right', after_claim_of_covers outcome.covers]
  exact .of_isNormal covers' normal
    (accounts.mono (le_length_after_claim le _) (List.prefix_refl _))

/-- A handler catches what the other run has thrown. -/
theorem handleThrows (fading : ∀ v, Fading (h v))
    (simulates : ∀ v w, ValueCovers v w → Simulates (h v) (h w)) (outcome : Outcome mark c σ c' τ)
    (le : mark ≤ σ.exits.length)
    (open' : ¬ ((Effect.handleThrows mark c h).after σ).overtaken) :
    Outcome mark ((Effect.handleThrows mark c h).result σ) ((Effect.handleThrows mark c h).after σ)
      ((Effect.handleThrows mark' c' h).result τ) ((Effect.handleThrows mark' c' h).after τ) := by
  by_cases throws : c.isThrow = true
  · exact handleThrows_certain simulates outcome le throws open'
  by_cases throws' : c'.isThrow = true
  · exact handleThrows_possible fading simulates outcome le throws throws' open'
  -- the other run has nothing to handle
  have nothing : ((claim mark' Completion.isThrow).result τ).isEmpty = true := by
    rw [result_claim_of_covers outcome.covers]
    rfl
  obtain ⟨left, covers, faded, -⟩ := mayHandle (fading .unknown) outcome.covers throws
  obtain ⟨right, right'⟩ := handleThrows_of_isEmpty mark' h τ throws' nothing
  rw [left, right, right', after_claim_of_covers outcome.covers]
  by_cases abrupt : c.isAbrupt = true
  · exact .of_isAbrupt covers abrupt (outcome.abrupt abrupt)
  · have normal := Completion.not_isAbrupt_iff.1 abrupt
    refine .of_isNormal covers normal ?_
    have accounts := accounts_claim (p := Completion.isThrow) (outcome.normal normal) le
      fun x hx => by simpa [hx.isThrow] using throws'
    exact accounts.mono (Nat.le_refl _) faded.exits

theorem finish {f : Effect Completion} (hf : Simulates f f) (fading : Fading f)
    (outcome : Outcome mark c σ c' τ) (le : mark ≤ σ.exits.length)
    (open' : ¬ ((Effect.finish c f).after σ).overtaken) :
    Outcome mark ((Effect.finish c f).result σ) ((Effect.finish c f).after σ)
      ((Effect.finish c' f).result τ) ((Effect.finish c' f).after τ) := by
  have kept : ¬ (c.isAbrupt = true ∧ (f.result σ).isNormal = true ∧
      σ.exits.length < (f.after σ).exits.length) := fun later => open' (.inr later)
  have last := hf σ τ outcome.covers fun later => open' (.inl later)
  have grown := (fading σ).exits
  show Outcome mark (if (f.result σ).isAbrupt then f.result σ else c) _
    (if (f.result τ).isAbrupt then f.result τ else c') _
  have covers' : ((Effect.finish c f).after σ).Covers ((Effect.finish c' f).after τ) :=
    { last.covers with }
  by_cases abrupt : (f.result σ).isAbrupt = true
  · -- both runs end with the last block
    have matched := last.abrupt abrupt
    rw [if_pos abrupt, if_pos (matched.isAbrupt ▸ abrupt)]
    exact .of_isAbrupt covers' abrupt matched
  · have normal := Completion.not_isAbrupt_iff.1 abrupt
    rw [if_neg abrupt]
    by_cases before : c.isAbrupt = true
    · -- nothing has overtaken the completion, so that the last block ends normally in both runs
      have certain : (f.after σ).exits.length ≤ σ.exits.length :=
        Nat.le_of_not_lt fun since => kept ⟨before, normal, since⟩
      rw [if_neg (Completion.not_isAbrupt_iff.2 ((last.normal normal).isNormal certain))]
      exact .of_isAbrupt covers' before (outcome.abrupt before)
    · have before := Completion.not_isAbrupt_iff.1 before
      refine .of_isNormal covers' before ?_
      split
      · exact (last.normal normal).mono le (List.prefix_refl _)
      · exact (outcome.normal before).mono (Nat.le_refl _) grown

/-- A `try` claims what its handler catches, and lets the rest through its last block. -/
theorem tryBlock {block : Effect Completion} {handler : Option (Value → Effect Completion)}
    {finalizer : Option (Effect Completion)} (fb : Fading block) (hb : Simulates block block)
    (fh : ∀ h ∈ handler, ∀ v, Fading (h v))
    (hh : ∀ h ∈ handler, ∀ v w, ValueCovers v w → Simulates (h v) (h w))
    (ff : ∀ f ∈ finalizer, Fading f) (hf : ∀ f ∈ finalizer, Simulates f f) :
    Simulates (Effect.tryBlock block handler finalizer)
      (Effect.tryBlock block handler finalizer) := by
  intro σ τ covers open'
  -- a completion overtaken in one part would still be so at the end
  have openLast : ¬ ((handled handler σ.exits.length (block.result σ)).after
      (block.after σ)).overtaken := fun later => open' ((Fading.finished ff _ _).overtaken later)
  have first := hb σ τ covers fun later => openLast (Fading.overtaken_handled fh _ _ later)
  have le := (fb σ).exits.length_le
  have le' := (Fading.handled (fb σ) fh (block.result σ)).exits.length_le
  have second : Outcome σ.exits.length
      ((handled handler σ.exits.length (block.result σ)).result (block.after σ))
      ((handled handler σ.exits.length (block.result σ)).after (block.after σ))
      ((handled handler τ.exits.length (block.result τ)).result (block.after τ))
      ((handled handler τ.exits.length (block.result τ)).after (block.after τ)) := by
    cases handler with
    | none => exact first
    | some h => exact handleThrows (fh h rfl) (hh h rfl) first le openLast
  cases finalizer with
  | none => exact second
  | some f => exact finish (hf f rfl) (ff f rfl) second le' open'

end Simulates

end Effect

end AbstractScript
