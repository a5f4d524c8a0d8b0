import AbstractScript.Proofs.Depth

/-!
# Plans

A *plan* is what a rule does with its parts, whatever these are: it says when a part is evaluated,
what may or may not happen, and how the rule goes on from the completion of a part. A plan with
computations for its parts is a computation (`Plan.run`), and its *visits* are the evaluations of
parts in it, in order (`Plan.visits`).
-/
namespace AbstractScript

open Eval

/-- A computation that evaluates parts of type `P`. -/
inductive Plan (P : Type) : Type → Type 1 where
  | pure {α : Type} (a : α) : Plan P α
  /-- A computation that evaluates no part and stays in place. -/
  | act {α : Type} (x : Run α) (h : Keeps Machine.InPlace x) : Plan P α
  | part (p : P) : Plan P Completion
  | bind {α β : Type} (x : Plan P α) (f : α → Plan P β) : Plan P β
  /-- Something that may or may not happen. -/
  | ambiguously (span : Span) (x : Plan P Completion) : Plan P Completion

/-- The evaluation of a part, from a machine on. -/
structure Visit (P : Type) where
  part : P
  before : Machine
  result : EStateM.Result FatalError Machine Completion

namespace Visit

variable {P : Type}

/-- The machine that the part leaves. -/
def after (v : Visit P) : Machine :=
  match v.result with
  | .ok _ m => m
  | .error _ m => m

theorem after_of_ok {v : Visit P} {c : Completion} {m : Machine} (h : v.result = .ok c m) :
    v.after = m := by
  rw [after, h]

/-- What is left by a visit is what its part leaves. -/
theorem after_of_result {v : Visit P} {x : Run Completion} {s : Setup}
    (h : v.result = x s v.before) : v.after = x.after s v.before := by
  rw [after, h, Eval.after]
  cases x s v.before <;> rfl

/-- The completion of the part, unless it failed. -/
def completion? (v : Visit P) : Option Completion :=
  match v.result with
  | .ok c _ => some c
  | .error _ _ => none

/-- The part has recorded a possible exit that is not accounted for in it. -/
def Records (v : Visit P) : Prop := v.before.exits.size < v.after.exits.size

instance (v : Visit P) : Decidable v.Records := Nat.decLt ..

/-- The part has ended with a throw. -/
def Throws (v : Visit P) : Prop := ∃ c, v.completion? = some c ∧ c.isThrow = true

instance (v : Visit P) : Decidable v.Throws :=
  decidable_of_iff ((v.completion?.map Completion.isThrow).getD false = true) <| by
    rw [Throws]
    cases v.completion? <;> simp

/-- What a visit comes to: its part, whether it has recorded a possible exit, and the ambiguous depth
that it begins at. -/
def outline (v : Visit P) : P × Bool × Nat := (v.part, v.Records, v.before.contexts.depth)

/-- Visits are found by their outlines. -/
theorem exists_of_outlines {vs : List (Visit P)} {os os' : List (P × Bool × Nat)}
    {o : P × Bool × Nat} (h : vs.map outline = os ++ o :: os') :
    ∃ before v later, vs = before ++ v :: later ∧ v.outline = o ∧ later.map outline = os' := by
  obtain ⟨before, rest, rfl, -, ends⟩ := List.map_eq_append_iff.1 h
  obtain ⟨v, later, rfl, first, last⟩ := List.map_eq_cons_iff.1 ends
  exact ⟨before, v, later, rfl, first, last⟩

end Visit

namespace Plan

variable {P α β : Type}

instance : Monad (Plan P) where
  pure := .pure
  bind := .bind

/-- What a plan does with its parts. -/
def run (parts : P → Run Completion) {α : Type} : Plan P α → Run α
  | .pure a => Pure.pure a
  | .act x _ => x
  | .part p => parts p
  | .bind x f => x.run parts >>= fun a => (f a).run parts
  | .ambiguously span x => Eval.ambiguously span (x.run parts)

/-- The evaluations of parts in a run of a plan, in order. -/
def visits (parts : P → Run Completion) (s : Setup) {α : Type} : Plan P α → Machine → List (Visit P)
  | .pure _, _ => []
  | .act _ _, _ => []
  | .part p, m => [⟨p, m, parts p s m⟩]
  | .bind x f, m => x.visits parts s m ++
      match x.run parts s m with
      | .ok a n => (f a).visits parts s n
      | .error _ _ => []
  | .ambiguously span x, m => x.visits parts s (m.markBlock (span.location s.file)).enterBlock

/-! ## Acts -/

/-- The number of possible exits. -/
def mark : Plan P Nat := .act Eval.mark (.bind .get fun _ => .pure _)

/-- True if there are possible exits since a mark. -/
def hasExitsSince (mark : Nat) : Plan P Bool :=
  .act (Eval.hasExitsSince mark) (.bind .get fun _ => .pure _)

/-- Takes the possible exits since a mark whose completions are claimed. -/
def claim (mark : Nat) (p : Completion → Bool) : Plan P (List PossibleExit) :=
  .act (Eval.claim mark p) (.modifyGet fun m => .inl (m.dropClaimed_unchanged mark p).1)

/-- Marks an unknown condition. -/
def markUnknown (span : Span) : Plan P Unit :=
  .act (Eval.markUnknown span) ((markUnknown_keeps span).mono fun _ _ h => h.steady.inPlace)

/-- The options of the run. -/
def options : Plan P Options := .act (setup Setup.options) (.setup _)

/-- Adds to the history that an abrupt completion stayed, if it did so under a condition. -/
def recordOvertaken (p : Machine → Bool) : Plan P Unit :=
  .act (modify fun m => m.recordOvertaken (p m)) (.modify fun m => refl (r := Machine.InPlace) m)

/-- The number of entries in the ledger. -/
def ledgerSize : Plan P Nat := .act Eval.ledgerSize (.bind .get fun _ => .pure _)

/-- Enters in the ledger that a block ends which began when the ledger had a size. -/
def markHandled (handled : Bool) (since : Nat) : Plan P Unit :=
  .act (Eval.markHandled handled since) (.modify fun m => (Machine.Steady.enterLedger m ..).inPlace)

/-- Reports that a loop was abandoned. -/
def reportMaxIterations : Plan P Unit :=
  .act Eval.reportMaxIterations (reportMaxIterations_keeps.mono fun _ _ h => h.steady.inPlace)

/-! ## Where parts are visited -/

section

variable {parts : P → Run Completion} {s : Setup} {m n : Machine}

theorem visits_bind (x : Plan P α) (f : α → Plan P β) :
    (x >>= f).visits parts s m = x.visits parts s m ++
      match x.run parts s m with
      | .ok a n => (f a).visits parts s n
      | .error _ _ => [] := by
  show visits parts s (.bind x f) m = _
  rw [visits]

theorem visits_bind_ok {x : Plan P α} {f : α → Plan P β} {a : α}
    (h : x.run parts s m = .ok a n) :
    (x >>= f).visits parts s m = x.visits parts s m ++ (f a).visits parts s n := by
  rw [visits_bind, h]

/-- A visit to what follows comes after all visits to what comes first. -/
theorem mem_visits_bind {x : Plan P α} {f : α → Plan P β} {v : Visit P} :
    v ∈ (x >>= f).visits parts s m ↔
      v ∈ x.visits parts s m ∨
        ∃ a n, x.run parts s m = .ok a n ∧ v ∈ (f a).visits parts s n := by
  rw [visits_bind, List.mem_append]
  cases x.run parts s m with
  | ok a n =>
    refine or_congr_right ⟨fun later => ⟨a, n, rfl, later⟩, ?_⟩
    rintro ⟨_, _, ⟨⟩, later⟩
    exact later
  | error e n =>
    refine or_congr_right ⟨fun none => absurd none List.not_mem_nil, ?_⟩
    rintro ⟨_, _, ⟨⟩, -⟩

theorem visits_pure_bind (a : α) (f : α → Plan P β) :
    (Pure.pure a >>= f : Plan P β).visits parts s m = (f a).visits parts s m :=
  visits_bind ..

theorem visits_bind_pure (x : Plan P α) (f : α → β) :
    (x >>= fun a => Pure.pure (f a) : Plan P β).visits parts s m = x.visits parts s m := by
  rw [visits_bind]
  cases x.run parts s m <;> exact List.append_nil _

theorem visits_part_bind (p : P) (f : Completion → Plan P β) :
    (part p >>= f).visits parts s m = ⟨p, m, parts p s m⟩ ::
      match parts p s m with
      | .ok c n => (f c).visits parts s n
      | .error _ _ => [] := by
  rw [visits_bind, visits, run]
  cases parts p s m <;> rfl

theorem visits_assoc {γ : Type} (x : Plan P α) (f : α → Plan P β) (g : β → Plan P γ) :
    ((x >>= f) >>= g).visits parts s m = (x >>= fun a => f a >>= g).visits parts s m := by
  have steps : (x >>= f).run parts s m = (x.run parts >>= fun a => (f a).run parts) s m := rfl
  rw [visits_bind, visits_bind, visits_bind, steps, bind_apply]
  cases x.run parts s m with
  | ok a n => rw [List.append_assoc, ← visits_bind]
  | error e n => rw [List.append_nil]

theorem run_bind_apply (x : Plan P α) (f : α → Plan P β) :
    (x >>= f).run parts s m = match x.run parts s m with
      | .ok a n => (f a).run parts s n
      | .error e n => .error e n := by
  show (x.run parts >>= fun a => (f a).run parts) s m = _
  rw [bind_apply]
  cases x.run parts s m <;> rfl

/-- A plan succeeds if its steps do, one after the other. -/
theorem run_bind_eq_ok_iff {x : Plan P α} {f : α → Plan P β} {b : β} :
    (x >>= f).run parts s m = .ok b n ↔
      ∃ a k, x.run parts s m = .ok a k ∧ (f a).run parts s k = .ok b n :=
  bind_eq_ok_iff

/-- A plan does step by step what another computation does. -/
theorem run_bind {x : Plan P α} {f : α → Plan P β} {y : Run α} {g : α → Run β}
    (hx : x.run parts = y) (hf : ∀ a, (f a).run parts = g a) : (x >>= f).run parts = y >>= g := by
  show (x.run parts >>= fun a => (f a).run parts) = _
  rw [hx]
  exact bind_congr hf

/-- A visit is an evaluation of its part. -/
theorem result_of_mem_visits {x : Plan P α} {v : Visit P} (visited : v ∈ x.visits parts s m) :
    v.result = parts v.part s v.before := by
  induction x generalizing m with
  | pure a => cases visited
  | act x kept => cases visited
  | part p =>
    obtain rfl := List.mem_singleton.1 visited
    rfl
  | bind x f ihx ihf =>
    rcases mem_visits_bind.1 visited with first | ⟨a, k, -, later⟩
    · exact ihx first
    · exact ihf a later
  | ambiguously span x ih => exact ih visited

theorem inPlace_of_steady (steady : ∀ p, Keeps Machine.Steady (parts p)) (p : P) :
    Keeps Machine.InPlace (parts p) :=
  (steady p).mono fun _ _ h => h.inPlace

/-- What may or may not happen is in place afterwards. -/
theorem inPlace_ambiguously (span : Span) {x : Run Completion} (h : Keeps Machine.InPlace x) :
    Keeps Machine.InPlace (Eval.ambiguously span x) where
  after s m := by
    rw [Eval.ambiguously, after_recorded]
    unfold inBlock
    rw [after_bind_ok (setup_apply ..), after_bind_ok (modify_apply ..),
      after_bind_ok (get_apply ..), after_bind_ok (modify_apply ..), after_ensuring]
    have noted : Keeps Machine.InPlace (do
        let c ← x
        note c
        return possibly c) :=
      .bind h fun c => .bind (.modify fun m => (Machine.Steady.noteExit m c).inPlace) fun _ =>
        .pure _
    exact Machine.InPlace.exitBlock (noted.after s _)

/-- A plan is in place afterwards if its parts are. -/
theorem inPlace_run (h : ∀ p, Keeps Machine.InPlace (parts p)) (x : Plan P α) :
    Keeps Machine.InPlace (x.run parts) := by
  induction x with
  | pure a => exact .pure a
  | act x kept => exact kept
  | part p => exact h p
  | bind x f ihx ihf => exact .bind ihx ihf
  | ambiguously span x ih => exact inPlace_ambiguously span ih

/-- All parts of a plan are visited deeper than a machine if the plan is run there. -/
theorem deeper_of_mem_visits (h : ∀ p, Keeps Machine.InPlace (parts p)) (x : Plan P α)
    (deeper : m.Deeper n) {v : Visit P} (visited : v ∈ x.visits parts s n) : m.Deeper v.before := by
  induction x generalizing n with
  | pure a => cases visited
  | act x kept => cases visited
  | part p =>
    obtain rfl := List.mem_singleton.1 visited
    exact deeper
  | bind x f ihx ihf =>
    rcases mem_visits_bind.1 visited with first | ⟨a, k, run, later⟩
    · exact ihx deeper first
    · exact ihf a (deeper.inPlace ((inPlace_run h x).of_ok run)) later
  | ambiguously span x ih =>
    have marked : m.Deeper (n.markBlock (span.location s.file)) := deeper.inPlace (.refl _)
    exact ih marked.enterBlock visited

/-- What may or may not happen visits parts deeper than all machines before it in the same
contexts. -/
theorem deeper_ambiguously (h : ∀ p, Keeps Machine.InPlace (parts p)) {span : Span}
    {x : Plan P Completion} (since : m.InPlace n) (running : m.contexts.isEmpty = false)
    {v : Visit P} (visited : v ∈ (ambiguously span x).visits parts s n) : m.Deeper v.before := by
  have marked : m.InPlace (n.markBlock (span.location s.file)) := since
  exact deeper_of_mem_visits h x (marked.deeper running) visited

/-- All parts of a plan are visited deeper than a machine if the plan is run in place of it. -/
def Below (parts : P → Run Completion) (m : Machine) (x : Plan P α) : Prop :=
  ∀ s n, m.InPlace n → ∀ v ∈ x.visits parts s n, m.Deeper v.before

namespace Below

theorem pure (a : α) : Below parts m (Pure.pure a) := fun _ _ _ _ visited => nomatch visited

theorem act {x : Run α} (kept : Keeps Machine.InPlace x) : Below parts m (.act x kept) :=
  fun _ _ _ _ visited => nomatch visited

theorem bind (h : ∀ p, Keeps Machine.InPlace (parts p)) {x : Plan P α} {f : α → Plan P β}
    (hx : Below parts m x) (hf : ∀ a, Below parts m (f a)) : Below parts m (x >>= f) := by
  intro s n since v visited
  rcases mem_visits_bind.1 visited with first | ⟨a, k, run, later⟩
  · exact hx s n since v first
  · exact hf a s k (IsTrans.trans _ _ _ since ((inPlace_run h x).of_ok run)) v later

theorem pure_bind {a : α} {f : α → Plan P β} (h : Below parts m (f a)) :
    Below parts m (Pure.pure a >>= f) := fun s n since v visited =>
  h s n since v (visits_pure_bind a f ▸ visited)

theorem ambiguously (h : ∀ p, Keeps Machine.InPlace (parts p))
    (running : m.contexts.isEmpty = false) (span : Span) (x : Plan P Completion) :
    Below parts m (.ambiguously span x) :=
  fun _ _ since _ visited => deeper_ambiguously h since running visited

end Below

end

/-! ## Passes of a loop -/

/-- Forgets the possible exits since a mark that leave or continue a loop. -/
def claimPasses (labels : List String) (mark : Nat) : Plan P Unit := do
  let _ ← claim mark (Completion.endsPass labels)

/-- What follows a pass whose body ended with a completion. -/
def afterBody (labels : List String) (mark : Nat) (value : Option Value) (c : Completion)
    (rest : Plan P Unit) : Plan P Pass := do
  let value := c.value <|> value
  if c.isNormal || (c.kind = .continues && c.targets labels) then
    if ← hasExitsSince mark then
      claimPasses labels mark
      rest
      return .ended (.finished value)
    else return .next value
  else if c.kind = .breaks && c.targets labels then
    claimPasses labels mark
    return .ended (.finished value)
  else return .ended (c.updateEmpty value)

/-- What follows a pass is what follows it in the loop, if the remainder is that of the loop. -/
theorem run_afterBody (parts : P → Run Completion) (labels : List String) (mark : Nat)
    (value : Option Value) (c : Completion) (rest : Plan P Unit) :
    (afterBody labels mark value c rest).run parts =
      Eval.afterBody labels mark value c (rest.run parts) := by
  unfold afterBody Eval.afterBody
  split
  · refine run_bind rfl fun exits => ?_
    cases exits <;> rfl
  · split <;> rfl

namespace Below

variable {parts : P → Run Completion} {m : Machine} (place : ∀ p, Keeps Machine.InPlace (parts p))

include place

theorem claimPasses (labels : List String) (mark : Nat) :
    Below parts m (Plan.claimPasses labels mark : Plan P Unit) :=
  .bind place (.act _) fun _ => .pure _

/-- What follows a pass visits parts deeper than a machine if the remainder of the loop does. -/
theorem afterBody (labels : List String) (mark : Nat) (value : Option Value) (c : Completion)
    {rest : Plan P Unit} (deeper : Below parts m rest) :
    Below parts m (Plan.afterBody labels mark value c rest) := by
  have claims : Below parts m (Plan.claimPasses labels mark : Plan P Unit) :=
    claimPasses place labels mark
  unfold Plan.afterBody
  split
  · refine .bind place (.act _) fun exits => ?_
    split
    · exact .bind place claims fun _ => .bind place deeper fun _ => .pure _
    · exact .pure _
  · split
    · exact .bind place claims fun _ => .pure _
    · exact .pure _

end Below

/-- A loop only goes on after a body if no possible exit has been recorded since a mark. -/
theorem next_afterBody {parts : P → Run Completion} {s : Setup} {n j : Machine}
    {labels : List String} {mark : Nat} {value value' : Option Value} {c : Completion}
    {rest : Plan P Unit}
    (goesOn : (afterBody labels mark value c rest).run parts s n = .ok (.next value') j) :
    (afterBody labels mark value c rest).visits parts s n = [] ∧ j = n ∧ n.exits.size ≤ mark := by
  unfold afterBody at goesOn ⊢
  dsimp only at goesOn ⊢
  split at goesOn
  next passes =>
    rw [if_pos passes]
    obtain ⟨exits, i, counted, rest⟩ := run_bind_eq_ok_iff.1 goesOn
    cases counted
    split at rest
    -- after a possible exit the loop does not go on
    · obtain ⟨_, _, -, rest⟩ := run_bind_eq_ok_iff.1 rest
      obtain ⟨_, _, -, last⟩ := run_bind_eq_ok_iff.1 rest
      cases last
    next none =>
      cases rest
      rw [visits_bind_ok (x := hasExitsSince mark) rfl, if_neg none]
      exact ⟨rfl, rfl, by simpa using none⟩
  · split at goesOn
    · obtain ⟨_, _, -, last⟩ := run_bind_eq_ok_iff.1 goesOn
      cases last
    · cases goesOn

/-! ## Other parts -/

variable {Q : Type}

/-- The plan with other parts in place of its own. -/
def map (f : P → Q) {α : Type} : Plan P α → Plan Q α
  | .pure a => .pure a
  | .act x h => .act x h
  | .part p => .part (f p)
  | .bind x g => .bind (x.map f) fun a => (g a).map f
  | .ambiguously span x => .ambiguously span (x.map f)

/-- All parts of a plan have a property. -/
def Only (p : P → Prop) {α : Type} : Plan P α → Prop
  | .pure _ => True
  | .act _ _ => True
  | .part q => p q
  | .bind x f => x.Only p ∧ ∀ a, (f a).Only p
  | .ambiguously _ x => x.Only p

section

variable {p : P → Prop} {parts : P → Run Completion} {parts' : Q → Run Completion} {f : P → Q}

/-- Parts that do the same may replace those of a plan. -/
theorem run_map {x : Plan P α} (same : x.Only fun p => parts' (f p) = parts p) :
    (x.map f).run parts' = x.run parts := by
  induction x with
  | pure a => rfl
  | act x h => rfl
  | part p => exact same
  | bind x g ihx ihg => exact run_bind (ihx same.1) fun a => ihg a (same.2 a)
  | ambiguously span x ih => exact congrArg (Eval.ambiguously span) (ih same)

theorem Only.of_forall (h : ∀ q, p q) (x : Plan P α) : x.Only p := by
  induction x with
  | pure a => trivial
  | act x h => trivial
  | part q => exact h q
  | bind x f ihx ihf => exact ⟨ihx, ihf⟩
  | ambiguously span x ih => exact ih

/-- A plan with other parts does with what these do what the plan does. -/
theorem run_map_comp (f : P → Q) (x : Plan P α) :
    (x.map f).run parts' = x.run fun p => parts' (f p) :=
  run_map (.of_forall (fun _ => rfl) x)

theorem Only.mono {p' : P → Prop} (h : ∀ q, p q → p' q) {x : Plan P α} (only : x.Only p) :
    x.Only p' := by
  induction x with
  | pure a => trivial
  | act x h => trivial
  | part q => exact h q only
  | bind x f ihx ihf => exact ⟨ihx only.1, fun a => ihf a (only.2 a)⟩
  | ambiguously span x ih => exact ih only

end

end Plan

end AbstractScript
