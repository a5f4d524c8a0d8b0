import AbstractScript.Proofs.Plan

/-!
# Statement lists as plans

A list of statements is evaluated by a plan whose parts are the statements (`Step.run_plan`). Once a
statement has recorded a possible exit, all statements after it are visited deeper than the list
(`Step.pairwise_visits`). A list only ends with a throw if a statement of it does so at the depth of
the list (`Step.exists_of_isThrow`); every other throw of a statement is recorded as a possible exit
(`Step.recorded_or_ended`).
-/
namespace AbstractScript

open Eval

namespace Step

variable {P : Type}

/-- Evaluates parts in order, up to one that does not complete normally. -/
def plan (value : Option Value) : List (Span × P) → Plan P Completion
  | [] => return .finished value
  | (_, p) :: rest => do
    let mark ← Plan.mark
    let c ← .part p
    if c.isAbrupt then return c.updateEmpty value
    let value := c.value <|> value
    if ← Plan.hasExitsSince mark then
      match rest with
      | [] => return .finished value
      | next :: _ =>
        let _ ← .ambiguously next.1 (plan none rest)
        return .finished value
    else plan value rest

/-- With computations for its parts, the plan of a list is the evaluation of its steps. -/
theorem run_plan (parts : P → Run Completion) (value : Option Value) (ps : List (Span × P)) :
    (plan value ps).run parts = runAll value (ps.map fun p => ⟨p.1, parts p.2⟩) := by
  induction ps generalizing value with
  | nil => rfl
  | cons p rest ih =>
    unfold plan runAll
    refine Plan.run_bind rfl fun mark => Plan.run_bind rfl fun c => ?_
    cases c.isAbrupt with
    | true => rfl
    | false =>
      refine Plan.run_bind rfl fun exits => ?_
      cases exits with
      | false => exact ih _
      | true =>
        cases rest with
        | nil => rfl
        | cons next rest => exact Plan.run_bind (congrArg (Eval.ambiguously _) (ih none)) fun _ => rfl

/-! ## Visits of lists -/

variable {parts : P → Run Completion} {s : Setup} {m n j : Machine} {c : Completion}

/-- What a list does after its first part is done. -/
theorem run_cons (value : Option Value) (p : Span × P) (rest : List (Span × P)) :
    (plan value (p :: rest)).run parts s n =
      match parts p.2 s n with
      | .ok c j =>
        if c.isAbrupt then .ok (c.updateEmpty value) j
        else if n.exits.size < j.exits.size then
          match rest with
          | [] => .ok (.finished (c.value <|> value)) j
          | next :: _ =>
            match (Plan.ambiguously next.1 (plan none rest)).run parts s j with
            | .ok _ k => .ok (.finished (c.value <|> value)) k
            | .error e k => .error e k
        else (plan (c.value <|> value) rest).run parts s j
      | .error e j => .error e j := by
  have marked : (Plan.mark : Plan P Nat).run parts s n = .ok n.exits.size n := rfl
  have first : (Plan.part p.2).run parts s n = parts p.2 s n := rfl
  rw [plan, Plan.run_bind_apply, marked]
  dsimp only
  rw [Plan.run_bind_apply, first]
  cases parts p.2 s n with
  | error e j => rfl
  | ok c j =>
    dsimp only
    split
    · rfl
    -- `mark` and the count of exits only read the machine
    · have exits : (Plan.hasExitsSince n.exits.size).run parts s j =
          .ok (decide (n.exits.size < j.exits.size)) j := rfl
      rw [Plan.run_bind_apply, exits]
      simp only [decide_eq_true_eq]
      split
      · cases rest with
        | nil => rfl
        | cons next rest =>
          refine (Plan.run_bind_apply ..).trans ?_
          dsimp only
          cases (Plan.ambiguously next.1 (plan none (next :: rest))).run parts s j <;> rfl
      · rfl

/-- A list visits its first part and then what it evaluates after it. -/
theorem visits_cons (value : Option Value) (p : Span × P) (rest : List (Span × P)) :
    (plan value (p :: rest)).visits parts s n = ⟨p.2, n, parts p.2 s n⟩ ::
      match parts p.2 s n with
      | .ok c j =>
        if c.isAbrupt then []
        else if n.exits.size < j.exits.size then
          match rest with
          | [] => []
          | next :: _ => (Plan.ambiguously next.1 (plan none rest)).visits parts s j
        else (plan (c.value <|> value) rest).visits parts s j
      | .error _ _ => [] := by
  rw [plan, Plan.visits_bind_ok (x := Plan.mark) rfl, Plan.visits_part_bind]
  refine congrArg (List.cons _) ?_
  cases parts p.2 s n with
  | error e j => rfl
  | ok c j =>
    dsimp only
    split
    · rfl
    · have exits : (Plan.hasExitsSince n.exits.size).run parts s j =
          .ok (decide (n.exits.size < j.exits.size)) j := rfl
      have none : (Plan.hasExitsSince n.exits.size).visits parts s j = [] := rfl
      rw [Plan.visits_bind_ok exits, none, List.nil_append]
      simp only [decide_eq_true_eq]
      split
      · cases rest with
        | nil => rfl
        | cons next rest => exact Plan.visits_bind_pure ..
      · rfl

variable (steady : ∀ p, Keeps Machine.Steady (parts p)) (running : m.contexts.isEmpty = false)

include steady running

/-- Once a part of a list has recorded a possible exit, all parts after it are visited deeper than the
list. -/
theorem pairwise_visits (since : m.InPlace n) (value : Option Value) (ps : List (Span × P)) :
    ((plan value ps).visits parts s n).Pairwise fun v w => v.Records → m.Deeper w.before := by
  have place : ∀ p, Keeps Machine.InPlace (parts p) := Plan.inPlace_of_steady steady
  induction ps generalizing n value with
  | nil => exact .nil
  | cons p rest ih =>
    rw [visits_cons]
    cases run : parts p.2 s n with
    | error e j => exact List.pairwise_singleton _ _
    | ok c j =>
      have since' : m.InPlace j := IsTrans.trans _ _ _ since ((place p.2).of_ok run)
      dsimp only
      split
      · exact List.pairwise_singleton _ _
      · split
        · cases rest with
          | nil => exact List.pairwise_singleton _ _
          | cons next rest =>
            -- the rest of the list is visited in an ambiguous block
            have deeper : ∀ w ∈ (Plan.ambiguously next.1 (plan none (next :: rest))).visits parts s j,
                m.Deeper w.before := Plan.Below.ambiguously place running _ _ s j since'
            refine .cons (fun w hw _ => deeper w hw) ?_
            exact List.pairwise_iff_forall_sublist.2 fun two _ => deeper _ (two.subset (by simp))
        next quiet =>
          exact .cons (fun w _ records => absurd records quiet) (ih since' _)

omit running in
theorem steady_plan (value : Option Value) (ps : List (Span × P)) :
    Keeps Machine.Steady ((plan value ps).run parts) := by
  rw [run_plan]
  refine keeps_runAll (fun step found => ?_) value
  obtain ⟨p, -, rfl⟩ := List.mem_map.1 found
  exact steady p.2

omit running in
/-- The throw with which a part ends is recorded as a possible exit, or the list ends with it. -/
theorem recorded_or_ended {value : Option Value} {ps : List (Span × P)} {v : Visit P}
    {thrown : Completion} (run : (plan value ps).run parts s n = .ok c j)
    (visited : v ∈ (plan value ps).visits parts s n) (ended : v.completion? = some thrown)
    (throws : thrown.isThrow = true) :
    (∃ e ∈ j.exitsSince n.exits.size, ∃ w, e.completion = thrown.updateEmpty w) ∨
      ∃ w, c = thrown.updateEmpty w := by
  induction ps generalizing n value c j with
  | nil => cases visited
  | cons p rest ih =>
    rw [visits_cons] at visited
    rw [run_cons] at run
    cases first : parts p.2 s n with
    | error e k =>
      rw [first] at run
      cases run
    | ok d k =>
      have kept : n.Steady k := (steady p.2).of_ok first
      rw [first] at run visited
      dsimp only at run visited
      rcases List.mem_cons.1 visited with rfl | later
      · obtain rfl : d = thrown := Option.some.inj ended
        rw [if_pos (Completion.isAbrupt_of_isThrow throws)] at run
        cases run
        exact .inr ⟨value, rfl⟩
      · split at run
        next abrupt =>
          rw [if_pos abrupt] at later
          cases later
        next normal =>
          rw [if_neg normal] at later
          split at run
          next exits =>
            rw [if_pos exits] at later
            cases rest with
            | nil => cases later
            | cons next rest =>
              dsimp only at run later
              cases below : (Plan.ambiguously next.1 (plan none (next :: rest))).run parts s k with
              | error e i =>
                rw [below] at run
                cases run
              | ok d' i =>
                rw [below] at run
                cases run
                have inside : v ∈ (plan none (next :: rest)).visits parts s
                    (k.markBlock (next.1.location s.file)).enterBlock := later
                -- what the block records, and what it ends with, is recorded when it is left
                have block (c' : Completion) (k' : Machine)
                    (ran : (plan none (next :: rest)).run parts s
                      (k.markBlock (next.1.location s.file)).enterBlock = .ok c' k') := ih ran inside
                obtain ⟨e, recorded, same⟩ :=
                  recorded_of_ambiguously below (steady_plan steady none _) throws block
                exact .inl ⟨e, Machine.mem_exitsSince_of_le kept.exits_le recorded, same⟩
          next quiet =>
            rw [if_neg quiet] at later
            exact (ih run later).imp_left fun ⟨e, recorded, same⟩ =>
              ⟨e, Machine.mem_exitsSince_of_le kept.exits_le recorded, same⟩

omit running in
/-- A list only ends with a throw if a part of it does so in place. -/
theorem exists_of_isThrow {value : Option Value} {ps : List (Span × P)}
    (run : (plan value ps).run parts s n = .ok c j) (throws : c.isThrow = true) :
    ∃ v ∈ (plan value ps).visits parts s n, v.Throws ∧ n.InPlace v.before := by
  induction ps generalizing n value c j with
  | nil =>
    cases run
    cases throws
  | cons p rest ih =>
    rw [run_cons] at run
    rw [visits_cons]
    cases first : parts p.2 s n with
    | error e k =>
      rw [first] at run
      cases run
    | ok d k =>
      rw [first] at run
      dsimp only at run ⊢
      split at run
      next abrupt =>
        cases run
        rw [Completion.isThrow, Completion.kind_updateEmpty] at throws
        exact ⟨_, List.mem_cons_self, ⟨d, rfl, throws⟩, refl n⟩
      next normal =>
        rw [if_neg normal]
        split at run
        next exits =>
          -- what may or may not happen ends normally
          cases rest with
          | nil =>
            cases run
            cases throws
          | cons next rest =>
            dsimp only at run
            split at run <;> cases run
            cases throws
        next quiet =>
          rw [if_neg quiet]
          obtain ⟨v, visited, thrown, place⟩ := ih run throws
          have kept : n.InPlace k := ((steady p.2).of_ok first).inPlace
          exact ⟨v, List.mem_cons_of_mem _ visited, thrown, IsTrans.trans _ _ _ kept place⟩

end Step

/-! ## Statements -/

namespace Statement

variable {call : ScriptCall} {s : Setup} {m n : Machine} {ss : List Statement} {c : Completion}

/-- The plan of a statement list. -/
def listPlan (ss : List Statement) : Plan Statement Completion :=
  Step.plan none (ss.map fun st => (st.span, st))

/-- The evaluations of the statements of a list, in order. -/
def visits (call : ScriptCall) (ss : List Statement) (s : Setup) (m : Machine) :
    List (Visit Statement) :=
  (listPlan ss).visits (·.evaluate call) s m

/-- The plan that gives the visits of a statement list is its evaluation. -/
theorem run_listPlan (call : ScriptCall) (ss : List Statement) :
    (listPlan ss).run (·.evaluate call) = Step.runAll none (steps call ss) := by
  rw [listPlan, Step.run_plan, List.map_map]
  congr 1
  induction ss with
  | nil => rfl
  | cons st rest ih => exact congrArg (List.cons _) ih

theorem steady_evaluate (calls : call.Keeps fun _ => Machine.Steady) (st : Statement) :
    Keeps Machine.Steady (st.evaluate call) :=
  keeps_evaluate calls st fun h => absurd trivial h

theorem steady_runAll (calls : call.Keeps fun _ => Machine.Steady) (ss : List Statement) :
    Keeps Machine.Steady (Step.runAll none (steps call ss)) :=
  Step.keeps_runAll (keeps_steps calls ss fun h => absurd trivial h) none

/-- If all statements that throw do so in ambiguous blocks of the list, then the list does not end
with a throw, and each throw is recorded as a possible exit. -/
theorem throws_recorded (calls : call.Keeps fun _ => Machine.Steady)
    (run : Step.runAll none (steps call ss) s m = .ok c n)
    (deeper : ∀ v ∈ visits call ss s m, v.Throws → m.Deeper v.before) :
    c.isThrow = false ∧ ∀ v ∈ visits call ss s m, ∀ x, v.completion? = some (.throws x) →
      ∃ e ∈ n.exitsSince m.exits.size, e.completion = .throws x := by
  have steady := steady_evaluate calls
  rw [← run_listPlan] at run
  have certain : c.isThrow = false := by
    by_contra throws
    obtain ⟨v, visited, thrown, place⟩ :=
      Step.exists_of_isThrow steady run (Bool.not_eq_false _ ▸ throws)
    exact place.not_deeper (deeper v visited thrown)
  refine ⟨certain, fun v visited x ended => ?_⟩
  rcases Step.recorded_or_ended steady run visited ended rfl with ⟨e, recorded, w, same⟩ | ⟨w, rfl⟩
  · exact ⟨e, recorded, same⟩
  · cases certain

end Statement

end AbstractScript
