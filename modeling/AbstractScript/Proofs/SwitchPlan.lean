import AbstractScript.Proofs.NameLoopPlan

/-!
# Switches as plans

A `switch` evaluates its input, then tests of its cases up to one that equals the input, and then bodies
of its cases, by a plan that looks at the cases only to see which of them have a test
(`Switch.run_evaluate`).
-/
namespace AbstractScript

open Eval

namespace Plan

/-- Takes the labels of the statement that is being evaluated. -/
def takeLabels {P : Type} : Plan P (List String) :=
  .act Eval.takeLabels (.modifyGet fun m => refl (r := Machine.InPlace) m)

/-- Records a completion that may have happened. -/
def note {P : Type} (c : Completion) : Plan P Unit :=
  .act (Eval.note c) (.modify fun m => (Machine.Steady.noteExit m c).inPlace)

end Plan

namespace Switch

/-- What a switch evaluates; a case comes with its number. -/
inductive Part where
  | input
  | test (i : Nat) (c : Case)
  | body (i : Nat) (c : Case)

/-- The number of the case whose test a part is. -/
def Part.test? : Part → Option Nat
  | .test i _ => some i
  | _ => none

/-- The parts of a switch. The test of a case without one does nothing. -/
def parts (input : Run Completion) : Part → Run Completion
  | .input => input
  | .test _ c => (c.test.map (·.2)).getD (return .empty)
  | .body _ c => Step.runAll none c.body

/-! ## The plan of a switch -/

/-- Evaluates tests up to one that equals the input, and goes on with the cases from there, or from the
default case. If a test may or may not equal the input, no cases are found. -/
def choose (input : Value) (default : List (Case × Nat))
    (f : Option (List (Case × Nat)) → Plan Part Completion) :
    List (Case × Nat) → Plan Part Completion
  | [] => f (some default)
  | (c, i) :: rest =>
    match c.test with
    | none => choose input default f rest
    | some (span, _) => do
      let d ← .part (.test i c)
      if d.isAbrupt then return d
      match Value.strictlyEqual? input d.getValue with
      | some true => f (some ((c, i) :: rest))
      | some false => choose input default f rest
      | none =>
        Plan.markUnknown span
        f none

/-- The default case and those after it. -/
def fromDefault (cs : List (Case × Nat)) : List (Case × Nat) := cs.dropWhile (·.1.test.isSome)

/-- Runs the bodies of all cases, each as something that may have exited. -/
def noteAll : List (Case × Nat) → Plan Part Completion
  | [] => return .empty
  | (c, i) :: rest => do
    let d ← .part (.body i c)
    Plan.note d
    noteAll rest

/-- Evaluates the bodies of all cases as something that may or may not happen. -/
def possibly (span : Span) (labels : List String) (cs : List (Case × Nat)) : Plan Part Completion := do
  let mark ← Plan.mark
  let _ ← .ambiguously span (noteAll cs)
  let _ ← Plan.claim mark (Completion.leavesSwitch labels)
  return .empty

/-- Runs cases one after the other, up to a break. -/
def fallThrough (span : Span) (labels : List String) :
    Option Value → List (Case × Nat) → Plan Part Completion
  | value, [] => return .finished value
  | value, (c, i) :: rest => do
    let mark ← Plan.mark
    let d ← .part (.body i c)
    let value := d.value <|> value
    if d.leavesSwitch labels then
      let _ ← Plan.claim mark (Completion.leavesSwitch labels)
      return .finished value
    if d.isAbrupt then return d.updateEmpty value
    if (← Plan.claim mark (Completion.leavesSwitch labels)).isEmpty then
      fallThrough span labels value rest
    else
      if !rest.isEmpty then
        let _ ← possibly span labels rest
      return .finished value

/-- Runs the cases that are found, or all of them as something that may or may not happen. -/
def runChosen (span : Span) (labels : List String) (cs : List (Case × Nat)) :
    Option (List (Case × Nat)) → Plan Part Completion
  | none => possibly span labels cs
  | some [] => return .empty
  | some chosen => fallThrough span labels none chosen

/-- Evaluates a switch. -/
def evaluate (span inputSpan : Span) (cs : List Case) : Plan Part Completion := do
  let labels ← Plan.takeLabels
  let c ← .part .input
  if c.isAbrupt then return c
  if c.getValue.isUnknown then
    Plan.markUnknown inputSpan
    possibly span labels cs.zipIdx
  else choose c.getValue (fromDefault cs.zipIdx) (runChosen span labels cs.zipIdx) cs.zipIdx

/-! ## The plan is the evaluation of the switch -/

variable (input : Run Completion)

/-- What is found among cases without their numbers. -/
def selection : Option (List (Case × Nat)) → Selection
  | none => .unknown
  | some cs => .cases (cs.map Prod.fst)

theorem run_choose {f : Option (List (Case × Nat)) → Plan Part Completion}
    {g : Selection → Rule Completion}
    (same : ∀ o, (f o).run (parts input) = (g (selection o)).complete) (v : Value)
    (default cs : List (Case × Nat)) :
    (choose v default f cs).run (parts input) =
      (Case.select v (default.map Prod.fst) (cs.map Prod.fst) >>= g).complete := by
  induction cs with
  | nil =>
    rw [choose, same, List.map_nil, Case.select, pure_bind]
    rfl
  | cons c rest ih =>
    obtain ⟨c, i⟩ := c
    rw [choose, List.map_cons, Case.select]
    cases tests : c.test with
    | none => exact ih
    | some t =>
      obtain ⟨span, test⟩ := t
      have part : (Plan.part (Part.test i c)).run (parts input) = test := by
        show (c.test.map (·.2)).getD (return .empty) = test
        rw [tests]
        rfl
      dsimp only
      rw [bind_assoc, Rule.complete_value_bind]
      refine Plan.run_bind part fun d => ?_
      cases d.isAbrupt with
      | true => rfl
      | false =>
        rw [if_neg Bool.false_ne_true, if_neg Bool.false_ne_true]
        -- unknown, different or equal
        rcases v.strictlyEqual? d.getValue with _ | _ | _
        · dsimp only
          rw [bind_assoc, Rule.complete_bind_lift]
          refine Plan.run_bind rfl fun _ => ?_
          rw [pure_bind]
          exact same none
        · exact ih
        · dsimp only
          rw [same, pure_bind]
          rfl

theorem run_noteAll (cs : List (Case × Nat)) :
    (noteAll cs).run (parts input) = Case.noteAll (cs.map Prod.fst) := by
  induction cs with
  | nil => rfl
  | cons c rest ih => exact Plan.run_bind rfl fun d => Plan.run_bind rfl fun _ => ih

theorem run_possibly (span : Span) (labels : List String) (cs : List (Case × Nat)) :
    (possibly span labels cs).run (parts input) =
      Case.possibly span labels (cs.map Prod.fst) := by
  refine Plan.run_bind rfl fun mark => Plan.run_bind ?_ fun _ => rfl
  exact congrArg (Eval.ambiguously span) (run_noteAll input cs)

theorem run_fallThrough (span : Span) (labels : List String) (value : Option Value)
    (cs : List (Case × Nat)) :
    (fallThrough span labels value cs).run (parts input) =
      Case.fallThrough span labels value (cs.map Prod.fst) := by
  induction cs generalizing value with
  | nil => rfl
  | cons c rest ih =>
    refine Plan.run_bind rfl fun mark => Plan.run_bind rfl fun d => ?_
    cases d.leavesSwitch labels with
    | true => rfl
    | false =>
      cases d.isAbrupt with
      | true => rfl
      | false =>
        refine Plan.run_bind rfl fun exits => ?_
        cases exits.isEmpty with
        | true => exact ih _
        | false =>
          cases rest with
          | nil => rfl
          | cons c' rest => exact Plan.run_bind (run_possibly input span labels _) fun _ => rfl

/-- The plan of a switch is its evaluation. -/
theorem run_evaluate (span inputSpan : Span) (cs : List Case) :
    (evaluate span inputSpan cs).run (parts input) =
      (Rule.switch span inputSpan input cs).complete := by
  have all : cs.zipIdx.map Prod.fst = cs := List.zipIdx_map_fst 0 cs
  have defaults : (fromDefault cs.zipIdx).map Prod.fst = Case.fromDefault cs := by
    rw [Case.fromDefault, ← all, List.dropWhile_map, all]
    rfl
  unfold Rule.switch
  rw [Rule.complete_bind_lift]
  refine Plan.run_bind rfl fun labels => ?_
  rw [Rule.complete_value_bind]
  refine Plan.run_bind rfl fun c => ?_
  cases c.isAbrupt with
  | true => rfl
  | false =>
    rw [if_neg Bool.false_ne_true, if_neg Bool.false_ne_true]
    cases c.getValue.isUnknown with
    | true =>
      rw [if_pos rfl, if_pos rfl, Rule.complete_bind_lift]
      refine Plan.run_bind rfl fun _ => ?_
      rw [Rule.complete_lift, run_possibly, all]
    | false =>
      rw [if_neg Bool.false_ne_true, if_neg Bool.false_ne_true]
      have selected {g : Selection → Rule Completion}
          (same : ∀ o, (runChosen span labels cs.zipIdx o).run (parts input) =
            (g (selection o)).complete) :=
        run_choose input same c.getValue (fromDefault cs.zipIdx) cs.zipIdx
      rw [all, defaults] at selected
      refine selected fun o => ?_
      -- no decision, no case and a first case
      rcases o with _ | _ | ⟨c, rest⟩
      · rw [runChosen, run_possibly, all]
        exact (Rule.complete_lift _).symm
      · rfl
      · exact (run_fallThrough input span labels none _).trans (Rule.complete_lift _).symm

/-! ## The parts of a switch -/

/-- A part of a switch with cases is its input or belongs to a case. -/
def Part.Listed (cs : List Case) : Part → Prop
  | .input => True
  | .test i c | .body i c => cs[i]? = some c

section

variable {all : List Case} {cs : List (Case × Nat)} (listed : ∀ c ∈ cs, all[c.2]? = some c.1)

include listed

theorem only_noteAll : (noteAll cs).Only (Part.Listed all) := by
  induction cs with
  | nil => trivial
  | cons c rest ih =>
    obtain ⟨first, rest⟩ := List.forall_mem_cons.1 listed
    exact ⟨first, fun d => ⟨trivial, fun _ => ih rest⟩⟩

theorem only_possibly (span : Span) (labels : List String) :
    (possibly span labels cs).Only (Part.Listed all) :=
  ⟨trivial, fun _ => ⟨only_noteAll listed, fun _ => ⟨trivial, fun _ => trivial⟩⟩⟩

theorem only_fallThrough (span : Span) (labels : List String) (value : Option Value) :
    (fallThrough span labels value cs).Only (Part.Listed all) := by
  induction cs generalizing value with
  | nil => trivial
  | cons c rest ih =>
    obtain ⟨first, rest⟩ := List.forall_mem_cons.1 listed
    refine ⟨trivial, fun mark => ⟨first, fun d => ?_⟩⟩
    dsimp only
    split
    · exact ⟨trivial, fun _ => trivial⟩
    · split
      · trivial
      · refine ⟨trivial, fun exits => ?_⟩
        dsimp only
        split
        · exact ih rest _
        · split
          · exact ⟨only_possibly rest span labels, fun _ => trivial⟩
          · trivial

/-- What is found among listed cases are listed cases. -/
theorem only_choose (input : Value) {default : List (Case × Nat)}
    (defaults : ∀ c ∈ default, all[c.2]? = some c.1)
    {f : Option (List (Case × Nat)) → Plan Part Completion}
    (found : ∀ o, (∀ chosen, o = some chosen → ∀ c ∈ chosen, all[c.2]? = some c.1) →
      (f o).Only (Part.Listed all)) :
    (choose input default f cs).Only (Part.Listed all) := by
  induction cs with
  | nil => exact found _ fun chosen same => Option.some.inj same ▸ defaults
  | cons c rest ih =>
    obtain ⟨c, i⟩ := c
    have later := ih (List.forall_mem_cons.1 listed).2
    rw [choose]
    split
    · exact later
    · refine ⟨(List.forall_mem_cons.1 listed).1, fun d => ?_⟩
      dsimp only
      split
      · trivial
      · split
        · exact found _ fun chosen same => Option.some.inj same ▸ listed
        · exact later
        · exact ⟨trivial, fun _ => found _ fun _ none => by cases none⟩

end

/-- A switch evaluates its input and what belongs to its cases. -/
theorem only_evaluate (span inputSpan : Span) (cs : List Case) :
    (evaluate span inputSpan cs).Only (Part.Listed cs) := by
  have listed : ∀ c ∈ cs.zipIdx, cs[c.2]? = some c.1 := fun c => List.mem_zipIdx_iff_getElem?.1
  refine ⟨trivial, fun labels => ⟨trivial, fun c => ?_⟩⟩
  dsimp only
  split
  · trivial
  · split
    · exact ⟨trivial, fun _ => only_possibly listed span labels⟩
    · refine only_choose listed _ (fun c h => listed c ((List.dropWhile_subset _) h)) fun o chosen => ?_
      rcases o with _ | _ | ⟨c, rest⟩
      · exact only_possibly listed span labels
      · trivial
      · exact only_fallThrough (chosen _ rfl) span labels none

end Switch

end AbstractScript
