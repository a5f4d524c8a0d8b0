import AbstractScript.Proofs.CalledFunctions
import AbstractScript.Proofs.Chronicle
import AbstractScript.Proofs.UnvisitedFunctions

/-!
# The body of every function is evaluated

After a program its functions are visited in order of creation, those included that the visits
create. A function that was not called before its turn is called then. So when the visits have come
to their end every function of the program was called, and since a function that is called runs unless
the call is refused, the body of every function has been entered (`Analyzer.function_hasRun`).

A function whose only call was refused counts as called, and is not visited
(`Analyzer.function_idle_refusedCall`).
-/
namespace AbstractScript

open Eval Machine

namespace Eval

variable {s : Setup} {m n : Machine} {f : ObjectId}

/-! ## Visits -/

/-- A function that is visited was called before, or is called then. -/
theorem mem_invoked_visitFunction (script : m.realm.IsScript f) :
    f ∈ ((visitFunction f).after s m).invoked := by
  rw [visitFunction, after_get_bind]
  split
  next earlier => exact earlier
  obtain ⟨there, closure, callable⟩ := script
  rw [after_object_bind, callable]
  dsimp only
  rw [after_bind_pure _ fun _ => (), (ambiguously_eq ..).1]
  refine (Serves.exitBlock _ _).invoked f ?_
  generalize blockStart : Machine.enterBlock _ = k
  have callable : (k.realm.object f).isCallable = true := by
    subst blockStart
    exact Option.isSome_of_eq_some callable
  have called : f ∈ ((callObject f .unknown (closure.code.parameters.map fun _ =>
      Value.unknown)).after s k).invoked :=
    ((callWithin_follows _).calls_callFunction callable ..).called
  -- what is left is to note how the call ended
  rw [after_bind]
  rw [Eval.after] at called
  split at called
  next c j _ => exact (Serves.noteExit j c).invoked f called
  next => exact called

theorem serves_visitFunctions (steps index : Nat) : Keeps Serves (visitFunctions steps index) :=
  keeps_visitFunctions_of_calls callWithin_serves steps index

/-- Visits that have come to their end leave no function that was not called. -/
theorem mem_invoked_visitFunctions {steps index : Nat} (sane : m.Sane)
    (run : visitFunctions steps index s m = .ok () n) {i : Nat} (from_index : index ≤ i)
    (lt : i < index + steps) (found : n.scripts[i]? = some f) : f ∈ n.invoked := by
  induction steps generalizing index m with
  | zero => omega
  | succ steps ih =>
    rw [visitFunctions, bind_apply, get_apply] at run
    dsimp only at run
    cases present : m.scripts[index]? with
    | none =>
      rw [present] at run
      cases run
      rw [Array.getElem?_eq_none_iff] at present
      have inside : i < n.scripts.size := (Array.getElem?_eq_some_iff.1 found).1
      omega
    | some g =>
      rw [present] at run
      obtain ⟨_, k, visit, rest⟩ := bind_eq_ok_iff.1 run
      have visited : m.Serves k := (keeps_visitFunction callWithin_serves g).of_ok visit
      have later : k.Serves n := (serves_visitFunctions steps (index + 1)).of_ok rest
      by_cases turn : i = index
      · subst turn
        -- visiting only appends functions, so that the one at an index stays
        have same : n.scripts[i]? = some g := by
          obtain ⟨new, more⟩ := ((steady_visitFunction g).of_ok visit).logs.scripts.trans
            ((steady_visitFunctions steps (i + 1)).of_ok rest).logs.scripts
          rw [← Array.getElem?_toList] at present ⊢
          rw [← more, List.getElem?_append_left (List.getElem?_eq_some_iff.1 present).1, present]
        obtain rfl : f = g := Option.some.inj (found.symm.trans same)
        have called := mem_invoked_visitFunction (s := s) (sane.script f (Array.mem_of_getElem? present))
        rw [Eval.after, visit] at called
        exact later.invoked f called
      · exact ih (visited.sane sane) rest (by omega) (by omega)

/-! ## Runs -/

theorem serves_defineUnknown (name : String) : Keeps Serves (defineUnknown name) := by
  refine .bind (.attempt (Op.built_createData ..).keeps) fun result => ?_
  split
  · exact .pure _
  · exact .aside (reportError_keeps _)

theorem serves_reportPossibleThrows : Keeps Serves reportPossibleThrows := by
  refine .bind (.modifyGet fun m => ?_) fun exits => .forM fun e _ => ?_
  · exact .of_realm rfl (.refl _) (fun _ _ => .inl) rfl rfl fun _ => id
  refine .when (.bind .get fun _ => ⟨fun _ m => ?_⟩)
  exact .of_realm rfl (.refl _) (fun _ _ => id) rfl rfl fun d hd => Array.mem_push_of_mem _ hd

theorem scripts_reportPossibleThrows (run : reportPossibleThrows s m = .ok () n) :
    n.scripts = m.scripts := by
  have order : IsPreorder Machine fun m n => n.scripts = m.scripts :=
    { refl := fun _ => rfl, trans := fun _ _ _ h h' => h'.trans h }
  have kept : Keeps (fun m n => n.scripts = m.scripts) reportPossibleThrows := by
    refine .bind (.modifyGet fun m => rfl) fun exits => .forM fun e _ => ?_
    exact .when (.bind .get fun _ => ⟨fun _ m => rfl⟩)
  exact kept.of_ok run

/-- The calls of a program are served, if nothing is ambiguous in the beginning. -/
theorem serves_evaluateMain {unknownGlobals : List String} {p : Program} {c : Completion}
    (zero : m.level = 0) (run : evaluateMain unknownGlobals p s m = .ok c n) : m.Serves n := by
  rw [evaluateMain, bind_eq_ok_iff] at run
  obtain ⟨_, j, watched, run⟩ := run
  obtain ⟨_, k, bound, evaluated⟩ := bind_eq_ok_iff.1 run
  cases watched
  have begun : m.Serves { m with observed := s.observed } := .of_eq rfl rfl rfl rfl rfl
  have served : Keeps Serves (unknownGlobals.forM defineUnknown) :=
    .forM fun name _ => serves_defineUnknown name
  have quiet : IsQuiet (unknownGlobals.forM defineUnknown) :=
    .forM fun name _ => isQuiet_defineUnknown name
  have zero : k.level = 0 := by
    rw [Machine.level, (quiet.of_ok bound).contexts]
    exact zero
  have names : ¬ True → p.keepsNames = true := fun no => absurd trivial no
  have program : KeepsAt (fun _ => Serves) p.evaluate s k k := by
    refine ruled_at (R := fun _ => Serves) _ _ fun l same => ?_
    refine runProgram_at_of_calls callWithin_serves (enterProgram_at names ?_) names
    rw [Machine.level, same]
    exact zero
  refine IsTrans.trans _ _ _ begun (IsTrans.trans _ _ _ (served.of_ok bound) ?_)
  exact program.related_ok evaluated

end Eval

/-- True when the evaluation of a node at a location begins. -/
def Event.enters (l : Location) : Event → Bool
  | .enter _ location _ => location = l
  | _ => false

/-- Nothing was called in the machine in which a run begins. -/
theorem Machine.sane_start (r : Realm) : (start r).Sane where
  script _ hf := absurd hf (Array.not_mem_empty _)
  instances _ hf := absurd hf (Array.not_mem_empty _)
  invoked _ hf := absurd hf List.not_mem_nil

namespace Analyzer

/-- **The body of every function is evaluated.** If functions that were not called are visited, and
the visits come to their end, then every function of the program has run at some moment, whether the
program calls it or a visit does, unless a call was refused. -/
theorem function_hasRun {a : Analyzer} (visits : a.options.processUnvisitedCode = true) {p : Program}
    {c : Completion} (result : (a.analyze p).result = .ok c)
    (ended : (a.analyze p).machine.scripts.size ≤ visitLimit)
    (followed : ∀ d ∈ (a.analyze p).machine.diagnostics, d.kind ≠ .maxRecursion) {f : ObjectId}
    (created : f ∈ (a.analyze p).machine.scripts) : (a.analyze p).machine.HasRun f := by
  have run := run_of_result result
  rw [analyze_eq_main, bind_eq_ok_iff] at run
  obtain ⟨c', m, main, run⟩ := run
  obtain ⟨visiting, _, asked, visits_run⟩ := bind_eq_ok_iff.1 run
  cases asked
  dsimp only at visits_run
  rw [if_pos (show (a.setup p).options.processUnvisitedCode = true from visits)] at visits_run
  obtain ⟨_, n, visited, reports_run⟩ := bind_eq_ok_iff.1 visits_run
  obtain ⟨_, k, reported, ends⟩ := bind_eq_ok_iff.1 reports_run
  rw [pure_apply] at ends
  injection ends with _ same
  rw [← same] at ended followed created ⊢
  have main_serves : (Machine.start a.realm).Serves m := serves_evaluateMain rfl main
  have visits_serve : m.Serves n := (serves_visitFunctions visitLimit 0).of_ok visited
  have reports_serve : n.Serves k := serves_reportPossibleThrows.of_ok reported
  have sane : (Machine.start a.realm).Sane := sane_start a.realm
  -- in the end every function was called
  have called : f ∈ k.invoked := by
    obtain ⟨i, lt, found⟩ := Array.mem_iff_getElem.1 created
    have found : n.scripts[i]? = some f := by
      rw [← scripts_reportPossibleThrows reported, ← found]
      exact Array.getElem?_eq_getElem lt
    refine reports_serve.invoked f (mem_invoked_visitFunctions (main_serves.sane sane) visited
      (Nat.zero_le i) ?_ found)
    omega
  -- and nothing is awaited that was not awaited in the beginning, when nothing had been called
  by_contra idle
  have whole : (Machine.start a.realm).Serves k :=
    IsTrans.trans _ _ _ main_serves (IsTrans.trans _ _ _ visits_serve reports_serve)
  exact absurd (whole.served sane followed f created ⟨called, idle⟩).1 List.not_mem_nil

/-- An analyzer that visits functions and follows calls to a depth of two. -/
def visiting : Analyzer where
  options := { processUnvisitedCode := true, maxRecursionLimit := 2 }
  observed := true

/-- No call of the program is refused, and both of its functions run in visits. -/
theorem function_hasRun_nested :
    (∃ c, (visiting.analyze nested).result = .ok c) ∧
      (visiting.analyze nested).machine.scripts.size = 2 ∧
      (∀ d ∈ (visiting.analyze nested).machine.diagnostics, d.kind ≠ .maxRecursion) ∧
      ∀ f ∈ (visiting.analyze nested).machine.scripts, (visiting.analyze nested).machine.HasRun f := by
  obtain ⟨c, result⟩ := Analysis.exists_result (b := visiting.analyze nested) (by decide +kernel)
  have two : (visiting.analyze nested).machine.scripts.size = 2 := by decide +kernel
  have ended : (visiting.analyze nested).machine.scripts.size ≤ visitLimit := by
    rw [two]
    decide +kernel
  have followed : ∀ d ∈ (visiting.analyze nested).machine.diagnostics, d.kind ≠ .maxRecursion := by
    decide +kernel
  exact ⟨⟨c, result⟩, two, followed, fun f created =>
    function_hasRun (a := visiting) rfl result ended followed created⟩

/-- The span of a statement in the second line. -/
def secondLine : Span := { (default : Span) with line := 2 }

/-- The program `(function () { (function () { ; })(); })();`, with the empty statement in the second
line. -/
def refusedCall : Program where
  span := default
  file := "test.js"
  body :=
    let call (code : FunctionCode) : Statement :=
      .expression default (.call default (.function code) [])
    let inner : FunctionCode := .mk default none [] default [.empty secondLine]
    [call (.mk default none [] default [call inner])]

/-- The only call of the inner function is refused. Since it counts as called it is not visited, and
the statement in its body is never evaluated. -/
theorem function_idle_refusedCall :
    visiting.options.processUnvisitedCode = true ∧ visiting.options.maxRecursionLimit = 2 ∧
      (visiting.analyze refusedCall).result.isOk = true ∧
      (∃ f ∈ (visiting.analyze refusedCall).machine.scripts,
        ((visiting.analyze refusedCall).machine.realm.code? f).map (·.body.map Statement.span) =
          some [secondLine]) ∧
      ∀ e ∈ (visiting.analyze refusedCall).machine.events,
        e.enters (secondLine.location "test.js") = false := by
  decide +kernel

end Analyzer

end AbstractScript
