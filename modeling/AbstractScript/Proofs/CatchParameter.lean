import AbstractScript.Proofs.Soundness
import AbstractScript.Proofs.StepPlan

/-!
# The parameter of a catch clause

A `try` whose block may have thrown, but did not, runs its handler with an unknown exception, in an
ambiguous block. So it does if all statements of the block that throw do so in ambiguous blocks
(`Eval.catch_unknown`). A block that ends with a throw hands the exception to the handler as it is,
although a call before the throw may have thrown another one (`Eval.catch_known_firstThrow`).
-/
namespace AbstractScript

namespace Eval

/-! ## A try statement as a plan -/

/-- What a `try` evaluates. -/
inductive TryPart where
  | block
  /-- The handler, with the exception. -/
  | handler (thrown : Value)
  | finalizer
  deriving DecidableEq

/-- A `try`, except for what its parts do. -/
structure TryShape where
  /-- The span of the handler, if there is one. -/
  handler : Option Span
  /-- True if there is a last block. -/
  finalizes : Bool

namespace TryShape

/-- Handles what the block has thrown or may have thrown since a mark. -/
def handleThrows (mark : Nat) (c : Completion) (span : Span) : Plan TryPart Completion := do
  let possible ← Plan.claim mark Completion.isThrow
  if c.isThrow then .part (.handler c.getValue)
  else if possible.isEmpty then return c
  else
    let _ ← .ambiguously span (.part (.handler .unknown))
    return c

/-- Runs the last block, which may replace the completion. -/
def finish (c : Completion) : Plan TryPart Completion := do
  let mark ← Plan.mark
  let final ← .part .finalizer
  Plan.recordOvertaken fun m => c.isAbrupt && final.isNormal && mark < m.exits.size
  return if final.isAbrupt then final else c

variable (k : TryShape)

/-- What is left of a completion after the handler, if there is one. -/
def handled (mark : Nat) (c : Completion) : Plan TryPart Completion :=
  match k.handler with
  | some span => handleThrows mark c span
  | none => return c

/-- What is left of a completion after the last block, if there is one. -/
def finished (c : Completion) : Plan TryPart Completion :=
  if k.finalizes then finish c else return c

/-- Runs the block. The ledger tells its extent if there is a handler. -/
def guarded : Plan TryPart Completion := do
  let since ← Plan.ledgerSize
  let c ← .part .block
  Plan.markHandled k.handler.isSome since
  return c

/-- Evaluates a `try`. -/
def plan : Plan TryPart Completion := do
  let mark ← Plan.mark
  let c ← k.guarded
  k.finished (← k.handled mark c)

variable (parts : TryPart → Run Completion)

theorem run_handleThrows (mark : Nat) (c : Completion) (span : Span) :
    (handleThrows mark c span).run parts =
      Eval.handleThrows mark c ⟨span, fun x => parts (.handler x)⟩ := by
  refine Plan.run_bind rfl fun possible => ?_
  cases c.isThrow with
  | true => rfl
  | false => cases possible.isEmpty <;> rfl

theorem run_finish (c : Completion) :
    (finish c).run parts = Eval.finish c (parts .finalizer) :=
  Plan.run_bind rfl fun _ => Plan.run_bind rfl fun _ => rfl

theorem run_guarded : k.guarded.run parts = Eval.guarded k.handler.isSome (parts .block) :=
  Plan.run_bind rfl fun _ => Plan.run_bind rfl fun _ => Plan.run_bind rfl fun _ => rfl

/-- With the parts of a `try`, the plan of its shape is the evaluation of the `try`. -/
theorem run_plan : k.plan.run parts = tryBlock (parts .block)
    (k.handler.map fun span => ⟨span, fun x => parts (.handler x)⟩)
    (if k.finalizes then some (parts .finalizer) else none) := by
  rw [tryBlock_eq, Option.isSome_map]
  refine Plan.run_bind rfl fun mark => Plan.run_bind (k.run_guarded parts) fun c =>
    Plan.run_bind ?_ fun c => ?_
  · obtain ⟨handler, finalizes⟩ := k
    cases handler with
    | none => rfl
    | some span => exact run_handleThrows parts mark c span
  · obtain ⟨handler, finalizes⟩ := k
    cases finalizes with
    | false => rfl
    | true => exact run_finish parts c

variable {parts} {s : Setup} {m n : Machine} {mark : Nat} {c : Completion} {v : Visit TryPart}

/-- What is visited to handle what was thrown or may have been. -/
theorem visits_handleThrows (span : Span) : (handleThrows mark c span).visits parts s n =
    if c.isThrow then
      (Plan.part (.handler c.getValue)).visits parts s (n.dropClaimed mark Completion.isThrow)
    else if (n.claimed mark Completion.isThrow).isEmpty then []
    else (Plan.ambiguously span (.part (.handler .unknown))).visits parts s
      (n.dropClaimed mark Completion.isThrow) := by
  unfold handleThrows
  rw [Plan.visits_bind_ok (x := Plan.claim mark _) rfl]
  show [] ++ _ = _
  rw [List.nil_append]
  split
  · rfl
  · split
    · rfl
    · exact Plan.visits_bind_pure ..

theorem part_of_mem_finished (visited : v ∈ (k.finished c).visits parts s n) :
    v.part = .finalizer := by
  unfold finished at visited
  split at visited
  · unfold finish at visited
    rw [Plan.visits_bind_ok (x := Plan.mark) rfl, Plan.visits_part_bind] at visited
    rcases List.mem_cons.1 visited with rfl | later
    · rfl
    · split at later <;> cases later
  · cases visited

/-- The machine after the block, with the extent of the block in the ledger. -/
def closed (m n : Machine) : Machine :=
  n.enterLedger k.handler.isSome (.handled (n.ledger.size - m.ledger.size))

/-- A `try` visits its block, then what handles the throws of the block, then the last block. -/
theorem visits_plan {c : Completion} (ended : parts .block s m = .ok c n) :
    k.plan.visits parts s m = ⟨.block, m, .ok c n⟩ ::
      ((k.handled m.exits.size c).visits parts s (k.closed m n) ++
        match (k.handled m.exits.size c).run parts s (k.closed m n) with
        | .ok d j => (k.finished d).visits parts s j
        | .error _ _ => []) := by
  -- the guarded block is the first part that is visited
  have guarded : k.guarded.run parts s m = .ok c (k.closed m n) := by
    rw [run_guarded, Eval.guarded, bind_apply]
    show (parts .block >>= _) s m = _
    rw [bind_apply, ended]
    rfl
  have visited : k.guarded.visits parts s m = [⟨.block, m, .ok c n⟩] := by
    show ([] ++ _ : List (Visit TryPart)) = _
    rw [List.nil_append]
    show Plan.visits parts s (Plan.part .block >>= _) m = _
    rw [Plan.visits_part_bind, ended]
    rfl
  have marks : (Plan.mark : Plan TryPart Nat).visits parts s m = [] := rfl
  unfold plan
  rw [Plan.visits_bind_ok (x := Plan.mark) rfl, marks, List.nil_append,
    Plan.visits_bind_ok guarded, visited, List.singleton_append, Plan.visits_bind]
  cases (k.handled m.exits.size c).run parts s (k.closed m n) <;> rfl

/-- A `try` whose block may have thrown, but did not, visits its handler once, with an unknown
exception in an ambiguous block, between its block and its last block. -/
theorem visits_of_possible {span : Span} (handler : k.handler = some span)
    (ended : parts .block s m = .ok c n) (certain : c.isThrow = false)
    (recorded : ∃ e ∈ n.exitsSince m.exits.size, e.completion.isThrow = true) :
    ∃ v rest, k.plan.visits parts s m = ⟨.block, m, .ok c n⟩ :: v :: rest ∧
      v.part = .handler .unknown ∧
      v.before = (((k.closed m n).dropClaimed m.exits.size Completion.isThrow).markBlock
        (span.location s.file)).enterBlock ∧
      ∀ w ∈ rest, w.part = .finalizer := by
  have claimed : ((k.closed m n).claimed m.exits.size Completion.isThrow).isEmpty = false := by
    obtain ⟨e, found, throws⟩ := recorded
    exact List.isEmpty_eq_false_iff_exists_mem.2 ⟨e, List.mem_filter.2 ⟨found, throws⟩⟩
  have handled : k.handled m.exits.size c = handleThrows m.exits.size c span := by
    rw [TryShape.handled, handler]
  rw [k.visits_plan ended, handled, visits_handleThrows, if_neg (Bool.not_eq_true _ ▸ certain),
    if_neg (Bool.not_eq_true _ ▸ claimed)]
  refine ⟨_, _, rfl, rfl, rfl, fun w later => ?_⟩
  split at later
  · exact k.part_of_mem_finished later
  · cases later

end TryShape

/-! ## Statements -/

/-- A `try` statement with a handler. -/
structure GuardedBlock where
  body : List Statement
  handlerSpan : Span
  parameter : Identifier
  handler : Block
  finalizer : Option Block

namespace GuardedBlock

variable (t : GuardedBlock) (call : ScriptCall)

/-- The `try` as a statement. -/
def statement (span bodySpan : Span) : Statement :=
  .tryCatch span (.mk bodySpan t.body) (some (.mk t.handlerSpan t.parameter t.handler)) t.finalizer

def shape : TryShape := ⟨some t.handlerSpan, t.finalizer.isSome⟩

/-- What the parts of the `try` do. A last block that there is not does nothing. -/
def parts : TryPart → Run Completion
  | .block => Step.runAll none (Statement.steps call t.body)
  | .handler x => handle t.parameter.name (t.handler.evaluate call) x
  | .finalizer => (evaluateFinalizer call t.finalizer).getD (return .empty)

/-- The evaluations of the parts of the `try`, in order. -/
def visits (s : Setup) (m : Machine) : List (Visit TryPart) := t.shape.plan.visits (t.parts call) s m

/-- The plan that gives the visits of a `try` is the evaluation of the statement. -/
theorem evaluate_statement (span bodySpan : Span) : (t.statement span bodySpan).evaluate call =
    ruled .tryStatement span (t.shape.plan.run (t.parts call)) := by
  rw [TryShape.run_plan]
  obtain ⟨body, handlerSpan, parameter, handler, _ | last⟩ := t <;> rfl

end GuardedBlock

variable {s : Setup} {m n : Machine} {c : Completion}

/-- **The parameter of a handler is only known if the exception is.** If the block of a `try` has
recorded a throw as a possible exit, and all its statements that throw do so in ambiguous blocks, then
the handler is visited, in an ambiguous block, and whenever it is, its own block runs in an
environment in which the parameter is unknown. -/
theorem catch_unknown (calls : Nat) (t : GuardedBlock) (running : m.contexts.isEmpty = false)
    (ended : Step.runAll none (Statement.steps (callWithin calls) t.body) s m = .ok c n)
    (recorded : ∃ e ∈ n.exitsSince m.exits.size, e.completion.isThrow = true)
    (deeper : ∀ v ∈ Statement.visits (callWithin calls) t.body s m, v.Throws → m.Deeper v.before) :
    (∃ v ∈ t.visits (callWithin calls) s m, v.part = .handler .unknown ∧ m.Deeper v.before) ∧
      ∀ v ∈ t.visits (callWithin calls) s m, ∀ thrown, v.part = .handler thrown →
        ∃ k, v.result = inScope v.before.realm.nextEnvironment
            (t.handler.evaluate (callWithin calls)) s k ∧
          (k.realm.environment v.before.realm.nextEnvironment).Holds v.before.lexicalEnv
            ⟨t.parameter.name, .unknown, v.before.level⟩ := by
  obtain ⟨certain, -⟩ := Statement.throws_recorded (callWithin_keeps calls) ended deeper
  have block : t.parts (callWithin calls) .block s m = .ok c n := ended
  obtain ⟨w, rest, visited, part, before, last⟩ :=
    t.shape.visits_of_possible rfl block certain recorded
  have steady : m.Steady n := Keeps.of_ok (Step.keeps_runAll
    (Statement.keeps_steps (callWithin_keeps calls) _ fun h => absurd trivial h) none) ended
  have closed : m.Steady (t.shape.closed m n) :=
    IsTrans.trans _ _ _ steady (Machine.Steady.enterLedger n ..)
  have marked : m.InPlace (((t.shape.closed m n).dropClaimed m.exits.size
      Completion.isThrow).markBlock (t.handlerSpan.location s.file)) :=
    (closed.dropClaimed _).inPlace
  refine ⟨⟨w, ?_, part, before ▸ marked.deeper running⟩, fun v found thrown handles => ?_⟩
  · rw [GuardedBlock.visits, visited]
    exact List.mem_cons_of_mem _ List.mem_cons_self
  · -- the block comes first and the last block at the end, so that the handler is in between
    have unknown : thrown = .unknown := by
      rw [GuardedBlock.visits, visited] at found
      rcases List.mem_cons.1 found with rfl | later
      · cases handles
      · rcases List.mem_cons.1 later with rfl | later
        · rw [part] at handles
          cases handles
          rfl
        · rw [last v later] at handles
          cases handles
    subst unknown
    refine ⟨v.before.withVariable t.parameter.name .unknown, ?_, v.before.holds_withVariable _ _⟩
    rw [Plan.result_of_mem_visits found, handles]
    exact handle_apply ..

/-! ### Blocks that may throw -/

open Analyzer

/-- A `try` that leaves its exception in a variable: `try { block } catch (e) { x = e; }`. -/
def keepException (block : List Statement) : GuardedBlock where
  body := block
  handlerSpan := default
  parameter := ⟨default, "e"⟩
  handler := .mk default [.expression default (assignAt "x" (nameAt "e"))]
  finalizer := none

/-- The `try` after a function that may throw and one that does: `function f() { if (u) throw true; }
function g() { throw false; } var x; try { block } catch (e) { x = e; }`. -/
def catching (block : List Statement) : Program where
  span := default
  file := "catch.js"
  body :=
    [functionAt "f" [throwIfUnknown],
    functionAt "g" [.throws default (boolAt false)],
    .varDeclaration default [.mk default ⟨default, "x"⟩ none],
    (keepException block).statement default default]

/-- What a run with the program is given. -/
def catchSetup (block : List Statement) : Setup := withUnknown.setup (catching block)

/-- The machine in which the `try` begins. -/
def catchStart (block : List Statement) : Machine :=
  withUnknown.machineAfter (catching block) ((catching block).body.take 3)

/-- The completion of the block, and whether a throw is among its possible exits. -/
def blockEnding (block : List Statement) : Option (Completion × Bool) :=
  match Step.runAll none (Statement.steps (callWithin 1) block) (catchSetup block) (catchStart block) with
  | .ok c n => some (c, (n.exitsSince (catchStart block).exits.size).any (·.completion.isThrow))
  | .error _ _ => none

theorem exists_of_blockEnding {block : List Statement} (h : blockEnding block = some (c, true)) :
    ∃ n, Step.runAll none (Statement.steps (callWithin 1) block) (catchSetup block)
        (catchStart block) = .ok c n ∧
      ∃ e ∈ n.exitsSince (catchStart block).exits.size, e.completion.isThrow = true := by
  unfold blockEnding at h
  split at h
  next d n ran =>
    obtain ⟨rfl, recorded⟩ := Prod.mk.inj (Option.some.inj h)
    exact ⟨n, ran, List.any_eq_true.1 recorded⟩
  next => cases h

/-- The call of both functions in one expression: `f(), g();`. -/
def callBoth : Statement := .expression default (.sequence default [callOf "f", callOf "g"])

/-- `if (u) throw true; f(), g();` -/
def throwOrCallBoth : List Statement := [throwIfUnknown, callBoth]

/-- The expression throws for certain, but in an ambiguous block, since the statement before it may
have thrown. -/
theorem catch_unknown_throwOrCallBoth :
    (∃ v ∈ Statement.visits (callWithin 1) throwOrCallBoth (catchSetup throwOrCallBoth)
        (catchStart throwOrCallBoth), v.completion? = some (.throws (.bool false))) ∧
      ∃ w ∈ (keepException throwOrCallBoth).visits (callWithin 1) (catchSetup throwOrCallBoth)
        (catchStart throwOrCallBoth),
        w.part = .handler .unknown ∧ (catchStart throwOrCallBoth).Deeper w.before := by
  have ends : blockEnding throwOrCallBoth = some (.finished none, true) := by decide +kernel
  obtain ⟨n, ended, recorded⟩ := exists_of_blockEnding ends
  exact ⟨by decide +kernel, (catch_unknown 1 (keepException throwOrCallBoth) (by decide +kernel) ended
    recorded (by decide +kernel)).1⟩

/-- The handler runs with the exception of the second call, although the first one may have thrown
another one. The analysis takes it for granted that this is the exception, which it is not if `u` is
true. -/
theorem catch_known_firstThrow :
    (∃ c n, Step.runAll none (Statement.steps (callWithin 1) [callBoth]) (catchSetup [callBoth])
        (catchStart [callBoth]) = .ok c n ∧
      ∃ e ∈ n.exitsSince (catchStart [callBoth]).exits.size, e.completion.isThrow = true) ∧
      (∃ v ∈ (keepException [callBoth]).visits (callWithin 1) (catchSetup [callBoth])
        (catchStart [callBoth]), v.part = .handler (.bool false)) ∧
      (withUnknown.analyze (catching [callBoth])).global? "x" = some (.bool false) ∧
      (withUnknown.analyzeWith [("u", .bool true)] (catching [callBoth])).global? "x" =
        some (.bool true) := by
  have ends : blockEnding [callBoth] = some (.throws (.bool false), true) := by decide +kernel
  exact ⟨⟨_, exists_of_blockEnding ends⟩, by decide +kernel, by decide +kernel, by decide +kernel⟩

end Eval

end AbstractScript
