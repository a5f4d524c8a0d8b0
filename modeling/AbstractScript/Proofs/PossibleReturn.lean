import AbstractScript.Proofs.Soundness
import AbstractScript.Proofs.StepPlan

/-!
# Throws after a possible return

A call whose body may have returned gives an unknown value, unless the body ends with a throw. It
does not if all statements of the body that throw do so in ambiguous blocks of the call: their throws
are possible exits then (`Eval.call_uncertain`). A throw outside of these blocks is taken for granted,
although the call may have returned before it (`Eval.call_throws_returnOrThrow`).
-/
namespace AbstractScript

namespace Eval

variable {s : Setup} {m : Machine}

/-! ## What a call does around its body -/

/-- What a call of a function of the program does before its body. -/
def enterCall (f : ObjectId) (closure : Closure) (this : Value) (arguments : List Value) :
    Run Unit := do
  let receiver ← scriptReceiver this
  let e ← createEnvironment (.fresh (some closure.scope))
  modify (·.pushContext (.enter (some f) e receiver))
  enterBody closure.code e arguments

/-- The machine in which the body of a call begins. -/
def bodyStart (f : ObjectId) (closure : Closure) (this : Value) (arguments : List Value)
    (s : Setup) (m : Machine) : Machine :=
  (enterCall f closure this arguments).after s m

theorem exists_reportError (e : NativeError) (s : Setup) (m : Machine) :
    ∃ n, (reportError e : Run Unit) s m = .ok () n := ⟨_, rfl⟩

theorem exists_attempt_report (bind : Op Unit) (s : Setup) (m : Machine) : ∃ n, (do
    match ← bind.attempt with
    | .ok _ => return
    | .error error => reportError error : Run Unit) s m = .ok () n := by
  rw [bind_apply]
  cases attempted : (bind.attempt : Run (Except NativeError Unit)) s m with
  | error e n => exact absurd attempted (Op.attempt_ne_error _ _ _ _ e)
  | ok result n =>
    cases result with
    | ok u => exact ⟨_, rfl⟩
    | error e => exact exists_reportError e s n

theorem exists_enterBody (code : FunctionCode) (e : EnvId) (arguments : List Value) (s : Setup)
    (m : Machine) : ∃ n, enterBody code e arguments s m = .ok () n :=
  exists_attempt_report _ _ _

/-- The way to the body of a call always succeeds, and no possible exit is recorded on it. -/
theorem exists_bodyStart (f : ObjectId) (closure : Closure) (this : Value) (arguments : List Value)
    (s : Setup) (m : Machine) :
    ∃ receiver k e k', scriptReceiver this s m = .ok receiver k ∧
      (createEnvironment (.fresh (some closure.scope)) : Run EnvId) s k = .ok e k' ∧
      enterBody closure.code e arguments s (k'.pushContext (.enter (some f) e receiver)) =
        .ok () (bodyStart f closure this arguments s m) ∧
      k'.exits = m.exits ∧ (bodyStart f closure this arguments s m).exits = m.exits := by
  obtain ⟨receiver, k, received⟩ := exists_scriptReceiver this s m
  obtain ⟨e, k', created, same⟩ : ∃ e k', (createEnvironment (.fresh (some closure.scope)) :
      Run EnvId) s k = .ok e k' ∧ k'.exits = k.exits := ⟨_, _, rfl, rfl⟩
  obtain ⟨i, entered⟩ := exists_enterBody closure.code e arguments s
    (k'.pushContext (.enter (some f) e receiver))
  have start : bodyStart f closure this arguments s m = i := by
    unfold bodyStart enterCall
    rw [after_bind_ok received, after_bind_ok created, after_bind_ok (modify_apply ..), Eval.after,
      entered]
  have first : k.exits = m.exits :=
    (Keeps.of_ok (R := Machine.Quiet) (keeps_scriptReceiver this) received).exits
  have last : i.exits = k'.exits := ((isQuiet_enterBody ..).of_ok entered).exits
  rw [start]
  exact ⟨receiver, k, e, k', received, created, entered, same.trans first,
    last.trans (same.trans first)⟩

/-- A call is its body between what it does before and after it. -/
theorem callScript_of_body {body : Run Completion} {f : ObjectId} {closure : Closure} {this : Value}
    {arguments : List Value} {c : Completion} {n : Machine}
    (ended : body s (bodyStart f closure this arguments s m) = .ok c n) :
    callScript body f closure this arguments s m = .ok (callResult c n.returnUnknown)
      (n.popContext.dropClaimed m.exits.size fun c => !c.isThrow) := by
  obtain ⟨receiver, k, e, k', received, created, entered, exits, -⟩ :=
    exists_bodyStart f closure this arguments s m
  unfold callScript inContext
  simp only [bind_apply, received, created, mark, get_apply, pure_apply, modify_apply,
    ensuring_apply, entered, ended, exits]

/-! ## Throws in ambiguous blocks -/

/-- **A throw after a possible return is only possible**, if it happens in an ambiguous block: a call
whose body may have returned gives an unknown value if all statements of the body that throw are
visited deeper than the body begins, and their throws are among the possible exits that it leaves. -/
theorem call_uncertain (calls : Nat) (f : ObjectId) (closure : Closure) (this : Value)
    (arguments : List Value) {c : Completion} {n : Machine}
    (ended : Step.runAll none (Statement.steps (callWithin calls) closure.code.body) s
      (bodyStart f closure this arguments s m) = .ok c n)
    (mayReturn : n.returnUnknown = true)
    (deeper : ∀ v ∈ Statement.visits (callWithin calls) closure.code.body s
        (bodyStart f closure this arguments s m),
      v.Throws → (bodyStart f closure this arguments s m).Deeper v.before) :
    ∃ k, callWithin (calls + 1) f closure this arguments s m = .ok .unknown k ∧
      ∀ v ∈ Statement.visits (callWithin calls) closure.code.body s
          (bodyStart f closure this arguments s m),
        ∀ x, v.completion? = some (.throws x) →
          ∃ e ∈ k.exitsSince m.exits.size, e.completion = .throws x := by
  obtain ⟨-, -, -, -, -, -, -, -, exits⟩ := exists_bodyStart f closure this arguments s m
  obtain ⟨certain, recorded⟩ :=
    Statement.throws_recorded (callWithin_keeps calls) ended deeper
  have result : callResult c n.returnUnknown = .unknown := by
    simp [callResult, certain, mayReturn]
  refine ⟨_, result ▸ callScript_of_body ended, fun v visited x thrown => ?_⟩
  obtain ⟨e, found, same⟩ := recorded v visited x thrown
  rw [exits] at found
  have kept : (bodyStart f closure this arguments s m).Steady n :=
    Keeps.of_ok (Step.keeps_runAll
      (Statement.keeps_steps (callWithin_keeps calls) _ fun h => absurd trivial h) none) ended
  -- the call takes the possible returns of its body, and leaves the throws
  refine ⟨e, Machine.mem_exitsSince_dropClaimed (exits ▸ kept.exits_le) found ?_, same⟩
  rw [same]
  rfl

/-! ### Functions that may return -/

open Analyzer

/-- How a computation ends, and whether the running context may have returned then. -/
def ending (r : EStateM.Result FatalError Machine Completion) : Option (Completion × Bool) :=
  match r with
  | .ok c m => some (c, m.returnUnknown)
  | .error _ _ => none

theorem exists_of_ending {r : EStateM.Result FatalError Machine Completion} {c : Completion}
    {b : Bool} (h : ending r = some (c, b)) : ∃ m, r = .ok c m ∧ m.returnUnknown = b := by
  cases r with
  | ok d m =>
    cases h
    exact ⟨m, rfl, rfl⟩
  | error e m => cases h

/-- Returns if the unknown global is true. -/
def returnIfUnknown : Statement := .branch default (nameAt "u") (.returns default none) none

/-- A call of a function in a `try` that assigns `false` to a variable if the function throws:
`function f() { body } var x = true; try { f(); } catch (e) { x = false; }`. -/
def guardedCall (body : List Statement) : Program where
  span := default
  file := "call.js"
  body :=
    [functionAt "f" body,
    .varDeclaration default [.mk default ⟨default, "x"⟩ (some (boolAt true))],
    .tryCatch default (.mk default [.expression default (callOf "f")])
      (some (.mk default ⟨default, "e"⟩
        (.mk default [.expression default (assignAt "x" (boolAt false))]))) none]

/-- What a run with the program is given. -/
def callSetup (body : List Statement) : Setup := withUnknown.setup (guardedCall body)

/-- The machine in which the `try` begins. -/
def callStart (body : List Statement) : Machine :=
  withUnknown.machineAfter (guardedCall body) ((guardedCall body).body.take 2)

/-- The function of the program. -/
def calledFunction (body : List Statement) : ObjectId := ((callStart body).scripts[0]?).getD default

/-- The code of the function with its scope. -/
def calledClosure (body : List Statement) : Closure :=
  ⟨.mk default (some ⟨default, "f"⟩) [] default body, Realm.globalEnv⟩

/-- The machine in which the body of the function begins. -/
def calledStart (body : List Statement) : Machine :=
  bodyStart (calledFunction body) (calledClosure body) .undefined [] (callSetup body) (callStart body)

/-- How the body of the function ends. -/
def calledEnding (body : List Statement) : Option (Completion × Bool) :=
  ending (Step.runAll none (Statement.steps (callWithin 0) body) (callSetup body) (calledStart body))

/-- `if (u) return; if (u) throw true; throw true;` -/
def possibleThrows : List Statement :=
  [returnIfUnknown, throwIfUnknown, .throws default (boolAt true)]

/-- The last throw is in an ambiguous block, since the statement before it may have thrown. -/
theorem call_uncertain_possibleThrows :
    ∃ k, callWithin 1 (calledFunction possibleThrows) (calledClosure possibleThrows) .undefined []
        (callSetup possibleThrows) (callStart possibleThrows) = .ok .unknown k ∧
      ∃ v ∈ Statement.visits (callWithin 0) possibleThrows (callSetup possibleThrows)
          (calledStart possibleThrows),
        v.completion? = some (.throws (.bool true)) ∧
        ∃ e ∈ k.exitsSince (callStart possibleThrows).exits.size, e.completion = .throws (.bool true) := by
  have ends : calledEnding possibleThrows = some (.finished none, true) := by decide +kernel
  obtain ⟨n, ended, mayReturn⟩ := exists_of_ending ends
  have thrown : ∃ v ∈ Statement.visits (callWithin 0) possibleThrows (callSetup possibleThrows)
      (calledStart possibleThrows), v.completion? = some (.throws (.bool true)) := by decide +kernel
  obtain ⟨v, visited, throws⟩ := thrown
  obtain ⟨k, result, recorded⟩ := call_uncertain 0 (calledFunction possibleThrows)
    (calledClosure possibleThrows) .undefined [] ended mayReturn (by decide +kernel)
  exact ⟨k, result, v, visited, throws, recorded v visited _ throws⟩

/-- `if (u) return; throw true;` -/
def returnOrThrow : List Statement := [returnIfUnknown, .throws default (boolAt true)]

/-- The call throws although its body may have returned before. The analysis takes it for granted
that the exception is caught, which does not happen if `u` is true. -/
theorem call_throws_returnOrThrow :
    (∃ n, Step.runAll none (Statement.steps (callWithin 0) returnOrThrow) (callSetup returnOrThrow)
        (calledStart returnOrThrow) = .ok (.throws (.bool true)) n ∧ n.returnUnknown = true) ∧
      (∃ k, callWithin 1 (calledFunction returnOrThrow) (calledClosure returnOrThrow) .undefined []
        (callSetup returnOrThrow) (callStart returnOrThrow) = .ok (.throws (.bool true)) k) ∧
      (withUnknown.analyze (guardedCall returnOrThrow)).global? "x" = some (.bool false) ∧
      (withUnknown.analyzeWith [("u", .bool true)] (guardedCall returnOrThrow)).global? "x" =
        some (.bool true) := by
  have ends : calledEnding returnOrThrow = some (.throws (.bool true), true) := by decide +kernel
  obtain ⟨n, ended, mayReturn⟩ := exists_of_ending ends
  exact ⟨⟨n, ended, mayReturn⟩, ⟨_, callScript_of_body ended⟩, by decide +kernel, by decide +kernel⟩

end Eval

end AbstractScript
