import AbstractScript.Evaluation.Tree

/-!
# Programs

A program is evaluated in the global environment. After it, the functions that were created but
never called can be called once each, as something that may or may not happen, and the possible
throws that no `try` has claimed are reported.
-/
namespace AbstractScript

/-- The text of an exception in messages: its name and its message, if it is an object. -/
def Realm.describeException (r : Realm) (v : Value) : String :=
  match v with
  | .object o =>
    match textAt? o "name", textAt? o "message" with
    | some name, some message => if message.isEmpty then name else name ++ ": " ++ message
    | some name, none => name
    | none, some message => message
    | none, none => "exception"
  | v => v.display
where
  /-- The text that a property holds. -/
  textAt? (o : ObjectId) (name : String) : Option String :=
    match r.property? o name with
    | some (.data (.string s) ..) => some s
    | _ => none

namespace Eval

/-- Calls functions of the program as long as contexts can be added. Each call adds one. -/
def callWithin : Nat → ScriptCall
  | 0 => fun _ _ _ _ => do
    reportMaxRecursion
    return .unknown
  | depth + 1 => fun f closure =>
    callScript (Step.runAll none (Statement.steps (callWithin depth) closure.code.body)) f closure

/-- The number of contexts that can be added to those there are. -/
def depthLeft : Run Nat := do
  return (← setup (·.options.maxRecursionLimit)) - (← get).contexts.size

/-- Calls an object. -/
def callObject (f : ObjectId) (this : Value) (arguments : List Value) : Run Completion := do
  callFunction (callWithin (← depthLeft)) f this arguments

/-- Creates an object with a constructor. -/
def constructObject (f : ObjectId) (arguments : List Value) : Run Completion := do
  construct (callWithin (← depthLeft)) f arguments

/-- Binds what the program declares. -/
def enterProgram (body : List Statement) : Run Unit := do
  match ← (Op.instantiate (← get).variableEnv body none).attempt with
  | .ok _ => return
  | .error e => reportError e

/-- The statements of a program. An exception that nothing catches is reported. -/
def runProgram (body : List Statement) : Run Completion := do
  enterProgram body
  let call := callWithin (← depthLeft)
  let c ← Step.runAll none (Statement.steps call body)
  if c.isThrow then
    reportHere .uncaught ("Uncaught " ++ (← get).realm.describeException c.getValue)
  return c

/-- Reports a throw that may have happened where it was reached. -/
def reportPossibleThrow (e : PossibleExit) : Run Unit := do
  if e.completion.isThrow then
    let text := (← get).realm.describeException e.completion.getValue
    report ⟨.possiblyUncaught, "Possibly uncaught " ++ text, e.location, e.stack⟩

/-- Reports the throws that may have happened and that no `try` has claimed. -/
def reportPossibleThrows : Run Unit := do
  let exits ← modifyGet fun m => (m.exits, m.dropExits)
  exits.toList.forM reportPossibleThrow

/-- Calls a function that was never called, with unknown operands, as something that may or may not
happen. -/
def visitFunction (f : ObjectId) : Run Unit := do
  if f ∈ (← get).invoked then return
  match (← object f).callable with
  | some (.script closure) =>
    let arguments := closure.code.parameters.map fun _ => Value.unknown
    let _ ← ambiguously closure.code.span (callObject f .unknown arguments)
  | _ => return

/-- Visits functions in order of creation from an index on, at most a number of them. Functions that
are created meanwhile are visited too. -/
def visitFunctions : Nat → Nat → Run Unit
  | 0, _ => return
  | steps + 1, index => do
    match (← get).scripts[index]? with
    | none => return
    | some f =>
      visitFunction f
      visitFunctions steps (index + 1)

end Eval

open Eval

/-- Evaluates a program. -/
def Program.evaluate (p : Program) : Run Completion := ruled .program p.span (runProgram p.body)

end AbstractScript
