import AbstractScript.Evaluation.Loop

/-!
# Rules for statements

What each kind of statement does, given its parts as computations. After a statement that may have
exited, the statements after it may or may not happen.
-/
namespace AbstractScript

open Eval

/-- A statement with its place. -/
structure Step where
  span : Span
  run : Run Completion

/-- Evaluates statements in order, up to one that does not complete normally. The value is that of
the last statement that has one. -/
def Step.runAll (value : Option Value) : List Step → Run Completion
  | [] => return .finished value
  | s :: rest => do
    let mark ← mark
    let c ← s.run
    if c.isAbrupt then return c.updateEmpty value
    let value := c.value <|> value
    if ← hasExitsSince mark then
      match rest with
      | [] => return .finished value
      | next :: _ =>
        let _ ← ambiguously next.span (runAll none rest)
        return .finished value
    else runAll value rest

namespace Rule

/-! ## Simple statements -/

/-- An expression as a statement. -/
def expression (x : Run Completion) : Rule Completion := do return .normal (← value x)

/-- A throw. -/
def throws (x : Run Completion) : Rule Completion := do return .throws (← value x)

/-- An expression whose value is not needed. -/
def discard (x : Run Completion) : Rule Unit := do
  let _ ← value x

/-- The initial values of variables. -/
def declarators : List (String × Option (Run Completion)) → Rule Unit
  | [] => return
  | (_, none) :: rest => declarators rest
  | (name, some x) :: rest => do
    let r ← resolve name
    let v ← value x
    native (Op.putValue r v)
    declarators rest

/-- A declaration of variables. Their names are bound already. -/
def varDeclaration (ds : List (String × Option (Run Completion))) : Rule Completion := do
  declarators ds
  return .empty

/-- A return. If it may or may not happen, evaluation goes on. -/
def returns (argument : Option (Run Completion)) : Rule Completion := do
  let v ← match argument with
    | some x => value x
    | none => pure .undefined
  if (← get).contexts.isAmbiguous then
    modify (·.markReturnUnknown)
    return .normal .undefined
  else return .returns v

/-- One of two statements, or both as something that may or may not happen. -/
def branch (span testSpan : Span) (test consequent : Run Completion)
    (alternate : Option (Run Completion)) : Rule Completion := do
  let alternate := alternate.getD (return .empty)
  match (← value test).toBool? with
  | some true => lift consequent
  | some false => lift alternate
  | none =>
    lift (markUnknown testSpan)
    lift (ambiguously span do
      note (← consequent)
      alternate)

/-! ## Loops -/

/-- A loop with a test, after what comes first. -/
def loop (testFirst : Bool) (start : Rule Unit) (l : Loop) : Rule Completion := do
  let labels ← lift takeLabels
  start
  lift (l.evaluate labels testFirst)

/-- A loop over names. -/
def nameLoop (l : NameLoop) : Rule Completion := do
  let labels ← lift takeLabels
  l.evaluate labels

end Rule

/-! ## Labels -/

/-- A statement with a label. The label is passed on to loops, switches and labelled statements. -/
def Eval.labeled (label : String) (passesOn : Bool) (body : Run Completion) : Run Completion := do
  modify fun m => { m with labels := if passesOn then m.labels ++ [label] else [] }
  let mark ← mark
  let c ← body
  let _ ← claim mark (Completion.leavesLabel label)
  return if c.leavesLabel label then .finished c.value else c

/-! ## Switches -/

/-- A case of a switch. -/
structure Case where
  /-- The test with its span; the default case has none. -/
  test : Option (Span × Run Completion)
  body : List Step

/-- Which cases of a switch are run. -/
inductive Selection where
  /-- A case and those after it, or none. -/
  | cases (cs : List Case)
  | unknown

namespace Case

/-- The cases from the first whose test equals the input, or else from the default case. -/
def select (input : Value) (default : List Case) : List Case → Rule Selection
  | [] => return .cases default
  | c :: rest => do
    match c.test with
    | none => select input default rest
    | some (span, test) =>
      match Value.strictlyEqual? input (← Rule.value test) with
      | some true => return .cases (c :: rest)
      | some false => select input default rest
      | none =>
        Rule.lift (markUnknown span)
        return .unknown

/-- The default case and those after it. -/
def fromDefault (cs : List Case) : List Case := cs.dropWhile (·.test.isSome)

/-- Runs the bodies of all cases, each as something that may have exited. -/
def noteAll : List Case → Run Completion
  | [] => return .empty
  | c :: rest => do
    note (← Step.runAll none c.body)
    noteAll rest

/-- Evaluates all cases as something that may or may not happen. -/
def possibly (span : Span) (labels : List String) (cs : List Case) : Run Completion := do
  let mark ← mark
  let _ ← ambiguously span (noteAll cs)
  let _ ← claim mark (Completion.leavesSwitch labels)
  return .empty

/-- Runs cases one after the other, up to a break. After a case that may have left the switch, the
cases below it may or may not happen. -/
def fallThrough (span : Span) (labels : List String) : Option Value → List Case → Run Completion
  | value, [] => return .finished value
  | value, c :: rest => do
    let mark ← mark
    let completion ← Step.runAll none c.body
    let value := completion.value <|> value
    if completion.leavesSwitch labels then
      let _ ← claim mark (Completion.leavesSwitch labels)
      return .finished value
    if completion.isAbrupt then return completion.updateEmpty value
    if (← claim mark (Completion.leavesSwitch labels)).isEmpty then
      fallThrough span labels value rest
    else
      if !rest.isEmpty then
        let _ ← possibly span labels rest
      return .finished value

end Case

/-- A switch. -/
def Rule.switch (span inputSpan : Span) (input : Run Completion) (cs : List Case) :
    Rule Completion := do
  let labels ← lift takeLabels
  let v ← value input
  if v.isUnknown then
    lift (markUnknown inputSpan)
    lift (Case.possibly span labels cs)
  else
    match ← Case.select v (Case.fromDefault cs) cs with
    | .unknown => lift (Case.possibly span labels cs)
    | .cases [] => return .empty
    | .cases cs => lift (Case.fallThrough span labels none cs)

/-! ## Exceptions -/

/-- The handler of a `try`: its place, and what it does with an exception. -/
structure Handling where
  span : Span
  run : Value → Run Completion

namespace Eval

/-- Runs a computation with another environment for the look-up of names. -/
def inScope (e : EnvId) (x : Run Completion) : Run Completion := do
  let outer := (← get).lexicalEnv
  modify (·.setLexicalEnv e)
  ensuring x (·.setLexicalEnv outer)

/-- Runs a handler with the exception bound to a name. -/
def handle (name : String) (body : Run Completion) (thrown : Value) : Run Completion :=
  Rule.complete do
    let e ← Rule.lift (createEnvironment (.fresh (some (← get).lexicalEnv)))
    Rule.native (Op.createBinding e name false)
    Rule.native (Op.setBinding e name thrown)
    Rule.lift (inScope e body)

/-- Handles what the block of a `try` has thrown or may have thrown since a mark. -/
def handleThrows (mark : Nat) (c : Completion) (h : Handling) : Run Completion := do
  let possible ← claim mark Completion.isThrow
  if c.isThrow then h.run c.getValue
  else
    if !possible.isEmpty then
      let _ ← ambiguously h.span (h.run .unknown)
    return c

/-- Runs the last block of a `try`, which may replace the completion. -/
def finish (c : Completion) (finalizer : Run Completion) : Run Completion := do
  let mark ← mark
  let final ← finalizer
  modify fun m => m.recordOvertaken (c.isAbrupt && final.isNormal && mark < m.exits.size)
  return if final.isAbrupt then final else c

/-- The number of entries in the ledger. -/
def ledgerSize : Run Nat := return (← get).ledger.size

/-- Enters in the ledger that a block ends which began when the ledger had a size. -/
def markHandled (handled : Bool) (since : Nat) : Run Unit :=
  modify fun m => m.enterLedger handled (.handled (m.ledger.size - since))

/-- Runs the block of a `try`. The ledger tells the extent of the block of one with a handler. -/
def guarded (handled : Bool) (block : Run Completion) : Run Completion := do
  let since ← ledgerSize
  let c ← block
  markHandled handled since
  return c

/-- A `try`. -/
def tryBlock (block : Run Completion) (handler : Option Handling)
    (finalizer : Option (Run Completion)) : Run Completion := do
  let mark ← mark
  let c ← guarded handler.isSome block
  let c ← match handler with
    | some h => handleThrows mark c h
    | none => pure c
  match finalizer with
  | some f => finish c f
  | none => return c

end Eval

end AbstractScript
