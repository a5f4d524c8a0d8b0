import AbstractScript.Evaluation.Expression

/-!
# Loops

A loop is evaluated pass by pass while its test is known, up to the limit for loops. It is given up
if the test is unknown, if the limit is reached or if a pass may have left the loop: then its body
is evaluated once more as something that may or may not happen.
-/
namespace AbstractScript

open Eval

/-- What follows a pass of a loop. -/
inductive Pass where
  /-- The loop has ended. -/
  | ended (c : Completion)
  /-- The loop goes on, with its value so far. -/
  | next (value : Option Value)

namespace Eval

/-- Takes the labels of the statement that is being evaluated. -/
def takeLabels : Run (List String) := modifyGet fun m => (m.labels, { m with labels := [] })

/-- Forgets the possible exits since a mark that leave or continue a loop. -/
def claimPasses (labels : List String) (mark : Nat) : Run Unit := do
  let _ ← claim mark (Completion.endsPass labels)

/-- What follows a pass whose body ended with a completion. If the pass may have left the loop, the
rest of the loop is evaluated by `rest`. -/
def afterBody (labels : List String) (mark : Nat) (value : Option Value) (c : Completion)
    (rest : Run Unit) : Run Pass := do
  let value := c.value <|> value
  if c.isNormal || (c.kind = .continues && c.targets labels) then
    if ← hasExitsSince mark then
      claimPasses labels mark
      rest
      return .ended (.finished value)
    else return .next value
  else if c.kind = .breaks && c.targets labels then
    claimPasses labels mark
    return .ended (.finished value)
  else return .ended (c.updateEmpty value)

end Eval

/-! ## Loops with a test -/

/-- The parts of a `while`, `do` or `for` loop. -/
structure Loop where
  span : Span
  /-- The test with its span; a loop without a test goes on. -/
  test : Option (Span × Run Completion)
  update : Option (Run Completion)
  body : Run Completion

/-- What the test of a loop says. -/
inductive LoopTest where
  | goOn
  | stop
  | unknown
  /-- The test ended with a completion that is not normal. -/
  | abrupt (c : Completion)

namespace Loop

/-- Evaluates the test. -/
def check (l : Loop) : Run LoopTest := do
  match l.test with
  | none => return .goOn
  | some (span, test) =>
    let c ← test
    if c.isAbrupt then return .abrupt c
    match c.getValue.toBool? with
    | some true => return .goOn
    | some false => return .stop
    | none =>
      markUnknown span
      return .unknown

/-- The body and then the update, unless the body ends the pass. -/
def bodyAndUpdate (l : Loop) : Run Completion := do
  let c ← l.body
  if c.isAbrupt then return c
  if let some update := l.update then
    let _ ← update
  return .empty

/-- Evaluates the body once as something that may or may not happen. -/
def representative (l : Loop) (labels : List String) : Run Unit := do
  let mark ← mark
  let _ ← ambiguously l.span l.bodyAndUpdate
  claimPasses labels mark

/-- Evaluates computations in order, up to one that does not complete normally. -/
def inOrder : List (Run Completion) → Run Completion
  | [] => return .empty
  | x :: rest => do
    let c ← x
    if c.isAbrupt then return c else inOrder rest

/-- The update and the test. -/
def updateAndTest (l : Loop) : List (Run Completion) :=
  l.update.toList ++ (l.test.map (·.2)).toList

/-- Evaluates what is left of a loop that may have ended: all of it may or may not happen. -/
def remainder (l : Loop) (labels : List String) : Run Unit := do
  let _ ← ambiguously l.span (inOrder l.updateAndTest)
  l.representative labels

/-- Gives a loop up after evaluating its body once more. -/
def giveUp (l : Loop) (labels : List String) (value : Option Value) : Run Completion := do
  l.representative labels
  return .finished value

/-- The end of a loop before a pass: the test, unless it is skipped, may end it. -/
def beforeBody (l : Loop) (labels : List String) (tested : Bool) (value : Option Value) :
    Run (Option Completion) := do
  if !tested then return none
  match ← l.check with
  | .goOn => return none
  | .stop => return some (.finished value)
  | .unknown => return some (← l.giveUp labels value)
  | .abrupt c => return some c

/-- Reports that a loop has reached the limit, and gives it up. -/
def exceed (l : Loop) (labels : List String) (value : Option Value) : Run Completion := do
  reportMaxIterations
  l.giveUp labels value

/-- The body and the update of one pass. -/
def pass (l : Loop) (labels : List String) (mark : Nat) (value : Option Value) : Run Pass := do
  let c ← l.body
  match ← afterBody labels mark value c (l.remainder labels) with
  | .ended c => return .ended c
  | .next value =>
    match l.update with
    | none => return .next value
    | some update =>
      let c ← update
      return if c.isAbrupt then .ended c else .next value

/-- Evaluates a loop that can make a number of further passes. -/
def iterate (l : Loop) (labels : List String) : Nat → Bool → Option Value → Run Completion
  | 0, tested, value => do
    match ← l.beforeBody labels tested value with
    | some c => return c
    | none => l.exceed labels value
  | passes + 1, tested, value => do
    let mark ← mark
    match ← l.beforeBody labels tested value with
    | some c => return c
    | none =>
      match ← l.pass labels mark value with
      | .ended c => return c
      | .next value => l.iterate labels passes true value

/-- Evaluates the test and then the body once as something that may or may not happen. -/
def visitOnce (l : Loop) (labels : List String) : Run Completion := do
  match l.test with
  | none => l.giveUp labels none
  | some (span, test) =>
    let c ← test
    if c.isAbrupt then return c
    markUnknown span
    l.giveUp labels none

/-- Evaluates a loop. -/
def evaluate (l : Loop) (labels : List String) (testFirst : Bool) : Run Completion := do
  let options ← setup Setup.options
  if options.evaluateLoops then l.iterate labels options.maxLoopIterations testFirst none
  else l.visitOnce labels

end Loop

/-! ## Loops over names -/

/-- Assigns a name to the variable of a loop. -/
def Rule.assignName (target : Rule Reference) (v : Value) : Run Completion := Rule.complete do
  native (Op.putValue (← target) v)
  return .empty

/-- The parts of a `for-in` loop. -/
structure NameLoop where
  span : Span
  /-- Assigns to the loop variable. -/
  assign : Value → Run Completion
  object : Span × Run Completion
  body : Run Completion

namespace NameLoop

/-- Evaluates the body once for an unknown name as something that may or may not happen. -/
def representative (l : NameLoop) (labels : List String) : Run Unit := do
  let mark ← mark
  let _ ← ambiguously l.span do
    let c ← l.assign .unknown
    if c.isAbrupt then return c else l.body
  claimPasses labels mark

/-- One pass for a name. -/
def pass (l : NameLoop) (labels : List String) (value : Option Value) (name : String) :
    Run Pass := do
  let mark ← mark
  let c ← l.assign (.string name)
  if c.isAbrupt then return .ended c
  let c ← l.body
  afterBody labels mark value c (l.representative labels)

/-- One pass for each name that the object still has, up to a number of passes. -/
def visit (l : NameLoop) (labels : List String) (o : ObjectId) :
    Nat → Option Value → List String → Run Completion
  | _, value, [] => return .finished value
  | passes, value, name :: rest => do
    if !(← get).realm.hasProperty o name then l.visit labels o passes value rest
    else match passes with
      | 0 =>
        reportMaxIterations
        l.representative labels
        return .finished value
      | passes + 1 =>
        match ← l.pass labels value name with
        | .ended c => return c
        | .next value => l.visit labels o passes value rest

/-- Visits the names of a value. -/
def visitValue (l : NameLoop) (labels : List String) (v : Value) : Rule Completion := do
  match v with
  | .undefined | .null => return .empty
  | .unknown =>
    Rule.lift (markUnknown l.object.1)
    Rule.lift (l.representative labels)
    return .empty
  | _ =>
    match ← Rule.native (Op.toObject? v) with
    | none => return .empty
    | some o =>
      let limit ← Rule.lift (setup (·.options.maxLoopIterations))
      let names := (← get).realm.enumerableNames o
      Rule.lift (l.visit labels o limit none names)

/-- Evaluates a loop. -/
def evaluate (l : NameLoop) (labels : List String) : Rule Completion := do
  let v ← Rule.value l.object.2
  if ← Rule.lift (setup (·.options.evaluateLoops)) then l.visitValue labels v
  else
    Rule.lift (l.representative labels)
    return .empty

end NameLoop

end AbstractScript
