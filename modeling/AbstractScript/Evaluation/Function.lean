import AbstractScript.Builtin.Dispatch
import AbstractScript.Evaluation.Exit
import AbstractScript.Evaluation.Rule
import AbstractScript.Operation.Binding
import AbstractScript.Syntax.Hoisting

/-!
# Functions and calls

A function of the program is created with the environment around it and with a prototype for its
instances. A call binds parameters, function declarations, `arguments` and variables in a new
environment and then runs the body. Only throws leave a call as they are; a call that may have
returned gives an unknown value.
-/
namespace AbstractScript

namespace Realm

/-- The object that holds the arguments of a call. -/
def argumentsRecord (level : Nat) (arguments : List Value) : ObjectRecord :=
  { cls := .arguments
    prototype := some Intrinsic.objectPrototype.id
    properties := (Table.indexed (arguments.map Descriptor.plain)).insert "length"
      (.hidden (.nat arguments.length))
    createdLevel := level }

end Realm

open Eval

/-! ## Creation -/

/-- Creates a function of the program. -/
def Eval.createScript {ε : Type} (code : FunctionCode) (scope : EnvId) : Eval ε ObjectId := do
  let f ← createFunction (.script ⟨code, scope⟩)
  let p ← createPlain
  modifyObject f fun r =>
    (r.store "length" (.fixed (.nat code.parameters.length))).store "prototype"
      (.data (.object p) true false false)
  modifyObject p (·.store "constructor" (.hidden (.object f)))
  modify (·.addScript f)
  return f

/-- Creates the function of a function expression. A named one can refer to itself by its name. -/
def Eval.createFunctionValue {ε : Type} (code : FunctionCode) : Eval ε ObjectId := do
  let scope := (← get).lexicalEnv
  match code.id with
  | none => createScript code scope
  | some id =>
    let e ← createEnvironment (.fresh (some scope))
    let f ← createScript code e
    Op.modifyBindings e fun b => (b.createImmutable id.name).fill id.name (.object f)
    return f

/-! ## Declarations -/

namespace Op

variable [Natives]

/-- Binds a name to undefined unless it is bound. -/
def declare (e : EnvId) (name : String) : Op Unit := do
  if !(← MonadState.get).realm.binds e name then createBinding e name false

/-- Binds names to undefined unless they are bound. -/
def declareAll (e : EnvId) (names : List String) : Op Unit := names.forM (declare e)

/-- Binds a function declaration to a new function. -/
def declareFunction (e : EnvId) (code : FunctionCode) : Op Unit := do
  let f ← createScript code (← MonadState.get).lexicalEnv
  declare e code.name
  setBinding e code.name (.object f)

/-- Binds `arguments` unless the name is bound. -/
def declareArguments (e : EnvId) (arguments : ObjectId) : Op Unit := do
  if !(← MonadState.get).realm.binds e "arguments" then
    createBinding e "arguments" false
    setBinding e "arguments" (.object arguments)

/-- Binds what a body declares: its functions, `arguments` and its variables. -/
def instantiate (e : EnvId) (body : List Statement) (arguments : Option ObjectId) : Op Unit := do
  (hoistedFunctions body).forM (declareFunction e)
  if let some o := arguments then declareArguments e o
  declareAll e (varNames body)

/-- Binds parameters to arguments. A parameter without an argument is undefined. -/
def bindParameters (e : EnvId) : List Identifier → List Value → Op Unit
  | [], _ => return
  | p :: rest, arguments => do
    declare e p.name
    setBinding e p.name (arguments.headD .undefined)
    bindParameters e rest arguments.tail

end Op

/-! ## Calls -/

/-- A way to call functions of the program: the function, its code with its scope, the receiver and
the arguments. -/
abbrev ScriptCall := ObjectId → Closure → Value → List Value → Run Completion

namespace Eval

/-- The receiver that a function of the program sees. -/
def scriptReceiver (this : Value) : Run Value := do
  match this with
  | .undefined | .null => return .object Realm.globalObject
  | .unknown | .object _ => return this
  | _ =>
    match ← (Op.toObject? this).attempt with
    | .ok (some o) => return .object o
    | _ => return .unknown

/-- Binds what a call binds. -/
def enterBody (code : FunctionCode) (e : EnvId) (arguments : List Value) : Run Unit := do
  let o ← create (Realm.argumentsRecord · arguments)
  let bind : Op Unit := do
    Op.bindParameters e code.parameters arguments
    Op.instantiate e code.body (some o)
  match ← bind.attempt with
  | .ok _ => return
  | .error error => reportError error

/-- How a call ends, given how its body ended and whether it may have returned before. -/
def callResult (c : Completion) (returnUnknown : Bool) : Completion :=
  if c.isThrow then c
  else if returnUnknown then .unknown
  else if c.kind = .returns then .normal c.getValue
  else .normal .undefined

/-- Runs a computation in a new context. Of the possible exits in it only throws are kept. -/
def inContext {α : Type} (c : Context) (x : Run α) : Run α := do
  let mark ← mark
  modify (·.pushContext c)
  ensuring x fun m => m.popContext.dropClaimed mark fun c => !c.isThrow

/-- Calls a function of the program whose body is given as a computation. -/
def callScript (body : Run Completion) : ScriptCall := fun f closure this arguments => do
  let receiver ← scriptReceiver this
  let e ← createEnvironment (.fresh (some closure.scope))
  inContext (.enter (some f) e receiver) do
    enterBody closure.code e arguments
    let c ← body
    return callResult c (← get).returnUnknown

/-- Records that a function is called. -/
def markInvoked (f : ObjectId) : Run Unit := modify (·.markInvoked f)

/-- Calls an object. A native function is not run for unknown operands. -/
def callFunction (call : ScriptCall) (f : ObjectId) (this : Value) (arguments : List Value) :
    Run Completion := do
  markInvoked f
  match (← object f).callable with
  | some (.native _ (some native) _) =>
    if this.isUnknown || Value.anyUnknown arguments then return .unknown
    else recover (Completion.normal <$> native.call this arguments)
  | some (.native name none _) => recover (Op.typeError (name ++ " is not a function"))
  | some (.script closure) => call f closure this arguments
  | none => recover (Op.typeError "Value is not a function")

/-- The prototype of the objects that a function creates. -/
def instancePrototype (f : ObjectId) : Op ObjectId := do
  match ← Op.get f "prototype" with
  | .object p => return p
  | _ => return Intrinsic.objectPrototype.id

/-- How `new` ends: with the object that the function returned, or else with the new object. -/
def constructResult (o : ObjectId) (c : Completion) : Completion :=
  if c.isAbrupt then c
  else if c.getValue.isObject then .normal c.getValue
  else .normal (.object o)

/-- Creates an object with a constructor. -/
def construct (call : ScriptCall) (f : ObjectId) (arguments : List Value) : Run Completion := do
  markInvoked f
  match (← object f).callable with
  | some (.native _ _ (some native)) =>
    if Value.anyUnknown arguments then return .unknown
    else recover (Completion.normal <$> native.call .undefined arguments)
  | some (.script closure) => Rule.complete do
    let p ← Rule.native (instancePrototype f)
    let o ← Rule.lift (createObject .object (some p))
    return constructResult o (← Rule.lift (call f closure (.object o) arguments))
  | _ => recover (Op.typeError "Value is not a constructor")

end Eval

end AbstractScript
