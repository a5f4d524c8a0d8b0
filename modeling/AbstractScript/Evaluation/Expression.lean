import AbstractScript.Evaluation.Function
import AbstractScript.Operation.Arithmetic

/-!
# Rules for expressions

What each kind of expression does, given its parts as computations. An unknown operand makes the
result unknown. If a condition is unknown, what depends on it is evaluated as something that may or
may not happen.
-/
namespace AbstractScript

open Eval

/-- The value of a literal. -/
def LiteralValue.value : LiteralValue → Value
  | null => .null
  | bool b => .bool b
  | number x => .number x
  | string s => .string s

/-- What a called expression is called in messages. -/
def Expression.calleeText : Expression → String
  | .identifier id => id.name
  | .member _ base property => base.calleeText ++ "." ++ property.name
  | .index _ base _ => base.calleeText ++ "[...]"
  | .this _ => "this"
  | _ => "expression"

namespace Rule

/-! ## References -/

/-- What a name refers to. -/
def resolve (name : String) : Rule Reference := do
  let m ← get
  return m.realm.resolve m.lexicalEnv name

/-- The name that a value converts to. A native error is reported and makes the name unknown. -/
def propertyName (key : Value) : Rule (Option String) := do
  match ← lift (Op.toText? key).attempt with
  | .ok name => return name
  | .error e =>
    lift (reportError e)
    return none

/-- A property of a value. A property of undefined or null is an error. -/
def propertyOf (base : Value) (name : Option String) : Rule Reference := do
  if base.isNullish then
    lift (reportError (.typeError ("Cannot read property '" ++ name.getD "?" ++ "' of " ++
      base.display)))
    return .unknown
  match name with
  | some name => return .property base name
  | none => return .unknown

/-- A property with a name. -/
def memberReference (object : Run Completion) (name : String) : Rule Reference := do
  propertyOf (← value object) (some name)

/-- A property whose name is computed. -/
def indexReference (object key : Run Completion) : Rule Reference := do
  let base ← value object
  let key ← value key
  propertyOf base (← propertyName key)

/-- The value of a reference. -/
def read (reference : Rule Reference) : Rule Completion := do
  return .normal (← native (Op.getValue (← reference)))

/-! ## Literals -/

/-- An array literal. A missing element leaves a hole. -/
def elements : List (Option (Run Completion)) → Rule (List (Option Value))
  | [] => return []
  | none :: rest => return none :: (← elements rest)
  | some x :: rest => do
    let v ← value x
    return some v :: (← elements rest)

/-- The names of the holes of an array literal. -/
def holes (vs : List (Option Value)) : List String :=
  (vs.zipIdx.filter (·.1.isNone)).map fun (_, i) => Nat.repr i

/-- Creates the array of an array literal. -/
def arrayLiteral (xs : List (Option (Run Completion))) : Rule Completion := do
  let vs ← elements xs
  let o ← lift (createArray (vs.map (·.getD .undefined)))
  (holes vs).forM fun name => do
    let _ ← native (Op.delete o name false)
  return .normal (.object o)

/-- How an entry of an object literal defines its property. -/
abbrev Property := String × Rule Definition

/-- A property with a value. -/
def valueProperty (x : Run Completion) : Rule Definition := do return .plain (← value x)

/-- A property with a getter. -/
def getterProperty (code : FunctionCode) : Rule Definition := do
  let f ← lift (createScript code (← get).lexicalEnv)
  return ((Definition.empty.withGetter (some f)).withEnumerable true).withConfigurable true

/-- A property with a setter. -/
def setterProperty (code : FunctionCode) : Rule Definition := do
  let f ← lift (createScript code (← get).lexicalEnv)
  return ((Definition.empty.withSetter (some f)).withEnumerable true).withConfigurable true

/-- Creates the object of an object literal. -/
def objectLiteral (ps : List Property) : Rule Completion := do
  let o ← lift createPlain
  ps.forM fun (name, definition) => do
    let d ← definition
    let _ ← native (Op.define o name d false)
  return .normal (.object o)

/-! ## Operators with one operand -/

/-- The type of what is referred to. A name without a binding has type undefined. -/
def typeOfReference (reference : Rule Reference) : Rule Completion := do
  let r ← reference
  if r.isUnresolvable then return .normal (.string "undefined")
  let v ← native (Op.getValue r)
  return .normal (← native (Op.typeOf v))

/-- Removes a property. If that may or may not happen, the property becomes unknown instead. -/
def deleteProperty (o : ObjectId) (name : String) : Op Value := do
  if (← get).isAmbiguousWrite (← object o).createdLevel then
    if ((← object o).own? name).isSome then Op.put o name .unknown false
    return .unknown
  else return .bool (← Op.delete o name false)

/-- Removes what is referred to. -/
def deleteReference (r : Reference) : Op Value :=
  match r.base with
  | .unresolvable => return .bool true
  | .unknown | .value .unknown => return .unknown
  | .value (.object o) => deleteProperty o r.name
  | .value _ => return .bool true
  | .environment e => return .bool (← Op.deleteBinding e r.name)

/-- An operator before its operand, which is needed as a reference if it is a target and as a value
otherwise. -/
def unary (operator : UnaryOperator) (isTarget : Bool) (reference : Rule Reference)
    (x : Run Completion) : Rule Completion := do
  match operator with
  | .delete =>
    if isTarget then return .normal (← native (deleteReference (← reference)))
    else
      let _ ← value x
      return .normal (.bool true)
  | .typeOf =>
    if isTarget then typeOfReference reference
    else return .normal (← native (Op.typeOf (← value x)))
  | .void =>
    let _ ← value x
    return .normal .undefined
  | .logicalNot => return .normal (.ofBool? ((← value x).toBool?.map not))
  | .minus => return .normal (← native (Op.numericUnary (- ·) (← value x)))
  | .plus => return .normal (← native (Op.numericUnary id (← value x)))
  | .bitwiseNot => return .normal (← native (Op.numericUnary Number.bitNot (← value x)))

/-- The number that an operand becomes. -/
def updated (operator : UpdateOperator) (x : Float) : Float :=
  match operator with
  | .increment => x + 1
  | .decrement => x - 1

/-- Changes an operand by one. -/
def update (operator : UpdateOperator) (leading : Bool) (reference : Rule Reference) :
    Rule Completion := do
  let r ← reference
  let v ← native (Op.getValue r)
  match ← native (Op.toNumber? v) with
  | none => return .unknown
  | some old =>
    let new := updated operator old
    native (Op.putValue r (.number new))
    return .normal (.number (if leading then new else old))

/-! ## Operators with two operands -/

/-- An operator between two evaluated operands. -/
def binary (operator : BinaryOperator) (x y : Run Completion) : Rule Completion := do
  let a ← value x
  let b ← value y
  return .normal (← native (Op.apply operator a b))

/-- The value that an assignment stores. -/
def assigned (operator : AssignmentOperator) (r : Reference) (x : Run Completion) : Rule Value := do
  match operator with
  | .assign => value x
  | .compound operator =>
    let old ← native (Op.getValue r)
    let v ← value x
    native (Op.apply operator old v)

/-- An assignment. -/
def assignment (operator : AssignmentOperator) (reference : Rule Reference) (x : Run Completion) :
    Rule Completion := do
  let r ← reference
  let v ← assigned operator r x
  native (Op.putValue r v)
  return .normal v

/-- True if the left operand alone decides. -/
def decides (operator : LogicalOperator) (b : Bool) : Bool :=
  match operator with
  | .and => !b
  | .or => b

/-- An operator whose right operand is evaluated only if the left one does not decide. -/
def logical (operator : LogicalOperator) (span leftSpan : Span) (x y : Run Completion) :
    Rule Completion := do
  let v ← value x
  match v.toBool? with
  | some b => if decides operator b then return .normal v else return .normal (← value y)
  | none =>
    lift (markUnknown leftSpan)
    let _ ← lift (ambiguously span y)
    return .unknown

/-- Evaluates one of two expressions. -/
def conditional (span testSpan : Span) (test consequent alternate : Run Completion) :
    Rule Completion := do
  match (← value test).toBool? with
  | some true => lift consequent
  | some false => lift alternate
  | none =>
    lift (markUnknown testSpan)
    let _ ← lift (ambiguously span do
      let _ ← consequent
      alternate)
    return .unknown

/-- Expressions evaluated in order, with the value of the last one. -/
def sequence (xs : List (Run Completion)) : Rule Completion := do
  return .normal ((← values xs).getLastD .undefined)

/-! ## Calls -/

/-- The receiver of a call through a reference. -/
def receiver (r : Reference) : Rule Value := do
  match r.base with
  | .environment e => return (← get).realm.implicitThis e
  | _ => return r.thisValue

/-- The function of a call and its receiver. -/
def callee (isTarget : Bool) (reference : Rule Reference) (x : Run Completion) :
    Rule (Value × Value) := do
  if isTarget then
    let r ← reference
    let f ← native (Op.getValue r)
    return (f, ← receiver r)
  else return (← value x, .undefined)

/-- A call. -/
def call (script : ScriptCall) (text : String) (callee : Rule (Value × Value))
    (arguments : List (Run Completion)) : Rule Completion := do
  let (f, this) ← callee
  let arguments ← values arguments
  if f.isUnknown then return .unknown
  match f with
  | .object o =>
    if (← lift (object o)).isCallable then lift (callFunction script o this arguments)
    else native (Op.typeError (text ++ " is not a function"))
  | _ => native (Op.typeError (text ++ " is not a function"))

/-- The creation of an object. -/
def new (script : ScriptCall) (text : String) (callee : Run Completion)
    (arguments : List (Run Completion)) : Rule Completion := do
  let f ← value callee
  let arguments ← values arguments
  if f.isUnknown then return .unknown
  match f with
  | .object o =>
    if ((← lift (object o)).callable.map Callable.isConstructor).getD false then
      lift (construct script o arguments)
    else native (Op.typeError (text ++ " is not a constructor"))
  | _ => native (Op.typeError (text ++ " is not a constructor"))

end Rule

end AbstractScript
