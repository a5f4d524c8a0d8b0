import AbstractScript.Builtin.Receiver
import AbstractScript.Operation.Reflection

/-!
# Functions on objects

The constructor `Object`, its functions that inspect and define properties, and the methods that
every object inherits.
-/
namespace AbstractScript.Builtin

open Eval

/-! ## Construction -/

/-- An object for any value: a new one for undefined and null. -/
def objectCall : Behaviour := fun _ arguments => do
  let v := argument arguments 0
  if v.isNullish then return .object (← createPlain) else wrap v

/-! ## Inspection -/

/-- The prototype of an object, null if it has none. -/
def getPrototypeOf : Behaviour := fun _ arguments => do
  let o ← requireObject (argument arguments 0)
  match (← object o).prototype with
  | some p => return .object p
  | none => return .null

/-- Names as an array of strings. -/
def nameArray (names : List String) : Op Value := .object <$> createArray (names.map .string)

/-- The names of all own properties. -/
def getOwnPropertyNames : Behaviour := fun _ arguments => do
  let o ← requireObject (argument arguments 0)
  nameArray (← object o).keys

/-- The names of the own properties that are listed. -/
def keys : Behaviour := fun _ arguments => do
  let o ← requireObject (argument arguments 0)
  nameArray (← object o).enumerableKeys

/-- True if an object can get no more properties and each is of a certain form. -/
def isClosed (p : Descriptor → Bool) : Behaviour := fun _ arguments => do
  let o ← requireObject (argument arguments 0)
  let record ← object o
  return .bool (record.properties.toList.all (p ·.2) && !record.extensible)

/-- True if no property can be added, removed or defined anew. -/
def isSealed : Behaviour := isClosed fun d => !d.isConfigurable

/-- True if no property can be changed in any way. -/
def isFrozen : Behaviour := isClosed fun d => !d.isConfigurable && !d.isWritable

/-- True if properties can be added. -/
def isExtensible : Behaviour := fun _ arguments => do
  let o ← requireObject (argument arguments 0)
  return .bool (← object o).extensible

/-- The class of a receiver in brackets. -/
def objectToString : Behaviour := fun this _ => do
  match this with
  | .undefined => return .string "[object Undefined]"
  | .null => return .string "[object Null]"
  | _ =>
    match ← Op.toObject? this with
    | some o => return .string ("[object " ++ (← object o).cls.name ++ "]")
    | none => return .unknown

/-- The receiver as an object. -/
def objectValueOf : Behaviour := fun this _ => wrap this

/-- True if the receiver is on the prototype chain of an object. -/
def isPrototypeOf : Behaviour := fun this arguments => do
  match argument arguments 0 with
  | .object o =>
    match ← Op.toObject? this with
    | some p => return .bool ((← get).realm.inheritsFrom o p)
    | none => return .unknown
  | _ => return .bool false

section

variable [Natives]

/-- A test of an own property of the receiver. -/
def testOwn (p : Option Descriptor → Bool) : Behaviour := fun this arguments => do
  match ← Op.toText? (argument arguments 0) with
  | none => return .unknown
  | some name =>
    match ← Op.toObject? this with
    | some o => return .bool (p ((← object o).own? name))
    | none => return .unknown

/-- True if the receiver itself has a property. -/
def hasOwnProperty : Behaviour := testOwn Option.isSome

/-- True if the receiver itself has a property that is listed. -/
def propertyIsEnumerable : Behaviour := testOwn (Option.any Descriptor.isEnumerable)

/-- An own property as an object. -/
def getOwnPropertyDescriptor : Behaviour := fun _ arguments => do
  let o ← requireObject (argument arguments 0)
  match ← Op.toText? (argument arguments 1) with
  | some name => Op.describe? ((← object o).own? name)
  | none => return .unknown

/-! ## Definition -/

/-- Defines a property as a description says. -/
def defineProperty : Behaviour := fun _ arguments => do
  let o ← requireObject (argument arguments 0)
  let some name ← Op.toText? (argument arguments 1) | return .unknown
  let some d ← Op.toDefinition? (argument arguments 2) | return .unknown
  let _ ← Op.define o name d true
  return .object o

/-- Reads the descriptions that an object holds under some names, unless one is unknown. -/
def readDefinitions (bag : ObjectId) : List String → Op (Option (List (String × Definition)))
  | [] => return some []
  | name :: rest => do
    let some d ← Op.toDefinition? (← Op.get bag name) | return none
    let some ds ← readDefinitions bag rest | return none
    return some ((name, d) :: ds)

/-- Defines properties in order, up to the first that is rejected. -/
def defineAll (o : ObjectId) (ds : List (String × Definition)) : Op Unit :=
  ds.forM fun (name, d) => do
    let _ ← Op.define o name d true

/-- Reads all descriptions that an object holds and then defines the properties. -/
def applyDescriptions (o : ObjectId) (descriptions : Value) : Op Value := do
  let some bag ← Op.toObject? descriptions | return .unknown
  let some ds ← readDefinitions bag (← object bag).enumerableKeys | return .unknown
  defineAll o ds
  return .object o

/-- Defines the properties that an object describes. -/
def defineProperties : Behaviour := fun _ arguments => do
  let o ← requireObject (argument arguments 0)
  applyDescriptions o (argument arguments 1)

/-- A prototype: an object, or none for null. -/
def asPrototype (v : Value) : Op (Option ObjectId) :=
  match v with
  | .object p => return some p
  | .null => return none
  | _ => Op.typeError "Object prototype may only be an Object or null"

/-- A new object with a given prototype and described properties. -/
def createWith : Behaviour := fun _ arguments => do
  let o ← createObject .object (← asPrototype (argument arguments 0))
  match argument arguments 1 with
  | .undefined => return .object o
  | descriptions => applyDescriptions o descriptions

/-! ## Integrity -/

/-- Forbids further properties. -/
def preventExtensions : Behaviour := fun _ arguments => do
  let o ← requireObject (argument arguments 0)
  modifyObject o (·.preventExtensions)
  return .object o

/-- Restricts every property and forbids further ones. -/
def close (restrict : Descriptor → Definition) : Behaviour := fun _ arguments => do
  let o ← requireObject (argument arguments 0)
  (← object o).keys.forM fun name => do
    if let some d := (← object o).own? name then
      let _ ← Op.define o name (restrict d) true
  modifyObject o (·.preventExtensions)
  return .object o

/-- The definition that keeps a property from being removed or defined anew. -/
def sealing : Definition := Definition.empty.withConfigurable false

/-- The definition that keeps a property from any change. -/
def freezing (d : Descriptor) : Definition :=
  if d.isData then sealing.withWritable false else sealing

/-- Keeps properties from being added, removed or defined anew. -/
def sealObject : Behaviour := close fun _ => sealing

/-- Keeps properties from any change. -/
def freezeObject : Behaviour := close freezing

end

end AbstractScript.Builtin
