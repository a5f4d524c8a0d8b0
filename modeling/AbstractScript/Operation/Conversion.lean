import AbstractScript.Machine

/-!
# Conversions of objects

Objects convert to primitives by their `valueOf` and `toString` methods. Only native methods are
run: a method of the program, or one that is reached through an accessor, gives an unknown value.
-/
namespace AbstractScript

/-- A way to run native functions: the function, its receiver and its arguments. -/
class Natives where
  call : Native → Value → List Value → Op Value

/-- Which primitive is wanted. -/
inductive Hint where
  | default
  | string
  | number
  deriving DecidableEq, Repr

/-- The methods that convert an object, in the order in which they are tried. -/
def Hint.methods : Hint → List String
  | .string => ["toString", "valueOf"]
  | _ => ["valueOf", "toString"]

namespace Op

open Eval

/-- Fails with a type error. -/
def typeError {α : Type} (message : String) : Op α := throw (.typeError message)

/-- Fails with a range error. -/
def rangeError {α : Type} (message : String) : Op α := throw (.rangeError message)

/-- A property that is found on an object or its prototypes. -/
def property? (o : ObjectId) (name : String) : Op (Option Descriptor) :=
  return (← get).realm.property? o name

/-- True if a property is found on an object or its prototypes. -/
def hasProperty (o : ObjectId) (name : String) : Op Bool :=
  return (← get).realm.hasProperty o name

section

variable [Natives]

/-- Converts an object by the first method that gives a primitive. -/
def convertBy (o : ObjectId) : List String → Op Value
  | [] => typeError "Cannot convert object to primitive value"
  | method :: rest => do
    match ← property? o method with
    | none => convertBy o rest
    | some (.accessor ..) => return .unknown
    | some (.data .unknown ..) => return .unknown
    | some (.data (.object f) ..) =>
      match (← object f).callable with
      | some (.native _ (some native) _) =>
        let v ← Natives.call native (.object o) []
        if v.isObject then convertBy o rest else return v
      | some _ => return .unknown
      | none => convertBy o rest
    | some (.data ..) => convertBy o rest

/-- The primitive that a value converts to. -/
def toPrimitive (v : Value) (hint : Hint) : Op Value :=
  match v with
  | .object o => convertBy o hint.methods
  | v => return v

/-- The number that a value converts to, if it can be determined. -/
def toNumber? (v : Value) : Op (Option Float) := do
  return (← toPrimitive v .number).primitiveToNumber?

/-- The text that a value converts to, if it can be determined. -/
def toText? (v : Value) : Op (Option String) := do
  return (← toPrimitive v .string).primitiveToString?

end

/-- The object that a value converts to: itself, or a new wrapper of a primitive. -/
def toObject? (v : Value) : Op (Option ObjectId) :=
  match v with
  | .object o => return some o
  | .unknown => return none
  | .bool _ =>
    some <$> create fun level =>
      { cls := .boolean, prototype := some Intrinsic.booleanPrototype.id, primitive := some v,
        createdLevel := level }
  | .number _ =>
    some <$> create fun level =>
      { cls := .number, prototype := some Intrinsic.numberPrototype.id, primitive := some v,
        createdLevel := level }
  | .string s => some <$> create (Realm.stringRecord · s)
  | .undefined | .null => typeError ("'" ++ v.display ++ "' cannot be converted to object")

end Op

end AbstractScript
