import AbstractScript.Operation.Property

/-!
# Receivers and arguments

What the functions of the core objects do with their receiver and their arguments before their own
work begins.
-/
namespace AbstractScript

/-- What a native function does with its receiver and its arguments. -/
abbrev Behaviour := Value → List Value → Op Value

namespace Builtin

open Eval

/-- An argument, undefined if it was not passed. -/
def argument (arguments : List Value) (index : Nat) : Value := arguments.getD index .undefined

/-- A value that has to be an object. -/
def requireObject (v : Value) : Op ObjectId :=
  match v with
  | .object o => return o
  | _ => Op.typeError "Value is not an object"

/-- The object that a value converts to, as a value. -/
def wrap (v : Value) : Op Value := do
  match ← Op.toObject? v with
  | some o => return .object o
  | none => return .unknown

/-- The primitive of a class that a receiver is or holds, if it is known. -/
def primitiveOf? (cls : ObjectClass) (this : Value) : Op (Option Value) := do
  match this, cls with
  | .unknown, _ => return none
  | .bool _, .boolean | .number _, .number | .string _, .string => return some this
  | .object o, _ =>
    let record ← object o
    if record.cls = cls then return record.primitive else incompatible
  | _, _ => incompatible
where
  /-- Fails, since the receiver has no such primitive. -/
  incompatible : Op (Option Value) :=
    Op.typeError (cls.name ++ ".prototype method called on incompatible receiver")

/-- The primitive of a class that a receiver is or holds. -/
def valueOf (cls : ObjectClass) : Behaviour := fun this _ => do
  return (← primitiveOf? cls this).getD .unknown

/-- True if a loop over a length stays within the limit for loops; it is reported if not. -/
def withinLimit (length : Nat) : Op Bool := do
  if (← setup (·.options.maxLoopIterations)) < length then
    reportMaxIterations
    return false
  else return true

variable [Natives]

/-- The number that a value converts to, without its fraction. -/
def toInteger? (v : Value) : Op (Option Float) := do
  return (← Op.toNumber? v).map Number.toInteger

end Builtin

end AbstractScript
