import AbstractScript.Builtin.Receiver
import AbstractScript.Number.Text

/-!
# Functions on primitives

The constructors `Boolean`, `Number` and `String` convert their argument, and with `new` wrap the
result in an object. Their methods accept a primitive as well as such an object. Positions in a
string are counted in code units.
-/
namespace AbstractScript.Builtin

open Eval

/-! ## Booleans -/

/-- The truth value of the argument. -/
def booleanCall : Behaviour := fun _ arguments =>
  return .ofBool? (argument arguments 0).toBool?

/-- A Boolean object for the truth value of the argument. -/
def booleanConstruct : Behaviour := fun this arguments => do wrap (← booleanCall this arguments)

/-- The text of a truth value. -/
def booleanToString : Behaviour := fun this _ => do
  match ← primitiveOf? .boolean this with
  | some (.bool b) => return .string (if b then "true" else "false")
  | _ => return .unknown

/-! ## Numbers -/

section

variable [Natives]

/-- The number that the argument converts to, zero without an argument. -/
def numberCall : Behaviour := fun _ arguments =>
  match arguments with
  | [] => return .number 0
  | v :: _ => return .ofNumber? (← Op.toNumber? v)

/-- A Number object for the number that the argument converts to. -/
def numberConstruct : Behaviour := fun this arguments => do wrap (← numberCall this arguments)

/-- The radix that an argument asks for, ten if there is none. -/
def radix? (v : Value) : Op (Option Float) :=
  match v with
  | .undefined => return some 10
  | v => toInteger? v

/-- The text of a number in a radix. -/
def numberToString : Behaviour := fun this arguments => do
  match ← primitiveOf? .number this with
  | some (.number x) =>
    let some radix ← radix? (argument arguments 0) | return .unknown
    if !(2 ≤ radix && radix ≤ 36) then
      Op.rangeError "toString() radix must be between 2 and 36"
    if radix == 10 || !Number.isFinite x then return .string (Number.text x)
    else return .string (Number.radixText x (Number.truncate radix).toNat)
  | _ => return .unknown

/-! ## Strings -/

/-- The text that the argument converts to, empty without an argument. -/
def stringCall : Behaviour := fun _ arguments =>
  match arguments with
  | [] => return .string ""
  | v :: _ => return .ofString? (← Op.toText? v)

/-- A String object for the text that the argument converts to. -/
def stringConstruct : Behaviour := fun this arguments => do wrap (← stringCall this arguments)

/-- The code units of the receiver, if it is known. -/
def unitsOf? (this : Value) : Op (Option (List UInt16)) := do
  match ← primitiveOf? .string this with
  | some (.string s) => return some (Text.units s)
  | _ => return none

/-- The code unit at a position, empty outside of the string. -/
def unitAt (units : List UInt16) (position : Float) : String :=
  if position < 0 then ""
  else match units[(Number.truncate position).toNat]? with
    | some u => Text.ofUnit u
    | none => ""

/-- The code unit at a position. -/
def charAt : Behaviour := fun this arguments => do
  let some units ← unitsOf? this | return .unknown
  let some position ← toInteger? (argument arguments 0) | return .unknown
  return .string (unitAt units position)

/-- A position moved into a string of a given length. -/
def clampPosition (length : Nat) (position : Float) : Nat :=
  min (Number.truncate position).toNat length

/-- The first position of a text at or after a start, as a number; minus one if there is none. -/
def indexIn (units search : List UInt16) (start : Float) : Value :=
  match Text.indexOf? units.toArray search.toArray (clampPosition units.length start) with
  | some i => .nat i
  | none => .number (-1)

/-- The first position at or after a start at which a text occurs. -/
def indexOf : Behaviour := fun this arguments => do
  let some units ← unitsOf? this | return .unknown
  let some search ← Op.toText? (argument arguments 0) | return .unknown
  let some start ← toInteger? (argument arguments 1) | return .unknown
  return indexIn units (Text.units search) start

end

end AbstractScript.Builtin
