import AbstractScript.Json.Printer
import AbstractScript.Number.Read
import AbstractScript.Number.Text

/-!
# Values

The values of a program, and `unknown` for a value that cannot be determined without running it.
Conversions of primitives are partial: what they give for `unknown` is not determined either.
-/
namespace AbstractScript

/-- The place of an object in the object table. -/
@[ext] structure ObjectId where
  index : Nat
  deriving DecidableEq, Repr, Inhabited

/-- A value. -/
inductive Value where
  | undefined
  | null
  | bool (b : Bool)
  | number (x : Float)
  | string (s : String)
  | object (o : ObjectId)
  | unknown
  deriving DecidableEq, Repr, Inhabited

namespace Value

/-- True for `unknown` only. -/
def isUnknown : Value → Bool
  | unknown => true
  | _ => false

/-- True for objects. -/
def isObject : Value → Bool
  | object _ => true
  | _ => false

/-- True for undefined and null. -/
def isNullish : Value → Bool
  | undefined | null => true
  | _ => false

/-- The truth value as a value. -/
def ofBool? : Option Bool → Value
  | some b => bool b
  | none => unknown

/-- The number as a value. -/
def ofNumber? : Option Float → Value
  | some x => number x
  | none => unknown

/-- The text as a value. -/
def ofString? : Option String → Value
  | some s => string s
  | none => unknown

/-- The natural number as a value. -/
def nat (n : Nat) : Value := number (Float.ofNat n)

/-- True if one of the values is unknown. -/
def anyUnknown (vs : List Value) : Bool := vs.any isUnknown

/-! ## Comparison -/

/-- Equal numbers, where NaN equals itself and the two zeros differ. -/
def sameNumber (x y : Float) : Bool :=
  if x.isNaN && y.isNaN then true
  else x == y && Number.isNegative x == Number.isNegative y

/-- The same value. Unknown is the same as unknown only. -/
def same : Value → Value → Bool
  | undefined, undefined => true
  | null, null => true
  | bool a, bool b => a == b
  | number x, number y => sameNumber x y
  | string s, string t => s == t
  | object o, object p => o == p
  | unknown, unknown => true
  | _, _ => false

/-- Equality without conversion. NaN differs from itself and the two zeros are equal. -/
def equal : Value → Value → Bool
  | number x, number y => x == y
  | a, b => same a b

/-- The answer of `===`, if both sides are known. -/
def strictlyEqual? (a b : Value) : Option Bool :=
  if a.isUnknown || b.isUnknown then none else some (equal a b)

/-! ## Conversion -/

/-- The truth value of a value, if it is known. -/
def toBool? : Value → Option Bool
  | undefined | null => some false
  | bool b => some b
  | number x => some !(x == 0 || x.isNaN)
  | string s => some !s.isEmpty
  | object _ => some true
  | unknown => none

/-- The number that a primitive converts to. -/
def primitiveToNumber? : Value → Option Float
  | undefined => some Number.nan
  | null => some 0
  | bool b => some (if b then 1 else 0)
  | number x => some x
  | string s => some (Number.ofString s)
  | object _ | unknown => none

/-- The text that a primitive converts to. -/
def primitiveToString? : Value → Option String
  | undefined => some "undefined"
  | null => some "null"
  | bool b => some (if b then "true" else "false")
  | number x => some (Number.text x)
  | string s => some s
  | object _ | unknown => none

/-- The text of a value in messages. -/
def display : Value → String
  | undefined => "undefined"
  | null => "null"
  | bool b => if b then "true" else "false"
  | number x => Number.text x
  | string s => "\"" ++ s ++ "\""
  | object o => "object#" ++ Nat.repr o.index
  | unknown => "unknown"

/-- A value in a report. What JSON has no form for is given by its text. -/
def toJson : Value → Json
  | null => .null
  | bool b => .bool b
  | string s => .string s
  | number x =>
    if Number.isFinite x then .number (Number.documentText x) else .string (Number.text x)
  | v => .string v.display

end Value

end AbstractScript
