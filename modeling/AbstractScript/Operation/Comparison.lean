import AbstractScript.Operation.Conversion
import AbstractScript.Text.Units

/-!
# Comparison with conversion

The equality of `==` and the order of `<`. Strings are ordered by their code units. A comparison is
undetermined if a value that it needs is unknown.
-/
namespace AbstractScript

/-- The order of two numbers, none if one of them is NaN. -/
def Number.compare? (x y : Float) : Option Ordering :=
  if x < y then some .lt
  else if x == y then some .eq
  else if y < x then some .gt
  else none

/-- The outcome of a comparison for order. -/
inductive Comparison where
  | ordered (o : Ordering)
  /-- One side is not a number. -/
  | unordered
  | unknown
  deriving DecidableEq, Repr

namespace Value

/-- Equality of two primitives with conversion. -/
def looselyEqual? : Value → Value → Option Bool
  | unknown, _ | _, unknown => none
  | undefined, undefined | undefined, null | null, undefined | null, null => some true
  | undefined, _ | null, _ | _, undefined | _, null => some false
  | string s, string t => some (s == t)
  | a, b =>
    match a.primitiveToNumber?, b.primitiveToNumber? with
    | some x, some y => some (x == y)
    | _, _ => none

/-- The order of two primitives. -/
def compare : Value → Value → Comparison
  | unknown, _ | _, unknown => .unknown
  | string s, string t => .ordered (Text.compareUnits s t)
  | a, b =>
    match a.primitiveToNumber?, b.primitiveToNumber? with
    | some x, some y =>
      match Number.compare? x y with
      | some o => .ordered o
      | none => .unordered
    | _, _ => .unknown

end Value

namespace Op

variable [Natives]

/-- True if an object has to be converted to compare it with a value. -/
def comparesByPrimitive (v : Value) : Bool := !v.isObject && !v.isUnknown && !v.isNullish

/-- The answer of `==`. An object is equal to itself only; compared with a primitive, it is
converted. -/
def looselyEqual? (a b : Value) : Op (Option Bool) := do
  match a, b with
  | .object o, .object p => return some (o == p)
  | .object _, b =>
    if comparesByPrimitive b then return Value.looselyEqual? (← toPrimitive a .default) b
    else return if b.isUnknown then none else some false
  | a, .object _ =>
    if comparesByPrimitive a then return Value.looselyEqual? a (← toPrimitive b .default)
    else return if a.isUnknown then none else some false
  | a, b => return Value.looselyEqual? a b

/-- The order of two values, both converted to primitives. -/
def compare (a b : Value) : Op Comparison := do
  let a ← toPrimitive a .number
  let b ← toPrimitive b .number
  return Value.compare a b

end Op

end AbstractScript
