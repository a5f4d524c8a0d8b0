import AbstractScript.Number.Integer
import AbstractScript.Number.Read
import AbstractScript.Operation.Comparison
import AbstractScript.Operation.Property

/-!
# Binary operators

What operators give for evaluated operands. An unknown operand makes the result unknown, before
anything is converted.
-/
namespace AbstractScript

namespace Number

/-! ## Remainders

The remainder of a division of doubles, exact and with the sign of the dividend.
-/

/-- The double `m · 2 ^ e` for a magnitude that a double holds exactly. -/
def ofDyadic (d : Dyadic) : Float :=
  if 0 ≤ d.exponent then Float.ofNat (d.mantissa * twoTo d.exponent.toNat)
  else Float.scaleB (Float.ofNat d.mantissa) d.exponent

/-- The remainder of two magnitudes, over the smaller of their exponents. -/
def Dyadic.remainder (a b : Dyadic) : Dyadic :=
  let e := min a.exponent b.exponent
  ⟨(a.mantissa * twoTo (a.exponent - e).toNat) % (b.mantissa * twoTo (b.exponent - e).toNat), e⟩

/-- The remainder of `x` by `y`: NaN for an infinite dividend or a zero divisor, the dividend for
an infinite divisor, and otherwise what truncated division leaves over. -/
def remainder (x y : Float) : Float :=
  if x.isNaN || y.isNaN || !isFinite x || y == 0 then nan
  else if !isFinite y then x
  else
    let r := ofDyadic ((dyadic x).remainder (dyadic y))
    if isNegative x then -r else r

/-! ## Bits -/

/-- The number of places to shift by: the lowest five bits. -/
def shiftCount (x : Float) : UInt32 := toUInt32 x &&& 31

/-- The number with its bits moved to the left. -/
def shiftLeft (x y : Float) : Float := ofInt32 (toUInt32 x <<< shiftCount y).toInt32

/-- The number with its bits moved to the right, keeping its sign. -/
def shiftRight (x y : Float) : Float := ofInt32 (toInt32 x >>> (shiftCount y).toInt32)

/-- The number with its bits moved to the right, without a sign. -/
def shiftRightUnsigned (x y : Float) : Float := ofUInt32 (toUInt32 x >>> shiftCount y)

/-- The number whose bits are those of both numbers. -/
def bitAnd (x y : Float) : Float := ofInt32 (toInt32 x &&& toInt32 y)

/-- The number whose bits are those of either number. -/
def bitOr (x y : Float) : Float := ofInt32 (toInt32 x ||| toInt32 y)

/-- The number whose bits are those in which the numbers differ. -/
def bitXor (x y : Float) : Float := ofInt32 (toInt32 x ^^^ toInt32 y)

/-- The number with all bits inverted. -/
def bitNot (x : Float) : Float := ofInt32 (~~~toInt32 x)

end Number

namespace Op

open Eval

variable [Natives]

/-- A function of two numbers, applied to values. -/
def numeric (f : Float → Float → Float) (a b : Value) : Op Value := do
  let x ← toNumber? a
  let y ← toNumber? b
  match x, y with
  | some x, some y => return .number (f x y)
  | _, _ => return .unknown

/-- A test of the order of two values. Unordered values fail every test. -/
def ordered (test : Ordering → Bool) (a b : Value) : Op Value := do
  match ← compare a b with
  | .ordered o => return .bool (test o)
  | .unordered => return .bool false
  | .unknown => return .unknown

/-- The sum of two primitives: text if one of them is a string, a number otherwise. -/
def addPrimitives (a b : Value) : Op Value :=
  match a, b with
  | .unknown, _ | _, .unknown => return .unknown
  | .string _, _ | _, .string _ =>
    match a.primitiveToString?, b.primitiveToString? with
    | some s, some t => return .string (s ++ t)
    | _, _ => return .unknown
  | _, _ => numeric (· + ·) a b

/-- The sum of two values. -/
def add (a b : Value) : Op Value := do
  let a ← toPrimitive a .default
  let b ← toPrimitive b .default
  addPrimitives a b

/-- True if an object has a property of the name that a value converts to. -/
def contains (key target : Value) : Op Value := do
  match target with
  | .object o =>
    match ← toText? key with
    | some name => return .bool (← hasProperty o name)
    | none => return .unknown
  | _ =>
    typeError ("Cannot use 'in' operator to search for '" ++ key.display ++ "' in " ++
      target.display)

/-- True if a value inherits from the `prototype` of a function. -/
def instanceOf (v constructor : Value) : Op Value := do
  match constructor with
  | .object f =>
    if !(← object f).isCallable then notCallable
    match v with
    | .object o =>
      match ← get f "prototype" with
      | .object p => return .bool ((← MonadState.get).realm.inheritsFrom o p)
      | .unknown => return .unknown
      | _ => typeError "Function has non-object prototype in instanceof check"
    | _ => return .bool false
  | _ => notCallable
where
  /-- Fails, since there is no function. -/
  notCallable {α : Type} : Op α := typeError "Right-hand side of 'instanceof' is not callable"

/-- What a binary operator gives for known operands. -/
def applyKnown (operator : BinaryOperator) (a b : Value) : Op Value :=
  match operator with
  | .strictlyEqual => return .ofBool? (Value.strictlyEqual? a b)
  | .strictlyUnequal => return .ofBool? ((Value.strictlyEqual? a b).map not)
  | .looselyEqual => return .ofBool? (← looselyEqual? a b)
  | .looselyUnequal => return .ofBool? ((← looselyEqual? a b).map not)
  | .lessThan => ordered (· == .lt) a b
  | .lessThanEqual => ordered (· != .gt) a b
  | .greaterThan => ordered (· == .gt) a b
  | .greaterThanEqual => ordered (· != .lt) a b
  | .add => add a b
  | .subtract => numeric (· - ·) a b
  | .multiply => numeric (· * ·) a b
  | .divide => numeric (· / ·) a b
  | .modulo => numeric Number.remainder a b
  | .leftShift => numeric Number.shiftLeft a b
  | .rightShift => numeric Number.shiftRight a b
  | .unsignedRightShift => numeric Number.shiftRightUnsigned a b
  | .bitwiseAnd => numeric Number.bitAnd a b
  | .bitwiseOr => numeric Number.bitOr a b
  | .bitwiseXor => numeric Number.bitXor a b
  | .contains => contains a b
  | .instanceOf => instanceOf a b

/-- What a binary operator gives. -/
def apply (operator : BinaryOperator) (a b : Value) : Op Value :=
  if Value.anyUnknown [a, b] then return .unknown else applyKnown operator a b

/-- What an operator gives that converts its operand to a number. -/
def numericUnary (f : Float → Float) (v : Value) : Op Value := do
  return .ofNumber? ((← toNumber? v).map f)

/-- The name of the type of a value. -/
def typeOf (v : Value) : Op Value :=
  return .ofString? ((← MonadState.get).realm.typeName? v)

end Op

end AbstractScript
