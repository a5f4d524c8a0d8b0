/-!
# Doubles as dyadic rationals

A finite double is a sign and a magnitude `mantissa · 2 ^ exponent` with a natural mantissa. Exact
work on doubles (printing, truncation, remainders) is done on these two integers.
-/
namespace AbstractScript.Number

/-! ## Powers

The powers of two and ten that number formats are made of.
-/

/-- Two to the power `n`. -/
def twoTo (n : Nat) : Nat := Nat.pow 2 n

/-- Ten to the power `n`. -/
def tenTo (n : Nat) : Nat := Nat.pow 10 n

/-! ## Doubles -/

/-- The magnitude `mantissa · 2 ^ exponent`. -/
structure Dyadic where
  mantissa : Nat
  exponent : Int
  deriving DecidableEq, Repr

/-- The sign bit, set for negative zero too. -/
def isNegative (x : Float) : Bool := x.toBits.toNat / twoTo 63 = 1

/-- The exponent field of the binary representation. -/
def exponentField (x : Float) : Nat := x.toBits.toNat / twoTo 52 % twoTo 11

/-- The fraction field of the binary representation. -/
def fractionField (x : Float) : Nat := x.toBits.toNat % twoTo 52

/-- The magnitude of a finite double, with the exponent the format stores it under. -/
def dyadic (x : Float) : Dyadic :=
  if exponentField x = 0 then ⟨fractionField x, -1074⟩
  else ⟨twoTo 52 + fractionField x, exponentField x - 1075⟩

/-- The whole part of a magnitude. -/
def Dyadic.floor (d : Dyadic) : Nat :=
  if 0 ≤ d.exponent then d.mantissa * twoTo d.exponent.toNat
  else d.mantissa / twoTo (-d.exponent).toNat

/-- True if a magnitude has no fraction. -/
def Dyadic.isWhole (d : Dyadic) : Bool :=
  0 ≤ d.exponent || d.mantissa % twoTo (-d.exponent).toNat = 0

/-- The double with the given sign and a natural magnitude. -/
def ofSignedNat (negative : Bool) (n : Nat) : Float :=
  if negative then -(Float.ofNat n) else Float.ofNat n

/-- True for neither an infinity nor NaN. -/
def isFinite (x : Float) : Bool := exponentField x ≠ 2047

end AbstractScript.Number
