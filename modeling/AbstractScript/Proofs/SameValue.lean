import AbstractScript.Value
import Mathlib.Algebra.Group.Nat.Defs

/-!
# The same value

Two values that are the same value, as the definition of a property compares them, are equal: numbers
that compare as equal and have the same sign have the same bits, and there is one number that is not
a number (`Value.same_iff`). The bits of a number are a sign, an exponent and a mantissa; comparison
sees the last two.
-/
namespace AbstractScript

namespace Number

open Float.Model Float.Model.UnpackedFloat

/-! ## The fields of a number -/

/-- The format of doubles. -/
abbrev double : Format := .binary64

/-- The lowest 52 bits hold the mantissa. -/
theorem toNat_unpackMantissa (b : BitVec 64) :
    (@unpackMantissa double b).toNat = b.toNat % 2 ^ 52 := by
  simp [unpackMantissa, BitVec.extractLsb]

/-- The eleven bits above it hold the exponent. -/
theorem toNat_unpackExponent (b : BitVec 64) :
    (@unpackExponent double b).toNat = b.toNat / 2 ^ 52 % 2 ^ 11 := by
  simp [unpackExponent, BitVec.extractLsb, Nat.shiftRight_eq_div_pow]

/-- The exponent and mantissa fields of the bits that a number is unpacked from. -/
def fields : UnpackedFloat → Nat × Nat
  | .notANumber => (2047, 2 ^ 51)
  | .infinity _ => (2047, 0)
  | .zero _ => (0, 0)
  | .finite _ m e _ => if m < 2 ^ 52 then (0, m) else ((e + 1075).toNat, m - 2 ^ 52)

theorem fields_finite (s : Sign) (m : Nat) (e : Int) (positive : 0 < m) :
    fields (.finite s m e positive) =
      if m < 2 ^ 52 then (0, m) else ((e + 1075).toNat, m - 2 ^ 52) :=
  rfl

theorem fields_unpack {b : BitVec 64} (valid : double.Valid b) :
    fields (UnpackedFloat.unpack double b) = (b.toNat / 2 ^ 52 % 2 ^ 11, b.toNat % 2 ^ 52) := by
  have bias : ((double.exponentBias : Nat) : Int) = 1023 := rfl
  have small : (@unpackMantissa double b).toNat < 2 ^ 52 :=
    (@unpackMantissa double b).isLt
  rw [← toNat_unpackExponent, ← toNat_unpackMantissa]
  unfold UnpackedFloat.unpack
  dsimp only
  by_cases special : @unpackExponent double b = -1#(double.exponentBits)
  -- infinities and the one NaN
  · rw [if_pos special]
    by_cases mantissa : @unpackMantissa double b = 0#(double.mantissaBitsWithoutImplicit)
    · rw [if_pos mantissa, special, mantissa]
      rfl
    · have h := (congrArg (@unpackMantissa double) (valid.eq_packedNaN special mantissa)).trans
        unpackMantissa_packComponents
      rw [if_neg mantissa, special, h]
      rfl
  rw [if_neg special]
  by_cases exponent : @unpackExponent double b = 0#(double.exponentBits)
  -- zeros and subnormal numbers
  · rw [if_pos exponent]
    by_cases mantissa : @unpackMantissa double b = 0#(double.mantissaBitsWithoutImplicit)
    · rw [dif_pos mantissa, exponent, mantissa]
      rfl
    · rw [dif_neg mantissa, fields_finite, if_pos small, exponent]
      rfl
  -- normal numbers, whose leading bit is not stored
  · have whole : (1#1 ++ @unpackMantissa double b).toNat =
        2 ^ 52 + (@unpackMantissa double b).toNat := by
      rw [BitVec.toNat_append, ← Nat.shiftLeft_add_eq_or_of_lt (BitVec.isLt _)]
      rfl
    rw [if_neg exponent, fields_finite, if_neg (by omega), whole, bias]
    simp

/-- Finite numbers that compare as equal have the same exponents and mantissas. -/
theorem eq_and_eq_of_compare {s t : Sign} {m n : Nat} {e f : Int} {hm : 0 < m} {hn : 0 < n}
    (h : (UnpackedFloat.finite s m e hm).compare (.finite t n f hn) = some .eq) : e = f ∧ m = n := by
  have same : (compare e f).then (compare m n) = .eq := by
    cases s with
    | positive =>
      cases t with
      | positive => exact Option.some.inj h
      | negative => cases h
    | negative =>
      cases t with
      | positive => cases h
      | negative => exact Ordering.swap_eq_eq.1 (Option.some.inj h)
  rw [Ordering.then_eq_eq] at same
  exact ⟨Std.compare_eq_iff_eq.1 same.1, Std.compare_eq_iff_eq.1 same.2⟩

/-- Numbers that compare as equal differ in their sign at most. -/
theorem fields_eq_of_compare {a b : UnpackedFloat} (h : a.compare b = some .eq) :
    fields a = fields b := by
  cases a with
  | notANumber => cases b <;> cases h
  | infinity s =>
    cases b with
    | infinity => rfl
    | _ => cases s <;> cases h
  | zero =>
    cases b with
    | zero => rfl
    | notANumber => cases h
    | infinity t => cases t <;> cases h
    | finite t => cases t <;> cases h
  | finite s m e =>
    cases b with
    | finite =>
      obtain ⟨rfl, rfl⟩ := eq_and_eq_of_compare h
      rfl
    | notANumber => cases h
    | infinity t => cases t <;> cases h
    | zero => cases s <;> cases h

/-- A number that is not a number has the bits of the canonical one. -/
theorem bits_of_isNaN {b : BitVec 64} (valid : double.Valid b)
    (h : (UnpackedFloat.unpack double b).isNaN = true) : b = packedNaN double := by
  unfold UnpackedFloat.unpack at h
  dsimp only at h
  by_cases special : @unpackExponent double b = -1#(double.exponentBits)
  · rw [if_pos special] at h
    by_cases mantissa : @unpackMantissa double b = 0#(double.mantissaBitsWithoutImplicit)
    · rw [if_pos mantissa] at h
      cases h
    · exact valid.eq_packedNaN special mantissa
  rw [if_neg special] at h
  by_cases exponent : @unpackExponent double b = 0#(double.exponentBits)
  · rw [if_pos exponent] at h
    by_cases mantissa : @unpackMantissa double b = 0#(double.mantissaBitsWithoutImplicit)
    · rw [dif_pos mantissa] at h
      cases h
    · rw [dif_neg mantissa] at h
      cases h
  · rw [if_neg exponent] at h
    cases h

/-- A number that can be compared is equal to itself. -/
theorem compare_self {a : UnpackedFloat} (h : a.isNaN = false) : a.compare a = some .eq := by
  cases a with
  | notANumber => cases h
  | infinity s => cases s <;> rfl
  | zero s => rfl
  | finite s m e =>
    have same : (compare e e).then (compare m m) = .eq := by simp
    cases s with
    | positive => exact congrArg some same
    | negative => exact congrArg (some ·.swap) same

theorem eq_of_toNat_toBits {x y : Float} (h : x.toBits.toNat = y.toBits.toNat) : x = y := by
  obtain ⟨⟨⟨x⟩, _⟩⟩ := x
  obtain ⟨⟨⟨y⟩, _⟩⟩ := y
  obtain rfl : x = y := BitVec.eq_of_toNat_eq h
  rfl

/-- Numbers with the same fields and the same sign are equal. -/
theorem eq_of_fields {x y : Float} (same : fields x.toModel.unpack = fields y.toModel.unpack)
    (sign : isNegative x = isNegative y) : x = y := by
  have bits (z : Float) : fields z.toModel.unpack =
      (z.toBits.toNat / 2 ^ 52 % 2 ^ 11, z.toBits.toNat % 2 ^ 52) :=
    fields_unpack z.toModel.valid
  have bound (z : Float) : z.toBits.toNat < 2 ^ 64 := z.toBits.toBitVec.isLt
  have power : twoTo 63 = 2 ^ 63 := by decide
  rw [bits, bits, Prod.mk.injEq] at same
  simp only [isNegative, power, decide_eq_decide] at sign
  have hx := bound x
  have hy := bound y
  apply eq_of_toNat_toBits
  omega

/-- A number that is a number compares as equal to itself. -/
theorem beq_self_of_isNaN_eq_false {x : Float} (number : x.isNaN = false) : (x == x) = true := by
  show (x.toModel.unpack.compare x.toModel.unpack == some .eq) = true
  rw [compare_self number]
  rfl

end Number

namespace Value

open Number

/-- Numbers that are the same value are equal. -/
theorem sameNumber_iff {x y : Float} : sameNumber x y = true ↔ x = y := by
  unfold sameNumber
  constructor
  · intro h
    split at h
    next nan =>
      rw [Bool.and_eq_true] at nan
      have bits := (bits_of_isNaN x.toModel.valid nan.1).trans
        (bits_of_isNaN y.toModel.valid nan.2).symm
      exact eq_of_toNat_toBits (congrArg BitVec.toNat bits)
    next =>
      rw [Bool.and_eq_true] at h
      obtain ⟨equal, sign⟩ := h
      exact eq_of_fields (fields_eq_of_compare (eq_of_beq equal)) (eq_of_beq sign)
  · rintro rfl
    cases nan : x.isNaN with
    | true => simp
    | false => simp [beq_self_of_isNaN_eq_false nan]

/-- **Values that are the same value are equal.** -/
theorem same_iff {v w : Value} : v.same w = true ↔ v = w := by
  cases v <;> cases w <;> simp [same, sameNumber_iff]

end Value

end AbstractScript
