import AbstractScript.Number.Dyadic
import AbstractScript.Number.Numeral

/-!
# Integer conversions

Truncation toward zero, the 32-bit conversions and canonical array indices.
-/
namespace AbstractScript.Number

/-- The integer nearest to a finite double toward zero. -/
def truncate (x : Float) : Int :=
  if isNegative x then -((dyadic x).floor : Int) else (dyadic x).floor

/-- NaN is zero, an infinity stays, and any other number loses its fraction but not its sign. -/
def toInteger (x : Float) : Float :=
  if x.isNaN then 0
  else if !isFinite x then x
  else if (dyadic x).isWhole then x
  else ofSignedNat (isNegative x) (dyadic x).floor

/-- The whole part modulo `2 ^ 32`; zero for NaN and the infinities. -/
def toUInt32 (x : Float) : UInt32 :=
  if isFinite x then (truncate x % (twoTo 32 : Nat)).toNat.toUInt32 else 0

/-- The whole part modulo `2 ^ 32`, as a signed 32-bit integer. -/
def toInt32 (x : Float) : Int32 := (toUInt32 x).toInt32

/-- The double of an unsigned 32-bit integer. -/
def ofUInt32 (n : UInt32) : Float := Float.ofNat n.toNat

/-- The double of a signed 32-bit integer. -/
def ofInt32 (n : Int32) : Float := Float.ofInt n.toInt

/-- The largest unsigned 32-bit integer, which is a length but not an index. -/
def maxLength : Nat := twoTo 32 - 1

/-- The nearest 32-bit length: zero for NaN and below, the largest one above. -/
def clampLength (x : Float) : Nat :=
  if x.isNaN || isNegative x then 0
  else if isFinite x then min (dyadic x).floor maxLength
  else maxLength

/-- The array index that a property name denotes: a decimal integer below `2 ^ 32 - 1` written
without superfluous zeros. -/
def arrayIndex? (name : String) : Option Nat :=
  match name.toList with
  | '0' :: _ :: _ => none
  | cs =>
    match natOfDigits? (cs.take 11) with
    | some n => if cs.length ≤ 10 ∧ n < maxLength then some n else none
    | none => none

/-- The index of a name is the number whose numeral the name is. -/
theorem arrayIndex?_eq_some_iff {name : String} {n : Nat} :
    arrayIndex? name = some n ↔ name = Nat.repr n ∧ n < maxLength := by
  constructor
  · intro h
    unfold arrayIndex? at h
    split at h
    · cases h
    next front =>
      split at h
      next value read =>
        obtain ⟨⟨short, small⟩, rfl⟩ := by simpa using h
        -- no more is read than the digits that an index may have, so that all of the text has been
        -- read
        rw [List.take_of_length_le (by omega)] at read
        exact ⟨String.toList_inj.1 (repr_of_natOfDigits? read fun d rest e => front d rest e).symm,
          small⟩
      · cases h
  · rintro ⟨rfl, small⟩
    -- a number below the limit has at most ten digits
    have short : (Nat.repr n).toList.length ≤ 10 := by
      rw [String.length_toList, Nat.length_repr_le_iff (by omega)]
      exact Nat.lt_trans small (by decide)
    unfold arrayIndex?
    split
    next d rest h => exact absurd h (repr_ne_zero_cons n d rest)
    · rw [List.take_of_length_le (by omega), natOfDigits?_repr]
      exact if_pos ⟨short, small⟩

end AbstractScript.Number
