import AbstractScript.Number.Integer
import AbstractScript.Proofs.SameValue

/-!
# Whole numbers as lengths

The length of an array is stored as a number and read back as a natural number. Natural numbers below
`2 ^ 53` are stored exactly, greater ones are rounded, and a length is never read as more than the
greatest length: what is read is the natural number, or the greatest length if that is less
(`Number.clampLength_ofNat`).
-/
namespace AbstractScript

namespace Number

open Float.Model Float.Model.UnpackedFloat

/-! ## Rounding -/

/-- A mantissa with all 53 bits of a double. -/
structure IsFull (m : Nat) : Prop where
  lower : 2 ^ 52 ≤ m
  upper : m < 2 ^ 53

theorem IsFull.pos {m : Nat} (h : IsFull m) : 0 < m := Nat.lt_of_lt_of_le (by decide) h.lower

theorem IsFull.log2_mul {m : Nat} (h : IsFull m) (k : Nat) : (m * 2 ^ k).log2 = 52 + k := by
  have positive : 0 < m * 2 ^ k := Nat.mul_pos h.pos (Nat.two_pow_pos k)
  rw [Nat.log2_eq_iff (Nat.ne_of_gt positive), Nat.add_right_comm, Nat.pow_add, Nat.pow_add]
  exact ⟨Nat.mul_le_mul_right _ h.lower, Nat.mul_lt_mul_of_pos_right h.upper (Nat.two_pow_pos k)⟩

/-- A shift to the right divides the mantissa. -/
theorem mantissa_shiftRight (em : ExtendedMantissa) (k : Nat) :
    (em >>> k).mantissa = em.mantissa / 2 ^ k := by
  induction k with
  | zero => simp [HShiftRight.hShiftRight, Nat.repeat]
  | succ k ih =>
    show (em >>> k).mantissa / 2 = _
    rw [ih, Nat.div_div_eq_div_mul, Nat.pow_succ]

/-- A shift that loses no bits is exact. -/
theorem shiftRight_exact (m k : Nat) :
    (⟨m * 2 ^ k, false, false⟩ : ExtendedMantissa) >>> k = ⟨m, false, false⟩ := by
  induction k generalizing m with
  | zero => simp [HShiftRight.hShiftRight, Nat.repeat]
  | succ k ih =>
    have first : (⟨m * 2 ^ (k + 1), false, false⟩ : ExtendedMantissa) >>> k =
        ⟨m * 2, false, false⟩ := by
      rw [← ih (m * 2), Nat.mul_assoc, Nat.pow_succ']
    show ((⟨m * 2 ^ (k + 1), false, false⟩ : ExtendedMantissa) >>> k).shiftRightOne = _
    rw [first]
    simp [ExtendedMantissa.shiftRightOne]

/-- Rounding adds one to a mantissa at most. -/
theorem roundedMantissa_bounds (em : ExtendedMantissa) :
    em.mantissa ≤ em.roundedMantissa ∧ em.roundedMantissa ≤ em.mantissa + 1 := by
  obtain ⟨m, round, sticky⟩ := em
  have parity : m % 2 < 2 := Nat.mod_lt m (by decide)
  cases round <;> cases sticky <;>
    simp only [ExtendedMantissa.roundedMantissa, ExtendedMantissa.accuracy,
      Accuracy.roundToNearestEven] <;>
    omega

/-- What a mantissa is shifted by. -/
theorem shiftToTargetExponent_eq {m : Nat} {e : Int} {k : Nat} (length : m.log2 = 52 + k)
    (low : -1074 ≤ e + k) : shiftToTargetExponent double m e .exact =
      ((⟨m, false, false⟩ : ExtendedMantissa) >>> k, e + k) := by
  have target : double.targetExponent (totalExponent m e) = e + k := by
    have bits : double.mantissaBits = 53 := rfl
    simp only [Format.targetExponent, totalExponent, bits, Format.minExponent, length]
    omega
  have shift : (e + k - e).toNat = k := by omega
  rw [shiftToTargetExponent, target, shiftToExponent, shift]
  rfl

/-- A full mantissa is not shifted. -/
theorem shiftToTargetExponent_full {m : Nat} (full : IsFull m) {e : Int} (low : -1074 ≤ e) :
    shiftToTargetExponent double m e .exact = (⟨m, false, false⟩, e) := by
  have length : m.log2 = 52 + 0 := by
    rw [← full.log2_mul 0, Nat.pow_zero, Nat.mul_one]
  rw [shiftToTargetExponent_eq length (by omega)]
  simp [HShiftRight.hShiftRight, Nat.repeat]

/-- A number with a full mantissa needs no rounding. -/
theorem roundWithAccuracy_exact {m : Nat} (full : IsFull m) (s : Sign) {e : Int} {k : Nat}
    (low : -1074 ≤ e + k) :
    roundWithAccuracy double s (m * 2 ^ k) e .exact = .finite s m (e + k) full.pos := by
  have again := shiftToTargetExponent_full full low
  rw [roundWithAccuracy, shiftToTargetExponent_eq (full.log2_mul k) low, shiftRight_exact]
  dsimp only
  rw [show (⟨m, false, false⟩ : ExtendedMantissa).roundedMantissa = m from rfl, again]
  exact dif_neg (Nat.ne_of_gt full.pos)

/-- A greater number keeps a full mantissa, whose exponent is at least that of the first one. -/
theorem exists_roundWithAccuracy {m k : Nat} (length : m.log2 = 52 + k) (s : Sign) {e : Int}
    (low : -1074 ≤ e + k) : ∃ (n : Nat) (full : IsFull n) (f : Int), e + k ≤ f ∧
      roundWithAccuracy double s m e .exact = .finite s n f full.pos := by
  let em := (⟨m, false, false⟩ : ExtendedMantissa) >>> k
  obtain ⟨lower, upper⟩ := roundedMantissa_bounds em
  have whole : em.mantissa = m / 2 ^ k := mantissa_shiftRight ..
  have positive : m ≠ 0 := by
    rintro rfl
    rw [Nat.log2_zero] at length
    omega
  obtain ⟨log_lower, log_upper⟩ := (Nat.log2_eq_iff positive).1 length
  have quotient : IsFull em.mantissa := by
    rw [whole]
    constructor
    · rw [Nat.le_div_iff_mul_le (Nat.two_pow_pos k), ← Nat.pow_add]
      exact log_lower
    · rw [Nat.div_lt_iff_lt_mul (Nat.two_pow_pos k), ← Nat.pow_add]
      rwa [Nat.add_right_comm] at log_upper
  by_cases carry : em.roundedMantissa = 2 ^ 53
  · -- the carry makes the mantissa a bit longer, so that it is shifted once more
    have full : IsFull (2 ^ 52) := ⟨by decide, by decide⟩
    have again : shiftToTargetExponent double (2 ^ 52 * 2 ^ 1) (e + k) .exact =
        (⟨2 ^ 52, false, false⟩, e + k + (1 : Nat)) := by
      rw [shiftToTargetExponent_eq (full.log2_mul 1) (by omega), shiftRight_exact]
    refine ⟨2 ^ 52, full, e + k + (1 : Nat), by omega, ?_⟩
    rw [roundWithAccuracy, shiftToTargetExponent_eq length low]
    dsimp only
    rw [show ((⟨m, false, false⟩ : ExtendedMantissa) >>> k).roundedMantissa = 2 ^ 52 * 2 ^ 1 from
      carry, again]
    exact dif_neg (Nat.ne_of_gt full.pos)
  · have full : IsFull em.roundedMantissa :=
      ⟨Nat.le_trans quotient.lower lower, by have := quotient.upper; omega⟩
    refine ⟨_, full, e + k, Int.le_refl _, ?_⟩
    rw [roundWithAccuracy, shiftToTargetExponent_eq length low]
    dsimp only
    rw [shiftToTargetExponent_full full low]
    exact dif_neg (Nat.ne_of_gt full.pos)

/-! ## Packed numbers -/

/-- The bits of a positive number. -/
theorem toNat_packComponents (e : BitVec 11) (m : BitVec 52) :
    (packComponents double .positive e m).toNat = e.toNat * 2 ^ 52 + m.toNat := by
  rw [packComponents, BitVec.toNat_append, ← Nat.shiftLeft_add_eq_or_of_lt m.isLt,
    BitVec.toNat_append, Nat.shiftLeft_eq]
  simp [Sign.toBitVec]

theorem ofBitVec_unpackSign (s : Sign) (e : BitVec 11) (m : BitVec 52) :
    Sign.ofBitVec (unpackSign (packComponents double s e m)) = s := by
  -- the sign stands above all other bits
  delta unpackSign packComponents BitVec.extractLsb
  rw [BitVec.extractLsb'_append_eq_of_le (by decide), BitVec.extractLsb'_append_eq_of_le (by decide)]
  cases s <;> rfl

section

variable {m : Nat} {e : Int} (full : IsFull m)

/-- The exponent of a number with a full mantissa, as it is stored. -/
theorem pack_full (low : -1074 ≤ e) (high : e ≤ 971) (s : Sign) :
    UnpackedFloat.pack double (.finite s m e full.pos) =
      packComponents double s (.ofNat 11 (e + 1075).toNat) (.ofNat 52 m) := by
  have length : m.log2 + 1 = double.mantissaBits := by
    have := full.log2_mul 0
    rw [Nat.pow_zero, Nat.mul_one] at this
    rw [this]
    rfl
  have bias : e + double.exponentBias + double.mantissaBitsWithoutImplicit = e + 1075 := by
    show e + 1023 + 52 = e + 1075
    omega
  have small : ¬ 2 ^ double.exponentBits ≤ (e + 1075).toNat + 1 := by
    show ¬ 2048 ≤ _
    omega
  delta UnpackedFloat.pack
  dsimp only
  rw [bias, if_neg small, if_pos length]

theorem pack_infinity (high : 971 < e) (s : Sign) :
    UnpackedFloat.pack double (.finite s m e full.pos) = packedInfinity double s := by
  have bias : e + double.exponentBias + double.mantissaBitsWithoutImplicit = e + 1075 := by
    show e + 1023 + 52 = e + 1075
    omega
  have large : 2 ^ double.exponentBits ≤ (e + 1075).toNat + 1 := by
    show 2048 ≤ _
    omega
  delta UnpackedFloat.pack
  dsimp only
  rw [bias, if_pos large]

theorem unpack_pack_full (low : -1074 ≤ e) (high : e ≤ 971) (s : Sign) :
    UnpackedFloat.unpack double (UnpackedFloat.pack double (.finite s m e full.pos)) =
      .finite s m e full.pos := by
  have stored : (BitVec.ofNat 11 (e + 1075).toNat).toNat = (e + 1075).toNat := by
    rw [BitVec.toNat_ofNat, Nat.mod_eq_of_lt (by omega)]
  have finite : BitVec.ofNat 11 (e + 1075).toNat ≠ -1#11 := by
    intro h
    have := congrArg BitVec.toNat h
    rw [stored] at this
    have ones : (-1#11).toNat = 2047 := rfl
    omega
  have normal : BitVec.ofNat 11 (e + 1075).toNat ≠ 0#11 := by
    intro h
    have := congrArg BitVec.toNat h
    rw [stored] at this
    have zero : (0#11).toNat = 0 := rfl
    omega
  -- the leading bit is not stored, but put back on reading
  have mantissa : (1#1 ++ BitVec.ofNat 52 m).toNat = m := by
    have := full.lower
    have := full.upper
    rw [BitVec.toNat_append, ← Nat.shiftLeft_add_eq_or_of_lt (BitVec.isLt _), BitVec.toNat_ofNat]
    show 2 ^ 52 + m % 2 ^ 52 = m
    omega
  have exponent : ((e + 1075).toNat : Int) - (1023 + 52) = e := by omega
  have same : ∀ {s' : Sign} {m' : Nat} {e' : Int} (positive : 0 < m'), s' = s → m' = m → e' = e →
      UnpackedFloat.finite s' m' e' positive = .finite s m e full.pos := by
    rintro _ _ _ positive rfl rfl rfl
    rfl
  rw [pack_full full low high]
  refine (if_neg ?_).trans ((if_neg ?_).trans (same _ (ofBitVec_unpackSign ..) ?_ ?_))
  · rw [unpackExponent_packComponents]
    exact finite
  · rw [unpackExponent_packComponents]
    exact normal
  · rw [unpackMantissa_packComponents]
    exact mantissa
  · rw [unpackExponent_packComponents, stored]
    exact exponent

/-- A packed number is finite and positive, and its magnitude is what was packed. -/
theorem dyadic_pack (low : -1074 ≤ e) (high : e ≤ 971) :
    isFinite ⟨.pack (.finite .positive m e full.pos)⟩ = true ∧
      isNegative ⟨.pack (.finite .positive m e full.pos)⟩ = false ∧
      dyadic ⟨.pack (.finite .positive m e full.pos)⟩ = ⟨m, e⟩ := by
  let x : Float := ⟨.pack (.finite .positive m e full.pos)⟩
  have lower := full.lower
  have upper := full.upper
  have bits : x.toBits.toNat = (e + 1075).toNat * 2 ^ 52 + (m - 2 ^ 52) := by
    show (UnpackedFloat.pack double _).toNat = _
    rw [pack_full full low high, toNat_packComponents, BitVec.toNat_ofNat, BitVec.toNat_ofNat,
      Nat.mod_eq_of_lt (by omega)]
    omega
  have exponent : exponentField x = (e + 1075).toNat := by
    have powers : twoTo 52 = 2 ^ 52 ∧ twoTo 11 = 2 ^ 11 := ⟨by decide, by decide⟩
    rw [exponentField, bits, powers.1, powers.2]
    omega
  have fraction : fractionField x = m - 2 ^ 52 := by
    rw [fractionField, bits, show twoTo 52 = 2 ^ 52 by decide]
    omega
  refine ⟨?_, ?_, ?_⟩
  · show isFinite x = true
    rw [isFinite, exponent]
    exact decide_eq_true (by omega)
  · show isNegative x = false
    rw [isNegative, bits, show twoTo 63 = 2 ^ 63 by decide]
    exact decide_eq_false (by omega)
  · show dyadic x = ⟨m, e⟩
    rw [dyadic, exponent, fraction, if_neg (by omega), show twoTo 52 = 2 ^ 52 by decide]
    simp only [Dyadic.mk.injEq]
    omega

/-- The length that is read from a packed number. -/
theorem clampLength_pack (low : -1074 ≤ e) (high : e ≤ 971) :
    clampLength ⟨.pack (.finite .positive m e full.pos)⟩ = min (Dyadic.floor ⟨m, e⟩) maxLength := by
  let x : Float := ⟨.pack (.finite .positive m e full.pos)⟩
  obtain ⟨finite, positive, magnitude⟩ := dyadic_pack full low high
  have number : x.isNaN = false := by
    show (UnpackedFloat.unpack double (UnpackedFloat.pack double _)).isNaN = false
    rw [unpack_pack_full full low high]
    rfl
  show clampLength x = _
  rw [clampLength, number, positive, finite, magnitude]
  rfl

end

/-! ## Natural numbers -/

/-- A natural number that the mantissa can hold is exact. -/
theorem ofNat_eq_pack {n : Nat} (positive : 0 < n) (small : n < 2 ^ 53) :
    ∃ full : IsFull (n * 2 ^ (52 - n.log2)),
      Float.ofNat n = ⟨.pack (.finite .positive _ (-(52 - n.log2 : Nat)) full.pos)⟩ := by
  have log : n.log2 ≤ 52 := Nat.lt_succ_iff.1 ((Nat.log2_lt (Nat.ne_of_gt positive)).2 small)
  obtain ⟨log_lower, log_upper⟩ := (Nat.log2_eq_iff (Nat.ne_of_gt positive)).1 rfl
  have full : IsFull (n * 2 ^ (52 - n.log2)) := by
    constructor
    · calc 2 ^ 52
        _ = 2 ^ n.log2 * 2 ^ (52 - n.log2) := by rw [← Nat.pow_add]; congr 1; omega
        _ ≤ n * 2 ^ (52 - n.log2) := Nat.mul_le_mul_right _ log_lower
    · calc n * 2 ^ (52 - n.log2)
        _ < 2 ^ (n.log2 + 1) * 2 ^ (52 - n.log2) :=
          Nat.mul_lt_mul_of_pos_right log_upper (Nat.two_pow_pos _)
        _ = 2 ^ 53 := by rw [← Nat.pow_add]; congr 1; omega
  refine ⟨full, ?_⟩
  have target : double.targetExponent (totalExponent n 0) = -(52 - n.log2 : Nat) := by
    have bits : double.mantissaBits = 53 := rfl
    simp only [Format.targetExponent, totalExponent, bits, Format.minExponent]
    omega
  have rounded : UnpackedFloat.ofNat double n =
      .finite .positive _ (-(52 - n.log2 : Nat)) full.pos := by
    have sign : compare (n : Int) 0 = .gt := by
      exact Std.compare_eq_gt.2 (by omega)
    rw [UnpackedFloat.ofNat, UnpackedFloat.ofInt, UnpackedFloat.normalize, sign]
    show UnpackedFloat.round double .positive (n : Int).toNat 0 = _
    rw [Int.toNat_natCast, UnpackedFloat.round, target, decreaseExponent]
    dsimp only
    rw [show ((0 : Int) - -(52 - n.log2 : Nat)).toNat = 52 - n.log2 by omega, Nat.shiftLeft_eq]
    have exact' := roundWithAccuracy_exact full .positive (e := -(52 - n.log2 : Nat)) (k := 0)
      (by omega)
    rw [show -(52 - n.log2 : Nat) + ((0 : Nat) : Int) = -(52 - n.log2 : Nat) from Int.add_zero _,
      Nat.pow_zero, Nat.mul_one] at exact'
    rwa [Int.zero_sub]
  have whole : n.toUInt64.toNat = n := by
    show n % 2 ^ 64 = n
    exact Nat.mod_eq_of_lt (by omega)
  have converted : n.toUInt64.toFloat =
      ⟨.pack (.finite .positive _ (-(52 - n.log2 : Nat)) full.pos)⟩ := by
    show (⟨.pack (UnpackedFloat.ofNat double n.toUInt64.toNat)⟩ : Float) = _
    rw [whole, rounded]
  -- the natural number is multiplied by one, which is stored with a full mantissa too
  have one : (Float.ofBits 0x3FF0000000000000).toModel.unpack =
      .finite .positive (2 ^ 52) (-52) (by decide) := rfl
  have product : n.toUInt64.toFloat * Float.ofBits 0x3FF0000000000000 =
      ⟨.pack (.finite .positive _ (-(52 - n.log2 : Nat)) full.pos)⟩ := by
    have unpacked : n.toUInt64.toFloat.toModel.unpack =
        .finite .positive _ (-(52 - n.log2 : Nat)) full.pos := by
      rw [converted]
      exact unpack_pack_full full (by omega) (by omega) .positive
    show (⟨.pack (UnpackedFloat.mul double _ _)⟩ : Float) = _
    rw [unpacked, one]
    have exact' := roundWithAccuracy_exact full .positive (e := -(52 - n.log2 : Nat) + -52) (k := 52)
      (by omega)
    rw [show (-(52 - n.log2 : Nat) : Int) + -52 + (52 : Nat) = -(52 - n.log2 : Nat) by omega]
      at exact'
    exact congrArg (fun u => (⟨.pack u⟩ : Float)) exact'
  have literal : Float.ofNat n = n.toUInt64.toFloat * Float.ofBits 0x3FF0000000000000 := by
    show Float.ofScientific n false 0 = _
    rw [Float.ofScientific, dif_pos ⟨small, by decide⟩]
    rfl
  rw [literal, product]

/-- A greater natural number is rounded to one that is still great. -/
theorem exists_ofNat_eq_pack {n : Nat} (large : 2 ^ 53 ≤ n) :
    ∃ (m : Nat) (full : IsFull m) (e : Int), 1 ≤ e ∧
      Float.ofNat n = ⟨.pack (.finite .positive m e full.pos)⟩ := by
  have positive : n ≠ 0 := by omega
  have log : 53 ≤ n.log2 := (Nat.le_log2 positive).2 large
  -- the digits are shifted far enough that only rounding loses any
  have length : (n <<< 53 * 10 ^ 0).log2 = 52 + (n.log2 + 1) := by
    obtain ⟨log_lower, log_upper⟩ := (Nat.log2_eq_iff positive).1 rfl
    rw [Nat.pow_zero, Nat.mul_one, Nat.shiftLeft_eq, Nat.log2_eq_iff (by omega)]
    rw [show 52 + (n.log2 + 1) = n.log2 + 53 by omega, Nat.add_right_comm, Nat.pow_add, Nat.pow_add]
    exact ⟨Nat.mul_le_mul_right _ log_lower,
      Nat.mul_lt_mul_of_pos_right log_upper (Nat.two_pow_pos 53)⟩
  obtain ⟨m, full, e, low, rounded⟩ :=
    exists_roundWithAccuracy length .positive (e := -53 + 0) (by omega)
  refine ⟨m, full, e, by omega, ?_⟩
  have literal : Float.ofNat n = ⟨Float.Model.ofScientific n 0⟩ := by
    show Float.ofScientific n false 0 = _
    rw [Float.ofScientific, dif_neg (by omega)]
    rfl
  rw [literal, Float.Model.ofScientific, UnpackedFloat.ofScientific, dif_neg positive,
    if_neg (by decide), if_neg, if_pos (by decide)]
  · exact congrArg (fun u => (⟨.pack u⟩ : Float)) rounded
  · show ¬ (0 : Int) < -(2 ^ 11 + n.log2)
    omega

/-- The whole part of a natural number that is shifted to the left. -/
theorem floor_shifted (n k : Nat) : Dyadic.floor ⟨n * 2 ^ k, -k⟩ = n := by
  have power : twoTo k = 2 ^ k := rfl
  rw [Dyadic.floor]
  split
  next whole =>
    obtain rfl : k = 0 := by
      have : (0 : Int) ≤ -k := whole
      omega
    simp [twoTo]
  next => rw [Int.neg_neg, Int.toNat_natCast, power, Nat.mul_div_cancel _ (Nat.two_pow_pos k)]

/-- **A natural number is read back as itself**, or as the greatest length if that is less. -/
theorem clampLength_ofNat (n : Nat) : clampLength (Float.ofNat n) = min n maxLength := by
  rcases Nat.eq_zero_or_pos n with rfl | positive
  · decide +kernel
  -- below 2 ^ 53 the number is exact, and above it is at least the greatest length
  rcases Nat.lt_or_ge n (2 ^ 53) with small | large
  · obtain ⟨full, packed⟩ := ofNat_eq_pack positive small
    rw [packed, clampLength_pack full (by omega) (by omega)]
    rw [floor_shifted]
  · obtain ⟨m, full, e, low, packed⟩ := exists_ofNat_eq_pack large
    rw [packed]
    have greatest : min n maxLength = maxLength :=
      Nat.min_eq_right (Nat.le_trans (by decide) large)
    rw [greatest]
    rcases Int.lt_or_le 971 e with infinite | high
    · have bits : Float.Model.pack (.finite .positive m e full.pos) =
          Float.Model.pack (.infinity .positive) := by
        have same : ∀ {b b' : UInt64} (v v'), b = b' →
            (⟨b, v⟩ : Float.Model) = ⟨b', v'⟩ := by
          rintro b _ v v' rfl
          rfl
        exact same _ _ (congrArg UInt64.ofBitVec (pack_infinity full infinite .positive))
      rw [bits]
      decide +kernel
    · have whole : Dyadic.floor ⟨m, e⟩ = m * twoTo e.toNat := if_pos (by show 0 ≤ e; omega)
      have power : 1 ≤ twoTo e.toNat := Nat.two_pow_pos _
      have floor : maxLength ≤ m * twoTo e.toNat := calc maxLength
        _ ≤ 2 ^ 52 := by decide
        _ ≤ m * 1 := Nat.le_trans full.lower (Nat.le_of_eq (Nat.mul_one m).symm)
        _ ≤ m * twoTo e.toNat := Nat.mul_le_mul_left m power
      rw [clampLength_pack full (by omega) high, whole, Nat.min_eq_right floor]

/-! ## Numbers that compare as equal to a natural number -/

/-- The highest bit holds the sign. -/
theorem toNat_unpackSign (b : BitVec 64) : (@unpackSign double b).toNat = b.toNat / 2 ^ 63 % 2 := by
  delta unpackSign BitVec.extractLsb
  rw [BitVec.toNat_cast, BitVec.extractLsb'_toNat, Nat.shiftRight_eq_div_pow]
  rfl

/-- The sign of a finite number is the one that its bits say. -/
theorem ofBitVec_of_unpack {b : BitVec 64} {s : Sign} {m : Nat} {e : Int} {positive : 0 < m}
    (h : UnpackedFloat.unpack double b = .finite s m e positive) :
    Sign.ofBitVec (@unpackSign double b) = s := by
  unfold UnpackedFloat.unpack at h
  dsimp only at h
  by_cases special : @unpackExponent double b = -1#(double.exponentBits)
  · rw [if_pos special] at h
    by_cases mantissa : @unpackMantissa double b = 0#(double.mantissaBitsWithoutImplicit)
    · rw [if_pos mantissa] at h
      cases h
    · rw [if_neg mantissa] at h
      cases h
  rw [if_neg special] at h
  by_cases exponent : @unpackExponent double b = 0#(double.exponentBits)
  · rw [if_pos exponent] at h
    -- zero and infinities are no finite numbers
    by_cases mantissa : @unpackMantissa double b = 0#(double.mantissaBitsWithoutImplicit)
    · rw [dif_pos mantissa] at h
      cases h
    · rw [dif_neg mantissa] at h
      cases h
      rfl
  · rw [if_neg exponent] at h
    cases h
    rfl

/-- The sign bit of a finite number is set if the number is negative. -/
theorem isNegative_of_unpack {x : Float} {s : Sign} {m : Nat} {e : Int} {positive : 0 < m}
    (h : x.toModel.unpack = .finite s m e positive) : isNegative x = (s == .negative) := by
  have sign : Sign.ofBitVec (@unpackSign double x.toModel.toBits.toBitVec) = s :=
    ofBitVec_of_unpack h
  have top : (@unpackSign double x.toModel.toBits.toBitVec).toNat = x.toBits.toNat / 2 ^ 63 % 2 :=
    toNat_unpackSign x.toModel.toBits.toBitVec
  have bound : x.toBits.toNat < 2 ^ 64 := x.toBits.toBitVec.isLt
  have bits : ∀ b : BitVec 1, b = 0#1 ∨ b = 1#1 := by decide
  rw [isNegative, show twoTo 63 = 2 ^ 63 by decide]
  rcases bits (@unpackSign double x.toModel.toBits.toBitVec) with bit | bit <;>
    rw [bit] at sign top <;> subst sign
  · have zero : (0#1).toNat = 0 := rfl
    exact decide_eq_false (by omega)
  · have one : (1#1).toNat = 1 := rfl
    exact decide_eq_true (by omega)

/-- What compares as equal to a positive number has its sign. -/
theorem unpack_of_compare {a : UnpackedFloat} {m : Nat} {e : Int} {positive : 0 < m}
    (h : (UnpackedFloat.finite .positive m e positive).compare a = some .eq) :
    a = .finite .positive m e positive := by
  cases a with
  | notANumber => cases h
  | infinity s => cases s <;> cases h
  | zero => cases h
  | finite s m' e' positive' =>
    cases s with
    | negative => cases h
    | positive =>
      obtain ⟨rfl, rfl⟩ := eq_and_eq_of_compare h
      rfl

/-- A number that compares as equal to a positive natural number is that number. -/
theorem eq_ofNat_of_beq {x : Float} {n : Nat} (positive : 0 < n) (small : n < 2 ^ 53)
    (h : (Float.ofNat n == x) = true) : x = Float.ofNat n := by
  obtain ⟨full, packed⟩ := ofNat_eq_pack positive small
  have log : n.log2 ≤ 52 := Nat.lt_succ_iff.1 ((Nat.log2_lt (Nat.ne_of_gt positive)).2 small)
  have unpacked : (Float.ofNat n).toModel.unpack =
      .finite .positive _ (-(52 - n.log2 : Nat)) full.pos := by
    rw [packed]
    exact unpack_pack_full full (by omega) (by omega) .positive
  have compared : (Float.ofNat n).toModel.unpack.compare x.toModel.unpack = some .eq := eq_of_beq h
  rw [unpacked] at compared
  have same := unpack_of_compare compared
  have signs := (isNegative_of_unpack same).trans (isNegative_of_unpack unpacked).symm
  exact eq_of_fields (by rw [same, unpacked]) signs

/-- The number of a natural number is a number. -/
theorem beq_ofNat {n : Nat} (small : n < 2 ^ 53) : (Float.ofNat n == Float.ofNat n) = true := by
  rcases Nat.eq_zero_or_pos n with rfl | positive
  · decide +kernel
  · obtain ⟨full, packed⟩ := ofNat_eq_pack positive small
    have log : n.log2 ≤ 52 := Nat.lt_succ_iff.1 ((Nat.log2_lt (Nat.ne_of_gt positive)).2 small)
    refine beq_self_of_isNaN_eq_false ?_
    rw [packed]
    show (UnpackedFloat.unpack double (UnpackedFloat.pack double _)).isNaN = false
    rw [unpack_pack_full full (by omega) (by omega)]
    rfl

/-- **A number that compares as equal to a length is converted to it.** The negative zero is one of
them. -/
theorem toNat_toUInt32 {x : Float} {n : Nat} (small : n ≤ maxLength)
    (h : (Float.ofNat n == x) = true) : (toUInt32 x).toNat = n := by
  have bound : n < 2 ^ 32 := Nat.lt_of_le_of_lt small (by decide)
  rcases Nat.eq_zero_or_pos n with rfl | positive
  -- zero compares equal to the negative zero too, which has the same fields
  · have same : fields x.toModel.unpack = (0, 0) := (fields_eq_of_compare (eq_of_beq h)).symm
    have bits : fields x.toModel.unpack =
        (x.toBits.toNat / 2 ^ 52 % 2 ^ 11, x.toBits.toNat % 2 ^ 52) := fields_unpack x.toModel.valid
    rw [same, Prod.mk.injEq] at bits
    have exponent : exponentField x = 0 := by
      rw [exponentField, show twoTo 52 = 2 ^ 52 by decide, show twoTo 11 = 2 ^ 11 by decide]
      exact bits.1.symm
    have fraction : fractionField x = 0 := by
      rw [fractionField, show twoTo 52 = 2 ^ 52 by decide]
      exact bits.2.symm
    have magnitude : (dyadic x).floor = 0 := by
      rw [dyadic, exponent, fraction, if_pos rfl]
      decide +kernel
    have truncated : truncate x = 0 := by
      rw [truncate, magnitude]
      split <;> rfl
    rw [toUInt32, truncated]
    split <;> rfl
  · obtain rfl := eq_ofNat_of_beq positive (by omega) h
    obtain ⟨full, packed⟩ := ofNat_eq_pack positive (by omega)
    obtain ⟨finite, sign, magnitude⟩ := dyadic_pack full (e := -(52 - n.log2 : Nat)) (by omega) (by omega)
    rw [← packed] at finite sign magnitude
    have truncated : truncate (Float.ofNat n) = n := by
      rw [truncate, sign, magnitude]
      exact congrArg Nat.cast (floor_shifted n (52 - n.log2))
    rw [toUInt32, if_pos finite, truncated, show twoTo 32 = 2 ^ 32 by decide]
    have whole : ((n : Int) % (2 ^ 32 : Nat)).toNat = n := by omega
    rw [whole, UInt32.toNat_ofNat']
    omega

end Number

end AbstractScript
