import AbstractScript.Number.Text
import AbstractScript.Number.Numeral
import AbstractScript.Proofs.LiteralTexts
import AbstractScript.Proofs.WholeNumbers
import Mathlib.Algebra.Order.Field.Power
import Mathlib.Data.List.TakeWhile
import Mathlib.Data.Rat.Cast.Order
import Mathlib.Tactic.Linarith
import Mathlib.Tactic.NormNum
import Mathlib.Tactic.Positivity
import Mathlib.Tactic.Ring

/-!
# The digits in the text of a number

The text of a finite number other than zero is a decimal numeral that denotes exactly the shortest
decimal of the number, with an exponent only outside of a middle range and without superfluous zeros
(`Number.text_denotes`). That there is a shortest decimal at all is a fact about the search for it:
the grid of the seventeenth digit is finer than the numbers that round to a double lie apart
(`Dyadic.exists_search`).
-/
namespace AbstractScript.Number

/-! ## Decimals -/

namespace Decimal

variable {d : Decimal}

/-- The rational number `d₁.d₂…dₖ · 10 ^ exponent`. -/
def value (d : Decimal) : ℚ :=
  Nat.ofDigitChars 10 d.digits 0 * 10 ^ (d.exponent - (d.digits.length - 1))

/-- Scientific notation: digits without zeros at the front and at the end. -/
structure IsScientific (d : Decimal) : Prop where
  nonempty : d.digits ≠ []
  digits : ∀ c ∈ d.digits, c.isDigit
  front : ∀ c ∈ d.digits.head?, c ≠ '0'
  back : ∀ c ∈ d.digits.getLast?, c ≠ '0'

end Decimal

/-- The rational number that a numeral denotes. -/
def Numeral.value (n : Numeral) : ℚ := n.mantissa * 10 ^ n.lastPower

/-- No zero before another digit of the whole part, and none at the end of the fraction. -/
structure Numeral.IsPlain (n : Numeral) : Prop where
  front : ∀ c rest, n.whole ≠ '0' :: c :: rest
  back : ∀ c ∈ n.fraction.getLast?, c ≠ '0'

/-! ## Layouts -/

/-- Zeros at the front do not change a number. -/
theorem ofDigitChars_zeros (k : Nat) (ds : List Char) :
    Nat.ofDigitChars 10 (List.replicate k '0' ++ ds) 0 = Nat.ofDigitChars 10 ds 0 := by
  induction k with
  | zero => rfl
  | succ k ih =>
    rw [List.replicate_succ, List.cons_append, Nat.ofDigitChars_cons]
    exact ih

/-- Zeros at the end multiply a number. -/
theorem ofDigitChars_append_zeros (ds : List Char) (k : Nat) :
    Nat.ofDigitChars 10 (ds ++ List.replicate k '0') 0 = Nat.ofDigitChars 10 ds 0 * 10 ^ k := by
  induction k with
  | zero => simp
  | succ k ih =>
    rw [List.replicate_succ', ← List.append_assoc, Nat.ofDigitChars_append, ih,
      Nat.ofDigitChars_cons, Nat.ofDigitChars_nil, Nat.sub_self, Nat.add_zero, Nat.pow_succ',
      Nat.mul_left_comm]

/-- The exponent part that a layout writes. -/
def exponentChars (e : Int) : List Char :=
  'e' :: ([if e < 0 then '-' else '+'] ++ Nat.toDigits 10 e.natAbs)

theorem isExponent_exponentChars (e : Int) : IsExponent (exponentChars e) := by
  refine .some (.inl rfl) ?_ Nat.toDigits_ne_nil fun c mem =>
    Nat.isDigit_of_mem_toDigits (by omega) (by omega) mem
  split
  · exact .inr (.inr rfl)
  · exact .inr (.inl rfl)

/-- The exponent part of an exponent is read as the exponent. -/
theorem exponentPart?_exponentChars (e : Int) : exponentPart? (exponentChars e) = some e := by
  have digits : ∀ c ∈ Nat.toDigits 10 e.natAbs, c.isDigit := fun c mem =>
    Nat.isDigit_of_mem_toDigits (by omega) (by omega) mem
  have signed : [if e < 0 then '-' else '+'] = [] ∨ [if e < 0 then '-' else '+'] = ['+'] ∨
      [if e < 0 then '-' else '+'] = ['-'] := by
    split
    · exact .inr (.inr rfl)
    · exact .inr (.inl rfl)
  rw [exponentChars, exponentPart?_signed (.inl rfl) signed Nat.toDigits_ne_nil digits,
    Nat.ofDigitChars_toDigits (by omega) (by omega)]
  by_cases negative : e < 0
  · rw [if_pos (by rw [if_pos negative])]
    exact congrArg some (by omega)
  · rw [if_neg (by rw [if_neg negative]; decide)]
    exact congrArg some (by omega)

/-- A numeral with the digits of a decimal, perhaps with zeros behind them, denotes it if the power
of its last digit is right. -/
theorem Numeral.value_eq {n : Numeral} {d : Decimal} (zeros : Nat)
    (mantissa : n.mantissa = Nat.ofDigitChars 10 d.digits 0 * 10 ^ zeros)
    (power : n.lastPower + zeros = d.exponent - (d.digits.length - 1)) : n.value = d.value := by
  have ten : (10 : ℚ) ≠ 0 := by norm_num
  rw [Numeral.value, Decimal.value, mantissa, ← power, zpow_add₀ ten, zpow_natCast]
  push_cast
  rw [mul_assoc, mul_comm ((10 : ℚ) ^ zeros)]

/-- The text is read as a numeral that denotes the decimal. It has an exponent if and only if that of
the decimal is below -6 or above 20, and it is plain otherwise. -/
def IsTextOf (cs : List Char) (d : Decimal) : Prop :=
  ∃ n, Numeral.read? cs = some n ∧ n.value = d.value ∧
    (n.exponent ≠ [] ↔ d.exponent < -6 ∨ 20 < d.exponent) ∧ (n.exponent = [] → n.IsPlain)

section Layouts

variable {d : Decimal} (h : d.IsScientific)
include h

theorem Decimal.IsScientific.length_pos : 0 < d.digits.length :=
  List.length_pos_of_ne_nil h.nonempty

/-- No zero stands at the front. -/
theorem Decimal.IsScientific.ne_zero_cons (rest : List Char) : d.digits ≠ '0' :: rest := by
  intro same
  exact h.front '0' (by rw [same]; rfl) rfl

/-- All digits, and zeros behind them. -/
theorem isTextOf_padded (low : d.digits.length ≤ d.exponent + 1) (high : d.exponent + 1 ≤ 21) :
    IsTextOf (d.digits ++ List.replicate (d.exponent + 1 - d.digits.length).toNat '0') d := by
  have size := h.length_pos
  obtain ⟨first, others, same⟩ := List.exists_cons_of_ne_nil h.nonempty
  have digits : ∀ c ∈ d.digits ++ List.replicate (d.exponent + 1 - d.digits.length).toNat '0',
      c.isDigit :=
    List.forall_mem_append.2 ⟨h.digits, fun c mem => List.eq_of_mem_replicate mem ▸ rfl⟩
  have some : d.digits ++ List.replicate (d.exponent + 1 - d.digits.length).toNat '0' ≠ [] :=
    fun none => h.nonempty (List.append_eq_nil_iff.1 none).1
  have read := Numeral.read?_whole digits some .none rfl
  rw [List.append_nil] at read
  refine ⟨_, read, ?_, ?_, fun _ => ⟨?_, nofun⟩⟩
  -- the zeros at the end shift the digits to their places
  · refine Numeral.value_eq (d.exponent + 1 - d.digits.length).toNat ?_ ?_
    · simp only [Numeral.mantissa, List.append_nil, ofDigitChars_append_zeros]
    · simp only [Numeral.lastPower, List.length_nil]
      omega
  · simp only [ne_eq, not_true_eq_false, false_iff]
    omega
  · intro c rest is
    rw [same] at is
    exact h.ne_zero_cons others (same.trans (by rw [(List.cons.inj is).1]))

/-- The point stands among the digits. -/
theorem isTextOf_pointed (low : 0 < d.exponent + 1) (high : d.exponent + 1 ≤ 21)
    (inside : d.exponent + 1 < d.digits.length) :
    IsTextOf (d.digits.take (d.exponent + 1).toNat ++ '.' :: d.digits.drop (d.exponent + 1).toNat)
      d := by
  have front : ∀ c ∈ d.digits.take (d.exponent + 1).toNat, c.isDigit := fun c mem =>
    h.digits c (List.mem_of_mem_take mem)
  have behind : ∀ c ∈ d.digits.drop (d.exponent + 1).toNat, c.isDigit := fun c mem =>
    h.digits c (List.mem_of_mem_drop mem)
  have some : d.digits.drop (d.exponent + 1).toNat ≠ [] := fun none => by
    have := List.drop_eq_nil_iff.1 none
    omega
  have read := Numeral.read?_point front behind (fun none => some none.2) .none rfl
  rw [List.append_nil] at read
  refine ⟨_, read, ?_, ?_, fun _ => ⟨?_, ?_⟩⟩
  -- the digits behind the point lower the power of the last one
  · refine Numeral.value_eq 0 ?_ ?_
    · simp only [Numeral.mantissa, List.take_append_drop, Nat.pow_zero, Nat.mul_one]
    · simp only [Numeral.lastPower, List.length_drop]
      omega
  · simp only [ne_eq, not_true_eq_false, false_iff]
    omega
  · intro c rest is
    have whole := List.take_append_drop (d.exponent + 1).toNat d.digits
    rw [show d.digits.take (d.exponent + 1).toNat = '0' :: c :: rest from is] at whole
    exact h.ne_zero_cons _ whole.symm
  · intro c mem
    rw [List.getLast?_drop, if_neg (by omega)] at mem
    exact h.back c mem

/-- The point stands before the digits, with zeros between. -/
theorem isTextOf_small (low : -6 < d.exponent + 1) (high : d.exponent + 1 ≤ 0) :
    IsTextOf ('0' :: '.' :: (List.replicate (-(d.exponent + 1)).toNat '0' ++ d.digits)) d := by
  have zero : ∀ c ∈ ['0'], c.isDigit := List.forall_mem_singleton.2 rfl
  have digits : ∀ c ∈ List.replicate (-(d.exponent + 1)).toNat '0' ++ d.digits, c.isDigit :=
    List.forall_mem_append.2 ⟨fun c mem => List.eq_of_mem_replicate mem ▸ rfl, h.digits⟩
  have read := Numeral.read?_point zero digits (fun none => nomatch none.1) .none rfl
  rw [List.append_nil] at read
  refine ⟨_, read, ?_, ?_, fun _ => ⟨?_, ?_⟩⟩
  · refine Numeral.value_eq 0 ?_ ?_
    · simp only [Numeral.mantissa, Nat.pow_zero, Nat.mul_one]
      exact ofDigitChars_zeros (_ + 1) d.digits
    · simp only [Numeral.lastPower, List.length_append, List.length_replicate]
      omega
  · simp only [ne_eq, not_true_eq_false, false_iff]
    omega
  · rintro c rest ⟨⟩
  · intro c mem
    rw [List.getLast?_append_of_ne_nil _ h.nonempty] at mem
    exact h.back c mem

/-- The point stands behind the first digit, and an exponent behind the last one. -/
theorem isTextOf_exponent (outside : d.exponent < -6 ∨ 20 < d.exponent) :
    IsTextOf ((match d.digits with
      | first :: second :: rest => first :: '.' :: second :: rest
      | digits => digits) ++ exponentChars d.exponent) d := by
  have ends := isExponent_exponentChars d.exponent
  have power := exponentPart?_exponentChars d.exponent
  have digits := h.digits
  have written : exponentChars d.exponent ≠ [] := List.cons_ne_nil _ _
  split
  next first second rest same =>
    rw [same] at digits
    obtain ⟨digit, digits⟩ := List.forall_mem_cons.1 digits
    have read := Numeral.read?_point (List.forall_mem_singleton.2 digit) digits
      (fun none => nomatch none.1) ends power
    refine ⟨_, read, ?_, iff_of_true written outside, fun none => absurd none written⟩
    refine Numeral.value_eq 0 ?_ ?_
    · rw [Nat.pow_zero, Nat.mul_one, same]
      rfl
    · rw [Numeral.lastPower, same]
      simp
  -- behind a single digit there is no point
  next single =>
    have read := Numeral.read?_whole digits h.nonempty ends power
    refine ⟨_, read, ?_, iff_of_true written outside, fun none => absurd none written⟩
    have size : d.digits.length = 1 := by
      cases same : d.digits with
      | nil => exact absurd same h.nonempty
      | cons first rest =>
        cases rest with
        | nil => rfl
        | cons second rest => exact absurd same (single _ _ _)
    refine Numeral.value_eq 0 ?_ ?_
    · rw [Nat.pow_zero, Nat.mul_one, Numeral.mantissa, List.append_nil]
    · rw [Numeral.lastPower, size]
      simp

/-- A script lays out a decimal as a numeral that denotes it. -/
theorem isTextOf_write : IsTextOf (Layout.script.write d) d := by
  have last : Layout.script.lastPoint = 21 := rfl
  have before : Layout.script.beforeFirstPoint = -6 := rfl
  have whole : Layout.script.wholeEnd = [] := rfl
  rw [Layout.write]
  by_cases padded : d.digits.length ≤ d.exponent + 1 ∧ d.exponent + 1 ≤ Layout.script.lastPoint
  · rw [if_pos padded, whole, List.append_nil]
    exact isTextOf_padded h padded.1 padded.2
  rw [if_neg padded]
  by_cases pointed : 0 < d.exponent + 1 ∧ d.exponent + 1 ≤ Layout.script.lastPoint
  · rw [if_pos pointed]
    exact isTextOf_pointed h pointed.1 pointed.2 (by omega)
  rw [if_neg pointed]
  by_cases small : Layout.script.beforeFirstPoint < d.exponent + 1 ∧ d.exponent + 1 ≤ 0
  · rw [if_pos small]
    exact isTextOf_small h small.1 small.2
  · rw [if_neg small]
    exact isTextOf_exponent h (by omega)

end Layouts

/-! ## The search for the shortest decimal -/

theorem grid_pos (e : Int) : 0 < (grid e).1 ∧ 0 < (grid e).2 := by
  rw [grid]
  split
  · exact ⟨Nat.pow_pos (by decide), Nat.one_pos⟩
  · exact ⟨Nat.one_pos, Nat.pow_pos (by decide)⟩

/-- A power with its sign in one of two parts of a fraction. -/
theorem ite_div_ite_eq_zpow (b : Nat) (e : Int) :
    ((if 0 ≤ e then b ^ e.toNat else 1 : Nat) : ℚ) / (if 0 ≤ e then 1 else b ^ (-e).toNat : Nat) =
      (b : ℚ) ^ e := by
  split
  next natural =>
    obtain ⟨n, rfl⟩ := Int.eq_ofNat_of_zero_le natural
    rw [Int.toNat_natCast, zpow_natCast, Nat.cast_one, div_one, Nat.cast_pow]
  next negative =>
    obtain ⟨n, rfl⟩ := Int.exists_eq_neg_ofNat (Int.le_of_lt (Int.not_le.1 negative))
    rw [neg_neg, Int.toNat_natCast, zpow_neg, zpow_natCast, Nat.cast_one, one_div, Nat.cast_pow]

/-- The grid is a power of ten. -/
theorem grid_eq (e : Int) : ((grid e).1 : ℚ) / (grid e).2 = 10 ^ e := by
  have power := ite_div_ite_eq_zpow 10 e
  rw [grid]
  split at power <;> rename_i sign
  · rw [if_pos sign]
    exact power
  · rw [if_neg sign]
    exact power

variable {num den : Nat}

/-- A power of ten is compared with a fraction as the grid is. -/
theorem grid_mul_le (positive : 0 < den) (e : Int) :
    (grid e).1 * den ≤ num * (grid e).2 ↔ (10 : ℚ) ^ e ≤ num / den := by
  rw [← grid_eq, div_le_div_iff₀ (by exact_mod_cast (grid_pos e).2) (by exact_mod_cast positive)]
  norm_cast

theorem grid_mul_lt (positive : 0 < den) (e : Int) :
    (grid e).1 * den < num * (grid e).2 ↔ (10 : ℚ) ^ e < num / den := by
  rw [← grid_eq, div_lt_div_iff₀ (by exact_mod_cast (grid_pos e).2) (by exact_mod_cast positive)]
  norm_cast

theorem raise_succ (num den steps : Nat) (e : Int) :
    raise num den (steps + 1) e =
      if (grid (e + 1)).1 * den ≤ num * (grid (e + 1)).2 then raise num den steps (e + 1) else e :=
  rfl

/-- An exponent is raised no further than to the number. -/
theorem raise_le (positive : 0 < den) (steps : Nat) {e : Int}
    (low : (10 : ℚ) ^ e ≤ num / den) : (10 : ℚ) ^ raise num den steps e ≤ num / den := by
  induction steps generalizing e with
  | zero => exact low
  | succ steps ih =>
    rw [raise_succ]
    split
    next higher => exact ih ((grid_mul_le positive _).1 higher)
    next => exact low

/-- A power of ten is below a power of two if its exponent is below a fraction `a / b` of the other,
as long as the fraction is on the right side of the logarithm. -/
theorem zpow_le_of_ratio {a b : Nat} (some : b ≠ 0) {l e : Int} (ratio : b * e ≤ a * l)
    (side : (10 ^ a : ℚ) ^ l ≤ (2 ^ b : ℚ) ^ l) : (10 : ℚ) ^ e ≤ 2 ^ l := by
  have ten : (1 : ℚ) ≤ 10 := by norm_num
  have powers : ((10 : ℚ) ^ e) ^ b ≤ ((2 : ℚ) ^ l) ^ b := calc
    ((10 : ℚ) ^ e) ^ b = 10 ^ (b * e) := by rw [mul_comm, zpow_mul, zpow_natCast]
    _ ≤ 10 ^ (a * l) := zpow_le_zpow_right₀ ten ratio
    _ = (10 ^ a) ^ l := by rw [zpow_mul, zpow_natCast]
    _ ≤ (2 ^ b) ^ l := side
    _ = ((2 : ℚ) ^ l) ^ b := by rw [← zpow_natCast, ← zpow_mul, mul_comm, zpow_mul, zpow_natCast]
  exact le_of_pow_le_pow_left₀ some (by positivity) powers

/-- The decimal exponent that is estimated from a binary one is not too high. -/
theorem zpow_estimate_le {l : Int} (low : -20000 ≤ l) (high : l ≤ 20000) :
    (10 : ℚ) ^ (l * 30103 / 100000 - 1) ≤ 2 ^ l := by
  rcases le_total 0 l with natural | negative
  · -- `59 / 196` is just below the logarithm of two
    refine zpow_le_of_ratio (a := 59) (b := 196) (by decide) (by omega) ?_
    exact zpow_le_zpow_left₀ natural (by norm_num) (by norm_num)
  · -- `28 / 93` is just above it
    refine zpow_le_of_ratio (a := 28) (b := 93) (by decide) (by omega) ?_
    obtain ⟨p, rfl⟩ := Int.exists_eq_neg_ofNat negative
    rw [zpow_neg, zpow_neg]
    exact inv_anti₀ (by positivity)
      (zpow_le_zpow_left₀ (Int.natCast_nonneg p) (by norm_num) (by norm_num))

/-- A positive rational is not below the power of two of its estimated binary logarithm. -/
theorem zpow_log2_le (positive : 0 < num) (positive' : 0 < den) :
    (2 : ℚ) ^ ((num.log2 : Int) - den.log2 - 1) ≤ num / den := by
  have two : (2 : ℚ) ≠ 0 := by norm_num
  have below : 2 ^ num.log2 ≤ num := ((Nat.log2_eq_iff positive.ne').1 rfl).1
  have above : den < 2 ^ (den.log2 + 1) := ((Nat.log2_eq_iff positive'.ne').1 rfl).2
  have power : (2 : ℚ) ^ ((num.log2 : Int) - den.log2 - 1) = 2 ^ num.log2 / 2 ^ (den.log2 + 1) := by
    rw [sub_sub, zpow_sub₀ two, zpow_natCast]
    norm_cast
  rw [power]
  exact div_le_div₀ (by positivity) (by exact_mod_cast below) (by exact_mod_cast positive')
    (by exact_mod_cast above.le)

/-- The decimal exponent of a number is not too high. -/
theorem zpow_decimalExponent_le (positive : 0 < num) (positive' : 0 < den)
    (log : num.log2 < 10000) (log' : den.log2 < 10000) :
    (10 : ℚ) ^ decimalExponent num den ≤ num / den := by
  refine raise_le positive' 3 ?_
  exact (zpow_estimate_le (by omega) (by omega)).trans (zpow_log2_le positive positive')

namespace Interval

variable {i : Interval} {tie : Tie} {e : Int} {n : Nat}

/-- A point between the ends belongs to the interval. -/
theorem contains_of_lt {c num den : Nat} (low : i.low * den < c * num * i.denominator)
    (high : c * num * i.denominator < i.high * den) : i.contains c num den = true := by
  rw [contains]
  split <;> simp only [Bool.and_eq_true, decide_eq_true_eq]
  · exact ⟨low.le, high.le⟩
  · exact ⟨low, high⟩

/-- A point of the interval lies between its ends, which may belong to it. -/
theorem le_of_contains {c num den : Nat} (h : i.contains c num den = true) :
    i.low * den ≤ c * num * i.denominator ∧ c * num * i.denominator ≤ i.high * den := by
  rw [contains] at h
  split at h <;> simp only [Bool.and_eq_true, decide_eq_true_eq] at h
  · exact h
  · exact ⟨h.1.le, h.2.le⟩

/-- A point of an interval of positive numbers is positive. -/
theorem pos_of_contains {c num den : Nat} (low : 0 < i.low) (positive : 0 < den)
    (h : i.contains c num den = true) : 0 < c := by
  have least := (le_of_contains h).1
  refine Nat.pos_of_ne_zero ?_
  rintro rfl
  have := Nat.mul_pos low positive
  rw [Nat.zero_mul, Nat.zero_mul] at least
  omega

/-- What is found on a grid belongs to the interval. -/
theorem contains_of_nearest? (h : i.nearest? tie e = some n) :
    i.contains n (grid e).1 (grid e).2 = true := by
  unfold nearest? at h
  generalize grid e = point at h ⊢
  obtain ⟨num, den⟩ := point
  dsimp only at h ⊢
  split at h
  next => cases h
  next below _ =>
    cases h
    exact below
  next _ above =>
    cases h
    exact above
  next below above =>
    -- whichever of the two is nearer
    have either : some (i.value * den / (num * i.denominator)) = some n ∨
        some (i.value * den / (num * i.denominator) + 1) = some n := by
      split at h
      · exact .inl h
      split at h
      · exact .inr h
      split at h
      · exact .inr h
      split at h
      · exact .inl h
      · exact .inr h
    rcases either with h | h <;> cases h
    · exact below
    · exact above

/-- A grid that is finer than the interval has a point in it. -/
theorem exists_nearest? (low : i.low < i.value) (high : i.value < i.high)
    (nonzero : 0 < i.denominator)
    (fine : (grid e).1 * i.denominator < (i.high - i.low) * (grid e).2) :
    ∃ n, i.nearest? tie e = some n := by
  have positive := Nat.mul_pos (grid_pos e).1 nonzero
  have positive' := (grid_pos e).2
  unfold nearest?
  generalize grid e = point at fine positive positive' ⊢
  obtain ⟨num, den⟩ := point
  dsimp only at fine positive positive' ⊢
  have least : i.low * den < i.value * den := Nat.mul_lt_mul_of_pos_right low positive'
  have greatest : i.value * den < i.high * den := Nat.mul_lt_mul_of_pos_right high positive'
  rw [Nat.sub_mul] at fine
  have division := Nat.div_add_mod (i.value * den) (num * i.denominator)
  have rest := Nat.mod_lt (i.value * den) positive
  split
  next none none' =>
    generalize i.value * den / (num * i.denominator) = q at none none' division
    have point (c : Nat) : c * num * i.denominator = num * i.denominator * c := by
      rw [Nat.mul_assoc, Nat.mul_comm]
    by_cases inside : i.low * den < num * i.denominator * q
    · rw [contains_of_lt (by rwa [point]) (by rw [point]; omega)] at none
      cases none
    · -- the point below is too low, and the next one is less than the interval away
      rw [contains_of_lt (by rw [point, Nat.mul_add]; omega)
        (by rw [point, Nat.mul_add]; omega)] at none'
      cases none'
  next => exact ⟨_, rfl⟩
  next => exact ⟨_, rfl⟩
  next =>
    split
    · exact ⟨_, rfl⟩
    split
    · exact ⟨_, rfl⟩
    split
    · exact ⟨_, rfl⟩
    split
    · exact ⟨_, rfl⟩
    · exact ⟨_, rfl⟩

/-- What the search finds belongs to the interval. -/
theorem contains_of_search {top : Int} {steps : Nat} {count : Int}
    (h : i.search tie top steps count = some (n, e)) : i.contains n (grid e).1 (grid e).2 = true := by
  induction steps generalizing count with
  | zero => cases h
  | succ steps ih =>
    rw [search] at h
    split at h
    next found =>
      cases h
      exact contains_of_nearest? found
    next => exact ih h

/-- The search finds a point if there is one on its last grid. -/
theorem exists_search {top : Int} {steps : Nat} {count : Int}
    (last : ∃ n, i.nearest? tie (top + 1 - (count + steps)) = some n) :
    ∃ found, i.search tie top (steps + 1) count = some found := by
  induction steps generalizing count with
  | zero =>
    obtain ⟨n, found⟩ := last
    rw [Int.natCast_zero, Int.add_zero] at found
    rw [search, found]
    exact ⟨_, rfl⟩
  | succ steps ih =>
    rw [search]
    split
    next => exact ⟨_, rfl⟩
    next =>
      refine ih ?_
      rwa [Int.add_assoc, Int.add_comm 1, ← Int.natCast_succ]

end Interval

/-! ## Shortest decimals -/

/-- A magnitude that a finite double other than zero has. -/
structure Dyadic.IsNormal (d : Dyadic) : Prop where
  positive : 0 < d.mantissa
  small : d.mantissa < 2 ^ 53
  low : -1074 ≤ d.exponent
  high : d.exponent ≤ 971

namespace Dyadic

variable {d : Dyadic}

/-- What the numerators of the interval are multiplied with. -/
def scale (d : Dyadic) : Nat := if 0 ≤ d.exponent - 2 then twoTo (d.exponent - 2).toNat else 1

theorem scale_pos (d : Dyadic) : 0 < d.scale := by
  rw [scale]
  split
  · exact Nat.two_pow_pos _
  · exact Nat.one_pos

/-- The ends of the interval lie two quarters of a unit around the value, but for the least mantissa,
where the lower end may lie one quarter below it. -/
theorem exists_interval (d : Dyadic) : ∃ below, (below = 2 ∨ below = 1 ∧ d.mantissa = 2 ^ 52) ∧
    d.interval.low = (4 * d.mantissa - below) * d.scale ∧
    d.interval.value = 4 * d.mantissa * d.scale ∧
    d.interval.high = (4 * d.mantissa + 2) * d.scale := by
  refine ⟨_, ?_, rfl, rfl, rfl⟩
  split
  next least => exact .inr ⟨rfl, least.1⟩
  next => exact .inl rfl

theorem denominator_pos (d : Dyadic) : 0 < d.interval.denominator := by
  show 0 < if 0 ≤ d.exponent - 2 then 1 else twoTo (-(d.exponent - 2)).toNat
  split
  · exact Nat.one_pos
  · exact Nat.two_pow_pos _

/-- The quarters of the interval are those of the last place of the mantissa. -/
theorem scale_div_denominator (d : Dyadic) :
    (d.scale : ℚ) / d.interval.denominator = 2 ^ (d.exponent - 2) :=
  ite_div_ite_eq_zpow 2 (d.exponent - 2)

theorem log2_lt_of_lt {n k : Nat} (positive : 0 < n) (small : n < 2 ^ k) : n.log2 < k :=
  (Nat.log2_lt positive.ne').2 small

section Normal

variable (h : d.IsNormal)
include h

/-- The interval is one of positive numbers around the value, and it is wider than the value by 16
digits at most. -/
theorem interval_spec : 0 < d.interval.low ∧ d.interval.low < d.interval.value ∧
    d.interval.value < d.interval.high ∧
    d.interval.value < (d.interval.high - d.interval.low) * 10 ^ 16 := by
  obtain ⟨below, least, low, value, high⟩ := d.exists_interval
  have positive := d.scale_pos
  have := h.positive
  have := h.small
  have width : (4 * d.mantissa + 2) * d.scale - (4 * d.mantissa - below) * d.scale =
      (2 + below) * d.scale := by
    rw [← Nat.sub_mul]
    congr 1
    omega
  rw [low, value, high, width, Nat.mul_right_comm (2 + below)]
  refine ⟨Nat.mul_pos (by omega) positive, Nat.mul_lt_mul_of_pos_right (by omega) positive,
    Nat.mul_lt_mul_of_pos_right (by omega) positive,
    Nat.mul_lt_mul_of_pos_right (by omega) positive⟩

/-- The numbers that the decimal exponent is estimated from are of moderate size. -/
theorem log2_interval :
    d.interval.value.log2 < 10000 ∧ d.interval.denominator.log2 < 10000 := by
  have low := h.low
  have high := h.high
  constructor
  · show (4 * d.mantissa * if 0 ≤ d.exponent - 2 then twoTo (d.exponent - 2).toNat else 1).log2 < _
    -- the lowest bit of the mantissa counts four units of the interval
    have mantissa : 4 * d.mantissa < 2 ^ 55 := Nat.mul_lt_mul_of_pos_left h.small (by decide)
    have positive : 0 < 4 * d.mantissa := Nat.mul_pos (by decide) h.positive
    split
    · have power := Nat.two_pow_pos (d.exponent - 2).toNat
      have small : 4 * d.mantissa * 2 ^ (d.exponent - 2).toNat < 2 ^ (55 + (d.exponent - 2).toNat) := by
        rw [Nat.pow_add]
        exact Nat.mul_lt_mul_of_pos_right mantissa power
      exact (log2_lt_of_lt (Nat.mul_pos positive power) small).trans (by omega)
    · rw [Nat.mul_one]
      exact (log2_lt_of_lt positive mantissa).trans (by decide)
  · show (if 0 ≤ d.exponent - 2 then 1 else twoTo (-(d.exponent - 2)).toNat).log2 < _
    split
    · decide
    · rw [twoTo, Nat.pow_eq, Nat.log2_two_pow]
      omega

/-- **There is a decimal with seventeen digits at most.** -/
theorem exists_search (tie : Tie) : ∃ found, d.interval.search tie
    (decimalExponent d.interval.value d.interval.denominator) 17 1 = some found := by
  obtain ⟨positive, low, high, wide⟩ := interval_spec h
  obtain ⟨log, log'⟩ := log2_interval h
  have ten : (10 : ℚ) ≠ 0 := by norm_num
  have nonzero := d.denominator_pos
  refine Interval.exists_search (Interval.exists_nearest? low high nonzero ?_)
  -- the grid of decimals with 17 digits is finer than the interval
  rw [grid_mul_lt nonzero]
  have top := zpow_decimalExponent_le (positive.trans low) nonzero log log'
  generalize decimalExponent d.interval.value d.interval.denominator = e at top ⊢
  calc (10 : ℚ) ^ (e + 1 - (1 + (16 : Nat)))
    _ = 10 ^ e / 10 ^ 16 := by
      rw [← zpow_natCast, ← zpow_sub₀ ten]
      congr 1
      omega
    _ ≤ d.interval.value / d.interval.denominator / 10 ^ 16 := by gcongr
    _ < ((d.interval.high - d.interval.low : Nat) : ℚ) / d.interval.denominator := by
      rw [div_right_comm]
      gcongr
      rw [div_lt_iff₀ (by positivity)]
      exact_mod_cast wide

end Normal

end Dyadic

/-! ## Shortest decimals in scientific notation -/

/-- Zeros at the end are what the stripped digits lack. -/
theorem stripZeros_append (n : Nat) :
    (stripZeros n).1 ++ List.replicate (stripZeros n).2 '0' = Nat.toDigits 10 n := by
  have zeros : (Nat.toDigits 10 n).reverse.takeWhile (· = '0') =
      List.replicate (stripZeros n).2 '0' :=
    List.eq_replicate_iff.2 ⟨rfl, fun c mem => by simpa using List.mem_takeWhile_imp mem⟩
  have both := List.takeWhile_append_dropWhile (p := (· = '0')) (l := (Nat.toDigits 10 n).reverse)
  rw [zeros] at both
  have := congrArg List.reverse both
  simpa [stripZeros] using this

/-- The digits of a positive number without the zeros at the end. -/
theorem isScientific_stripZeros {n : Nat} (positive : 0 < n) (e : Int) :
    Decimal.IsScientific ⟨(stripZeros n).1, e⟩ := by
  have whole := stripZeros_append n
  have front := head?_toDigits_ne positive
  -- the first digit is no zero, so that not all digits are zeros at the end
  have nonempty : (stripZeros n).1 ≠ [] := by
    intro none
    rw [none, List.nil_append] at whole
    rw [← whole] at front
    cases zeros : (stripZeros n).2 with
    | zero =>
      rw [zeros] at whole
      exact Nat.toDigits_ne_nil whole.symm
    | succ k => simp [zeros, List.replicate_succ] at front
  refine ⟨nonempty, fun c mem => ?_, fun c mem zero => front ?_, fun c mem zero => ?_⟩
  · exact Nat.isDigit_of_mem_toDigits (by omega) (by omega) (whole ▸ List.mem_append_left _ mem)
  · rw [← whole, List.head?_append, mem, zero]
    rfl
  · have last : ((Nat.toDigits 10 n).reverse.dropWhile (· = '0')).head? = some c :=
      List.getLast?_reverse.symm.trans mem
    have kept := List.head?_dropWhile_not (· = '0') (Nat.toDigits 10 n).reverse
    rw [last] at kept
    exact absurd zero (of_decide_eq_false kept)

/-- The shortest decimal is a point of a grid in the interval, written in scientific notation. -/
theorem Dyadic.exists_shortest {d : Dyadic} (h : d.IsNormal) (tie : Tie) :
    ∃ n e, 0 < n ∧ d.interval.contains n (grid e).1 (grid e).2 = true ∧
      d.shortest tie = ⟨(stripZeros n).1, e + (stripZeros n).2 + (stripZeros n).1.length - 1⟩ := by
  obtain ⟨⟨n, e⟩, found⟩ := exists_search h tie
  have inside := Interval.contains_of_search found
  have positive := Interval.pos_of_contains (interval_spec h).1 (grid_pos e).2 inside
  refine ⟨n, e, positive, inside, ?_⟩
  unfold shortest
  dsimp only
  rw [found]

/-- **The shortest decimal of a number is in scientific notation.** -/
theorem Dyadic.IsNormal.isScientific_shortest {d : Dyadic} (h : d.IsNormal) (tie : Tie) :
    (d.shortest tie).IsScientific := by
  obtain ⟨n, e, positive, -, shortest⟩ := Dyadic.exists_shortest h tie
  rw [shortest]
  exact isScientific_stripZeros positive _

/-- Digits in scientific notation with the zeros that they lack denote the number they are taken
from. -/
theorem value_stripZeros (n : Nat) (e : Int) :
    Decimal.value ⟨(stripZeros n).1, e + (stripZeros n).2 + (stripZeros n).1.length - 1⟩ =
      n * 10 ^ e := by
  have ten : (10 : ℚ) ≠ 0 := by norm_num
  have number : n = Nat.ofDigitChars 10 (stripZeros n).1 0 * 10 ^ (stripZeros n).2 := by
    rw [← ofDigitChars_append_zeros, stripZeros_append,
      Nat.ofDigitChars_toDigits (by omega) (by omega)]
  have power (zeros size : Nat) : e + zeros + size - 1 - (size - 1) = e + zeros := by omega
  calc Decimal.value ⟨(stripZeros n).1, e + (stripZeros n).2 + (stripZeros n).1.length - 1⟩
    _ = (Nat.ofDigitChars 10 (stripZeros n).1 0 : ℚ) * 10 ^ (e + (stripZeros n).2) := by
      rw [Decimal.value, power]
    _ = (Nat.ofDigitChars 10 (stripZeros n).1 0 * 10 ^ (stripZeros n).2 : Nat) * 10 ^ e := by
      rw [zpow_add₀ ten, zpow_natCast, mul_comm ((10 : ℚ) ^ e), ← mul_assoc]
      norm_cast
    _ = n * 10 ^ e := by rw [← number]

/-- The rational number that a magnitude stands for. -/
def Dyadic.value (d : Dyadic) : ℚ := d.mantissa * 2 ^ d.exponent

/-- **The shortest decimal of a number is half a unit in the last place away from it at most.** -/
theorem Dyadic.IsNormal.abs_value_shortest_sub_le {d : Dyadic} (h : d.IsNormal) (tie : Tie) :
    |(d.shortest tie).value - d.value| ≤ 2 ^ d.exponent / 2 := by
  obtain ⟨n, e, -, inside, shortest⟩ := Dyadic.exists_shortest h tie
  obtain ⟨below, least, low, -, high⟩ := d.exists_interval
  obtain ⟨lower, upper⟩ := Interval.le_of_contains inside
  have positive : (0 : ℚ) < d.interval.denominator := by exact_mod_cast d.denominator_pos
  have positive' : (0 : ℚ) < (grid e).2 := by exact_mod_cast (grid_pos e).2
  have two : (2 : ℚ) ≠ 0 := by norm_num
  have unit : (2 : ℚ) ^ d.exponent = 4 * 2 ^ (d.exponent - 2) := by
    rw [zpow_sub₀ two]
    norm_num
    ring
  have point : (d.shortest tie).value = n * (grid e).1 / (grid e).2 := by
    rw [shortest, value_stripZeros, ← grid_eq, mul_div_assoc]
  -- both ends, in quarters of the last place
  have width : 4 * d.mantissa * d.scale ≤ d.interval.low + 2 * d.scale := by
    rw [low, ← Nat.add_mul]
    exact Nat.mul_le_mul_right _ (by omega)
  have least : (4 * d.mantissa - 2) * (2 : ℚ) ^ (d.exponent - 2) ≤ (d.shortest tie).value := by
    rw [point, ← d.scale_div_denominator, ← mul_div_assoc, div_le_div_iff₀ positive positive']
    have width : ((4 * d.mantissa - 2) * d.scale : ℚ) ≤ d.interval.low := by
      have : ((4 * d.mantissa * d.scale : Nat) : ℚ) ≤ (d.interval.low + 2 * d.scale : Nat) := by
        exact_mod_cast width
      push_cast at this
      linarith
    calc ((4 * d.mantissa - 2) * d.scale : ℚ) * (grid e).2
      _ ≤ d.interval.low * (grid e).2 := by gcongr
      _ ≤ n * (grid e).1 * d.interval.denominator := by exact_mod_cast lower
  have greatest : (d.shortest tie).value ≤ (4 * d.mantissa + 2) * (2 : ℚ) ^ (d.exponent - 2) := by
    rw [point, ← d.scale_div_denominator, ← mul_div_assoc, div_le_div_iff₀ positive' positive]
    rw [high] at upper
    exact_mod_cast upper
  rw [Dyadic.value, abs_le, unit]
  constructor <;> linarith

/-! ## Doubles -/

section Doubles

open Float.Model Float.Model.UnpackedFloat

variable {x : Float}

/-- The same number with another sign. -/
def withSign (s : Sign) : UnpackedFloat → UnpackedFloat
  | .notANumber => .notANumber
  | .infinity _ => .infinity s
  | .zero _ => .zero s
  | .finite _ m e positive => .finite s m e positive

/-- A number with fewer bits in its mantissa is stored under the exponent field zero. -/
theorem pack_subnormal {m : Nat} (positive : 0 < m) (small : m < 2 ^ 52) (s : Sign) :
    UnpackedFloat.pack double (.finite s m (-1074) positive) =
      packComponents double s 0#_ (.ofNat 52 m) := by
  have length : m.log2 + 1 ≠ double.mantissaBits := by
    have log := (Nat.log2_lt positive.ne').2 small
    show m.log2 + 1 ≠ 53
    omega
  delta UnpackedFloat.pack
  dsimp only
  rw [if_neg (by decide), if_neg length]

/-- The bits of a number with another sign. -/
theorem pack_withSign {b : BitVec 64} (number : (UnpackedFloat.unpack double b).isNaN = false)
    (s : Sign) : UnpackedFloat.pack double (withSign s (UnpackedFloat.unpack double b)) =
      packComponents double s (unpackExponent b) (unpackMantissa b) := by
  have small : (@unpackMantissa double b).toNat < 2 ^ 52 := (@unpackMantissa double b).isLt
  have small' : (@unpackExponent double b).toNat < 2 ^ 11 := (@unpackExponent double b).isLt
  unfold UnpackedFloat.unpack at number ⊢
  dsimp only at number ⊢
  by_cases special : @unpackExponent double b = -1#(double.exponentBits)
  -- infinities
  · rw [if_pos special] at number ⊢
    by_cases mantissa : @unpackMantissa double b = 0#(double.mantissaBitsWithoutImplicit)
    · rw [if_pos mantissa, special, mantissa]
      rfl
    · rw [if_neg mantissa] at number
      cases number
  rw [if_neg special]
  by_cases exponent : @unpackExponent double b = 0#(double.exponentBits)
  -- zeros and subnormal numbers
  · rw [if_pos exponent, exponent]
    by_cases mantissa : @unpackMantissa double b = 0#(double.mantissaBitsWithoutImplicit)
    · rw [dif_pos mantissa, mantissa]
      rfl
    · have positive : 0 < (@unpackMantissa double b).toNat :=
        Nat.pos_of_ne_zero fun h => mantissa (BitVec.eq_of_toNat_eq h)
      rw [dif_neg mantissa]
      refine (pack_subnormal positive small s).trans ?_
      rw [BitVec.ofNat_toNat]
      rfl
  -- normal numbers, whose leading bit is not stored
  · have whole : (1#1 ++ @unpackMantissa double b).toNat =
        2 ^ 52 + (@unpackMantissa double b).toNat := by
      rw [BitVec.toNat_append, ← Nat.shiftLeft_add_eq_or_of_lt (BitVec.isLt _)]
      rfl
    have full : IsFull (1#1 ++ @unpackMantissa double b).toNat := by
      rw [whole]
      constructor <;> omega
    have least : (@unpackExponent double b).toNat ≠ 0 := fun h => exponent (BitVec.eq_of_toNat_eq h)
    have greatest : (@unpackExponent double b).toNat ≠ 2047 := fun h =>
      special (BitVec.eq_of_toNat_eq h)
    have bias : ((double.exponentBias : Int) + double.mantissaBitsWithoutImplicit) = 1075 := rfl
    rw [if_neg exponent]
    refine (pack_full full (by rw [bias]; omega) (by rw [bias]; omega) s).trans ?_
    congr 1
    · refine BitVec.eq_of_toNat_eq ?_
      rw [BitVec.toNat_ofNat, bias]
      omega
    · refine BitVec.eq_of_toNat_eq ?_
      rw [BitVec.toNat_ofNat, whole]
      show _ % 2 ^ 52 = _
      omega

/-- The fields of a number. -/
theorem fields_toModel (x : Float) :
    fields x.toModel.unpack = (exponentField x, fractionField x) :=
  fields_unpack x.toModel.valid

/-- A finite number is a zero or has a positive magnitude. -/
theorem unpack_of_isFinite (finite : isFinite x = true) :
    (∃ s, x.toModel.unpack = .zero s) ∨
      ∃ s m e positive, x.toModel.unpack = .finite s m e positive := by
  have fields := fields_toModel x
  have exponent : exponentField x ≠ 2047 := of_decide_eq_true finite
  cases unpacked : x.toModel.unpack with
  | notANumber | infinity =>
    rw [unpacked] at fields
    exact absurd (Prod.mk.inj fields).1.symm exponent
  | zero s => exact .inl ⟨s, rfl⟩
  | finite s m e positive => exact .inr ⟨s, m, e, positive, rfl⟩

/-- A finite number is a number. -/
theorem isNaN_of_isFinite (finite : isFinite x = true) : x.isNaN = false := by
  show x.toModel.unpack.isNaN = false
  rcases unpack_of_isFinite finite with ⟨s, unpacked⟩ | ⟨s, m, e, positive, unpacked⟩ <;>
    rw [unpacked] <;> rfl

/-- A finite number above zero has no sign bit. -/
theorem isNegative_of_pos (finite : isFinite x = true) (positive : 0 < x) :
    isNegative x = false ∧ (x == 0) = false := by
  have compared : ((UnpackedFloat.zero .positive).compare x.toModel.unpack == some .lt) = true :=
    of_decide_eq_true positive
  rcases unpack_of_isFinite finite with ⟨s, unpacked⟩ | ⟨s, m, e, positive, unpacked⟩ <;>
    rw [unpacked] at compared
  · cases compared
  · cases s with
    | negative => cases compared
    | positive =>
      refine ⟨isNegative_of_unpack unpacked, ?_⟩
      show (x.toModel.unpack.compare (.zero .positive) == some .eq) = false
      rw [unpacked]
      rfl

/-- A finite number below zero has a sign bit. -/
theorem isNegative_of_neg (finite : isFinite x = true) (negative : x < 0) :
    isNegative x = true ∧ (x == 0) = false := by
  have compared : (x.toModel.unpack.compare (.zero .positive) == some .lt) = true :=
    of_decide_eq_true negative
  rcases unpack_of_isFinite finite with ⟨s, unpacked⟩ | ⟨s, m, e, positive, unpacked⟩ <;>
    rw [unpacked] at compared
  · cases compared
  · cases s with
    | positive => cases compared
    | negative =>
      refine ⟨isNegative_of_unpack unpacked, ?_⟩
      show (x.toModel.unpack.compare (.zero .positive) == some .eq) = false
      rw [unpacked]
      rfl

/-- What compares as equal to zero has no bits but its sign. -/
theorem beq_zero_iff : (x == 0) = true ↔ exponentField x = 0 ∧ fractionField x = 0 := by
  have zeros : fields x.toModel.unpack = (0, 0) ↔ exponentField x = 0 ∧ fractionField x = 0 := by
    rw [fields_toModel, Prod.mk.injEq]
  rw [← zeros]
  constructor
  · exact fun equal => fields_eq_of_compare (eq_of_beq equal)
  · intro same
    cases sign : isNegative x with
    | false =>
      have zero : x = Float.ofBits 0 := eq_of_fields same (sign.trans rfl)
      rw [zero]
      rfl
    | true =>
      have zero : x = Float.ofBits 0x8000000000000000 := eq_of_fields same (sign.trans rfl)
      rw [zero]
      rfl

/-- The magnitude of a finite number other than zero. -/
theorem isNormal_dyadic (finite : isFinite x = true) (nonzero : (x == 0) = false) :
    (dyadic x).IsNormal := by
  have exponent : exponentField x ≠ 2047 := of_decide_eq_true finite
  have bound : exponentField x < 2 ^ 11 := Nat.mod_lt _ (by decide)
  have fraction : fractionField x < 2 ^ 52 := Nat.mod_lt _ (by decide)
  have some : ¬(exponentField x = 0 ∧ fractionField x = 0) := fun zero => by
    rw [beq_zero_iff.2 zero] at nonzero
    cases nonzero
  have power : twoTo 52 = 2 ^ 52 := rfl
  rw [dyadic]
  split
  · constructor <;> dsimp only <;> omega
  · constructor <;> dsimp only <;> omega

/-- The bits of an absolute value. -/
theorem toNat_toBits_abs (number : x.isNaN = false) :
    x.abs.toBits.toNat = exponentField x * 2 ^ 52 + fractionField x := by
  have positive (u : UnpackedFloat) : u.abs = withSign .positive u := by cases u <;> rfl
  have exponent : exponentField x = (@unpackExponent double x.toModel.toBits.toBitVec).toNat :=
    (toNat_unpackExponent _).symm
  have fraction : fractionField x = (@unpackMantissa double x.toModel.toBits.toBitVec).toNat :=
    (toNat_unpackMantissa _).symm
  rw [exponent, fraction]
  show (UnpackedFloat.pack double x.toModel.unpack.abs).toNat = _
  rw [positive, Float.Model.unpack, pack_withSign number, toNat_packComponents]

/-- An absolute value has the magnitude of the number and no sign. -/
theorem abs_spec (number : x.isNaN = false) :
    exponentField x.abs = exponentField x ∧ fractionField x.abs = fractionField x ∧
      isNegative x.abs = false := by
  have bits := toNat_toBits_abs number
  have exponent : exponentField x < 2 ^ 11 := Nat.mod_lt _ (by decide)
  have fraction : fractionField x < 2 ^ 52 := Nat.mod_lt _ (by decide)
  have powers : twoTo 52 = 2 ^ 52 ∧ twoTo 11 = 2 ^ 11 ∧ twoTo 63 = 2 ^ 63 := ⟨rfl, rfl, rfl⟩
  refine ⟨?_, ?_, ?_⟩
  · rw [exponentField, bits, powers.1, powers.2.1]
    omega
  · rw [fractionField, bits, powers.1]
    omega
  · rw [isNegative, bits, powers.2.2]
    exact decide_eq_false (by omega)

/-- The text of a finite number other than zero. -/
theorem text_of_isFinite (finite : isFinite x = true) (nonzero : (x == 0) = false) :
    text x = signed x (Layout.script.magnitude x) := by
  rw [text, isNaN_of_isFinite finite, nonzero, finite]
  rfl

end Doubles

/-- **The text of a number denotes its digits.** The text of a finite number above zero is read as a
numeral that denotes the shortest decimal of the number. It has an exponent if and only if the decimal
exponent is below -6 or above 20, and no superfluous zeros otherwise. Below zero, a minus sign stands
before the text of the absolute value. -/
theorem text_denotes {x : Float} (finite : isFinite x = true) :
    (0 < x → ((dyadic x).shortest .away).IsScientific ∧
      IsTextOf (text x).toList ((dyadic x).shortest .away)) ∧
      (x < 0 → text x = "-" ++ text x.abs) := by
  have number := isNaN_of_isFinite finite
  constructor
  · intro above
    obtain ⟨positive, nonzero⟩ := isNegative_of_pos finite above
    have scientific := (isNormal_dyadic finite nonzero).isScientific_shortest .away
    refine ⟨scientific, ?_⟩
    rw [text_of_isFinite finite nonzero, signed, positive, String.toList_ofList]
    exact isTextOf_write scientific
  · intro below
    obtain ⟨negative, nonzero⟩ := isNegative_of_neg finite below
    -- the absolute value differs from the number in its sign alone
    obtain ⟨exponent, fraction, positive⟩ := abs_spec number
    have finite' : isFinite x.abs = true := by rwa [isFinite, exponent]
    have nonzero' : (x.abs == 0) = false := by
      rw [← nonzero, Bool.eq_iff_iff, beq_zero_iff, beq_zero_iff, exponent, fraction]
    have magnitude : dyadic x.abs = dyadic x := by rw [dyadic, dyadic, exponent, fraction]
    rw [text_of_isFinite finite nonzero, text_of_isFinite finite' nonzero', signed, signed, negative,
      positive, Layout.magnitude, Layout.magnitude, magnitude]
    exact String.toList_inj.1 (by simp)

/-- The number 1.25e22 is written with an exponent, and its negation with a minus sign before that. -/
theorem text_denotes_large :
    (isFinite (Float.ofBits 0x44852D02C7E14AF6) = true ∧
      0 < Float.ofBits 0x44852D02C7E14AF6 ∧
      (dyadic (Float.ofBits 0x44852D02C7E14AF6)).shortest .away = ⟨['1', '2', '5'], 22⟩ ∧
      text (Float.ofBits 0x44852D02C7E14AF6) = "1.25e+22" ∧
      IsTextOf "1.25e+22".toList ⟨['1', '2', '5'], 22⟩) ∧
      isFinite (Float.ofBits 0xC4852D02C7E14AF6) = true ∧
      Float.ofBits 0xC4852D02C7E14AF6 < 0 ∧
      text (Float.ofBits 0xC4852D02C7E14AF6) =
        "-" ++ text (Float.ofBits 0xC4852D02C7E14AF6).abs := by
  have finite : isFinite (Float.ofBits 0x44852D02C7E14AF6) = true := by decide +kernel
  have positive : 0 < Float.ofBits 0x44852D02C7E14AF6 := by decide +kernel
  have shortest : (dyadic (Float.ofBits 0x44852D02C7E14AF6)).shortest .away =
      ⟨['1', '2', '5'], 22⟩ := by decide +kernel
  have written : text (Float.ofBits 0x44852D02C7E14AF6) = "1.25e+22" := by decide +kernel
  have denoted := ((text_denotes finite).1 positive).2
  rw [written, shortest] at denoted
  have finite' : isFinite (Float.ofBits 0xC4852D02C7E14AF6) = true := by decide +kernel
  have negative : Float.ofBits 0xC4852D02C7E14AF6 < 0 := by decide +kernel
  exact ⟨⟨finite, positive, shortest, written, denoted⟩, finite', negative,
    (text_denotes finite').2 negative⟩

end AbstractScript.Number
