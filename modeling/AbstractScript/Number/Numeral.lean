/-!
# Decimal numerals of natural numbers

The value of a string of digits. A numeral is read as the number it was written for
(`natOfDigits?_repr`), so that different numbers have different numerals (`repr_inj`); and digits
without a superfluous zero are the numeral of their value (`repr_of_natOfDigits?`).
-/
namespace AbstractScript.Number

/-- The value of a string of decimal digits. -/
def natOfDigits? (cs : List Char) : Option Nat :=
  if cs ≠ [] ∧ cs.all Char.isDigit then some (Nat.ofDigitChars 10 cs 0) else none

/-- A numeral holds digits only. -/
theorem isDigit_of_mem_repr {n : Nat} {c : Char} (hc : c ∈ (Nat.repr n).toList) :
    c.isDigit = true :=
  Nat.isDigit_of_mem_toDigits (by omega) (by omega) (Nat.toList_repr ▸ hc)

/-- A numeral is read as the number it was written for. -/
theorem natOfDigits?_repr (n : Nat) : natOfDigits? (Nat.repr n).toList = some n := by
  have digits : ∀ c ∈ Nat.toDigits 10 n, c.isDigit = true := fun c hc =>
    Nat.isDigit_of_mem_toDigits (by omega) (by omega) hc
  rw [natOfDigits?, Nat.toList_repr, if_pos ⟨Nat.toDigits_ne_nil, List.all_eq_true.2 digits⟩,
    Nat.ofDigitChars_toDigits (by omega) (by omega)]

/-- Different numbers have different numerals. -/
theorem repr_inj {m n : Nat} : Nat.repr m = Nat.repr n ↔ m = n := by
  constructor
  · intro h
    have read := natOfDigits?_repr m
    rw [h, natOfDigits?_repr] at read
    exact (Option.some.inj read).symm
  · rintro rfl
    rfl

/-- A digit is the numeral of its value. -/
theorem toDigits_digit {c : Char} (h : c.isDigit = true) :
    Nat.toDigits 10 (c.toNat - '0'.toNat) = [c] := by
  obtain ⟨low, high⟩ := Char.isDigit_iff_toNat.1 h
  have digits : ∀ d < 10, Nat.toDigits 10 d = [Char.ofNat ('0'.toNat + d)] := by decide
  have small : c.toNat - '0'.toNat < 10 := by
    have : '9'.toNat = '0'.toNat + 9 := rfl
    omega
  rw [digits _ small, Nat.add_sub_cancel' low, Char.ofNat_toNat]

/-- Digits after a positive number follow its numeral. -/
theorem toDigits_ofDigitChars {cs : List Char} (digits : ∀ c ∈ cs, c.isDigit = true) {n : Nat}
    (positive : 0 < n) :
    Nat.toDigits 10 (Nat.ofDigitChars 10 cs n) = Nat.toDigits 10 n ++ cs := by
  induction cs generalizing n with
  | nil => simp [Nat.ofDigitChars]
  | cons c cs ih =>
    have digit := toDigits_digit (digits c List.mem_cons_self)
    have small : c.toNat - '0'.toNat < 10 := by
      have := Char.isDigit_iff_toNat.1 (digits c List.mem_cons_self)
      have : '9'.toNat = '0'.toNat + 9 := rfl
      omega
    rw [Nat.ofDigitChars_cons, ih (fun c hc => digits c (List.mem_cons_of_mem _ hc)) (by omega),
      ← Nat.toDigits_append_toDigits (by omega) positive small, digit, List.append_assoc,
      List.singleton_append]

/-- Digits without a superfluous zero in front are the numeral of their value. -/
theorem repr_of_natOfDigits? {cs : List Char} {n : Nat} (h : natOfDigits? cs = some n)
    (front : ∀ d rest, cs ≠ '0' :: d :: rest) : (Nat.repr n).toList = cs := by
  obtain ⟨⟨nonempty, digits⟩, value⟩ := Option.ite_none_right_eq_some.1 h
  obtain rfl := Option.some.inj value
  have digits : ∀ c ∈ cs, c.isDigit = true := List.all_eq_true.1 digits
  rw [Nat.toList_repr]
  match cs with
  | [c] => simpa [Nat.ofDigitChars] using toDigits_digit (digits c List.mem_cons_self)
  | c :: d :: rest =>
    have nonzero : c ≠ '0' := fun h => front d rest (by rw [h])
    have positive : 0 < c.toNat - '0'.toNat := by
      have := (Char.isDigit_iff_toNat.1 (digits c List.mem_cons_self)).1
      have : c.toNat ≠ '0'.toNat := fun h => nonzero (Char.toNat_inj.1 h)
      omega
    rw [Nat.ofDigitChars_cons, Nat.mul_zero, Nat.zero_add,
      toDigits_ofDigitChars (fun c hc => digits c (List.mem_cons_of_mem _ hc)) positive,
      toDigits_digit (digits c List.mem_cons_self), List.singleton_append]

/-- The numeral of a positive number does not begin with a zero. -/
theorem head?_toDigits_ne {n : Nat} (positive : 0 < n) :
    (Nat.toDigits 10 n).head? ≠ some '0' := by
  induction n using Nat.strongRecOn with
  | ind n ih =>
    by_cases small : n < 10
    · have digits : ∀ d < 10, 0 < d → (Nat.toDigits 10 d).head? ≠ some '0' := by decide
      exact digits n small positive
    · have split := Nat.toDigits_append_toDigits (b := 10) (n := n / 10) (d := n % 10)
        (by omega) (by omega) (by omega)
      rw [Nat.div_add_mod] at split
      have front := ih (n / 10) (by omega) (by omega)
      rw [← split, List.head?_append]
      cases h : (Nat.toDigits 10 (n / 10)).head? with
      | none => exact absurd (List.head?_eq_none_iff.1 h) Nat.toDigits_ne_nil
      | some c => simpa [h] using front

/-- No numeral has a superfluous zero in front. -/
theorem repr_ne_zero_cons (n : Nat) (d : Char) (rest : List Char) :
    (Nat.repr n).toList ≠ '0' :: d :: rest := by
  rw [Nat.toList_repr]
  intro h
  rcases Nat.eq_zero_or_pos n with rfl | positive
  · simp at h
  · exact head?_toDigits_ne positive (by rw [h]; rfl)

end AbstractScript.Number
