import AbstractScript.Syntax.Escape
import Mathlib.Algebra.Group.Nat.Defs

/-!
# Unicode escapes

A list of code units can be written as one `\u` escape after another, each with four hexadecimal
digits, small or capital. The escapes are resolved to the characters that the units read as: a high
unit with a low unit right behind it to the character of the pair, any other surrogate unit to U+FFFD
(`Escape.resolve_unitEscapes`). The resolver looks ahead of a high unit for a low one; what it finds
there is taken only if it is one (`lowSurrogate?_chars`).
-/
namespace AbstractScript.Escape

/-! ## Escapes of code units -/

/-- A hexadecimal digit below 16, small or capital. -/
def digitChar (capital : Bool) (d : Nat) : Char :=
  if d < 10 then Char.ofNat ('0'.toNat + d)
  else Char.ofNat ((if capital then 'A' else 'a').toNat + (d - 10))

/-- A digit has its value, in both letter cases. -/
theorem hexDigit?_digitChar {d : Nat} (small : d < 16) (capital : Bool) :
    Number.hexDigit? (digitChar capital d) = some d := by
  have digits : ∀ capital, ∀ d < 16, Number.hexDigit? (digitChar capital d) = some d := by decide
  exact digits capital d small

/-- The escape of a code unit: the unit, and which of its digits, from the last one on, are
capitals. -/
structure UnitEscape where
  unit : UInt16
  capital : Fin 4 → Bool

namespace UnitEscape

/-- The digit of an escape that stands for the power `i` of sixteen. -/
def digit (e : UnitEscape) (i : Fin 4) : Char :=
  digitChar (e.capital i) (e.unit.toNat / 16 ^ i.val % 16)

/-- The text of an escape behind its backslash and its letter. -/
def digits (e : UnitEscape) : List Char := [e.digit 3, e.digit 2, e.digit 1, e.digit 0]

/-- The text of an escape. -/
def chars (e : UnitEscape) : List Char := '\\' :: 'u' :: e.digits

theorem hexDigit?_digit (e : UnitEscape) (i : Fin 4) :
    Number.hexDigit? (e.digit i) = some (e.unit.toNat / 16 ^ i.val % 16) :=
  hexDigit?_digitChar (Nat.mod_lt _ (by decide)) _

/-- The digits of an escape are the number of its unit, whatever follows them. -/
theorem readHex?_digits (e : UnitEscape) (rest : List Char) :
    readHex? 4 0 (e.digits ++ rest) = some (e.unit.toNat, rest) := by
  have bound : e.unit.toNat < 16 ^ 4 := e.unit.toNat_lt
  have value : (((0 * 16 + e.unit.toNat / 16 ^ 3 % 16) * 16 + e.unit.toNat / 16 ^ 2 % 16) * 16 +
      e.unit.toNat / 16 ^ 1 % 16) * 16 + e.unit.toNat / 16 ^ 0 % 16 = e.unit.toNat := by omega
  simp only [digits, List.cons_append, List.nil_append, readHex?, hexDigit?_digit]
  exact congrArg (fun n => some (n, rest)) value

end UnitEscape

/-! ## Units one after another -/

open Text

variable {e : UnitEscape} {rest : List Char}

/-- A unit that is not part of a pair stands for its character. -/
theorem scalar_toNat (u : UInt16) : scalar u.toNat = ofLoneUnit u := by
  have surrogate : (isHighSurrogate u || isLowSurrogate u) = true ↔
      0xD800 ≤ u.toNat ∧ u.toNat < 0xE000 := by
    rw [Bool.or_eq_true, isHighSurrogate_iff, isLowSurrogate_iff]
    omega
  rw [scalar, ofLoneUnit]
  by_cases h : 0xD800 ≤ u.toNat ∧ u.toNat < 0xE000
  · rw [if_pos h, if_pos (surrogate.2 h)]
  · rw [if_neg h, if_neg (mt surrogate.1 h)]

/-- An escape at the front is taken as a low surrogate if its unit is one. -/
theorem lowSurrogate?_chars (e : UnitEscape) (rest : List Char) :
    lowSurrogate? (e.chars ++ rest) =
      if isLowSurrogate e.unit then some (e.unit.toNat, rest) else none := by
  simp only [UnitEscape.chars, List.cons_append, lowSurrogate?, e.readHex?_digits,
    isLowSurrogate_iff]

/-- A high unit with a low unit behind it is one character. -/
theorem readEscape_pair {low : Nat} {behind : List Char} (high : isHighSurrogate e.unit = true)
    (pair : lowSurrogate? rest = some (low, behind)) :
    readEscape ('u' :: (e.digits ++ rest)) =
      .ok ([Char.ofNat (0x10000 + (e.unit.toNat - 0xD800) * 0x400 + (low - 0xDC00))], behind) := by
  simp only [readEscape, e.readHex?_digits, if_pos (isHighSurrogate_iff.1 high), pair]

/-- Any other unit is a character by itself. -/
theorem readEscape_lone (lone : isHighSurrogate e.unit = true → lowSurrogate? rest = none) :
    readEscape ('u' :: (e.digits ++ rest)) = .ok ([ofLoneUnit e.unit], rest) := by
  cases high : isHighSurrogate e.unit with
  | true =>
    have character : ofLoneUnit e.unit = replacement := by
      rw [ofLoneUnit, high]
      rfl
    simp only [readEscape, e.readHex?_digits, if_pos (isHighSurrogate_iff.1 high), lone high,
      character]
  | false =>
    have low : ¬ (0xD800 ≤ e.unit.toNat ∧ e.unit.toNat < 0xDC00) := by
      rw [← isHighSurrogate_iff, high]
      exact Bool.false_ne_true
    simp only [readEscape, e.readHex?_digits, if_neg low, scalar_toNat]

/-- What an escape is resolved to stands before what the text behind it is resolved to. -/
theorem resolve_chars {front behind : List Char}
    (read : readEscape ('u' :: (e.digits ++ rest)) = .ok (front, behind)) :
    resolve (e.chars ++ rest) = (front ++ ·) <$> resolve behind := by
  show resolve ('\\' :: 'u' :: (e.digits ++ rest)) = _
  rw [resolve]
  split
  next read' =>
    cases read.symm.trans read'
    rfl
  next read' => cases read.symm.trans read'

/-- **Unicode escapes are read as UTF-16.** The escapes of any code units, in any letter case, are
resolved, and what they stand for are the characters that the units read as. -/
theorem resolve_unitEscapes : ∀ es : List UnitEscape,
    resolve (es.flatMap UnitEscape.chars) = .ok (charsOfUnits (es.map UnitEscape.unit))
  | [] => by rw [List.flatMap_nil, resolve, List.map_nil, charsOfUnits]
  | [e] => by
    have read : readEscape ('u' :: (e.digits ++ [])) = .ok ([ofLoneUnit e.unit], []) :=
      readEscape_lone fun _ => rfl
    rw [List.flatMap_singleton, ← List.append_nil e.chars, resolve_chars read, resolve]
    rfl
  | e :: f :: es => by
    rw [List.flatMap_cons, List.map_cons, List.map_cons, charsOfUnits]
    by_cases pair : (isHighSurrogate e.unit && isLowSurrogate f.unit) = true
    · -- both escapes are taken at once
      obtain ⟨high, low⟩ := Bool.and_eq_true_iff.1 pair
      have ahead := lowSurrogate?_chars f (es.flatMap UnitEscape.chars)
      rw [if_pos low] at ahead
      rw [List.flatMap_cons, resolve_chars (readEscape_pair high ahead), resolve_unitEscapes es,
        if_pos pair]
      rfl
    · -- only the first one is taken, and the second may begin a pair
      have lone : isHighSurrogate e.unit = true →
          lowSurrogate? ((f :: es).flatMap UnitEscape.chars) = none := by
        intro high
        rw [List.flatMap_cons, lowSurrogate?_chars, if_neg]
        exact fun low => pair (Bool.and_eq_true_iff.2 ⟨high, low⟩)
      rw [resolve_chars (readEscape_lone lone), resolve_unitEscapes (f :: es), if_neg pair]
      rfl

end AbstractScript.Escape
