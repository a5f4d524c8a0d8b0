import AbstractScript.Number.Integer
import AbstractScript.Text.Range

/-!
# Reading numerals

Decimal numerals, hexadecimal integers and the conversion of a string to a number.
-/
namespace AbstractScript.Number

/-- The double nearest to `mantissa · 10 ^ exponent`. Exponents beyond the range of doubles give
zero or infinity. -/
def ofDecimal (mantissa : Nat) (exponent : Int) : Float :=
  let size : Int := (Nat.toDigits 10 mantissa).length
  if mantissa = 0 then 0
  else if 310 < exponent + size then Float.ofBits 0x7FF0000000000000
  else if exponent + size < -330 then 0
  else if 0 ≤ exponent then Float.ofScientific mantissa false exponent.toNat
  else Float.ofScientific mantissa true (-exponent).toNat

/-- The digits at the front and what follows them. -/
def spanDigits (cs : List Char) : List Char × List Char :=
  (cs.takeWhile Char.isDigit, cs.dropWhile Char.isDigit)

/-- Reads the exponent part at the end of a numeral: nothing, or `e` and an optionally signed
integer. -/
def exponentPart? : List Char → Option Int
  | [] => some 0
  | c :: rest =>
    if c = 'e' ∨ c = 'E' then
      match rest with
      | '-' :: ds => (natOfDigits? ds).map fun n => -(n : Int)
      | '+' :: ds => (natOfDigits? ds).map fun n => (n : Int)
      | ds => (natOfDigits? ds).map fun n => (n : Int)
    else none

/-- Reads an unsigned decimal numeral: digits with at most one point, at least one digit, and an
optional exponent. -/
def ofNumeral? (cs : List Char) : Option Float :=
  let (whole, rest) := spanDigits cs
  let (fraction, rest) := match rest with
    | '.' :: more => spanDigits more
    | _ => ([], rest)
  if whole = [] ∧ fraction = [] then none
  else (exponentPart? rest).map fun e =>
    ofDecimal (Nat.ofDigitChars 10 (whole ++ fraction) 0) (e - fraction.length)

/-- The value of a hexadecimal digit. -/
def hexDigit? (c : Char) : Option Nat :=
  if '0' ≤ c ∧ c ≤ '9' then some (c.toNat - '0'.toNat)
  else if 'a' ≤ c ∧ c ≤ 'f' then some (c.toNat - 'a'.toNat + 10)
  else if 'A' ≤ c ∧ c ≤ 'F' then some (c.toNat - 'A'.toNat + 10)
  else none

/-- Reads hexadecimal digits from the left, rounding after each. -/
def ofHex? (cs : List Char) : Option Float :=
  cs.foldlM (fun x c => (hexDigit? c).map fun d => x * 16 + Float.ofNat d) 0

/-- Positive or negative infinity. -/
def infinity (negative : Bool) : Float :=
  Float.ofBits (if negative then 0xFFF0000000000000 else 0x7FF0000000000000)

/-- Not a number. -/
def nan : Float := Float.ofBits 0x7FF8000000000000

/-- The number that a signed numeral or `Infinity` denotes. -/
def ofSigned? (negative : Bool) (cs : List Char) : Option Float :=
  if cs = "Infinity".toList then some (infinity negative)
  else (ofNumeral? cs).map fun x => if negative then -x else x

/-- The number that a trimmed string denotes. -/
def ofTrimmed? : List Char → Option Float
  | [] => some 0
  | '0' :: 'x' :: ds => if ds = [] then none else ofHex? ds
  | '0' :: 'X' :: ds => if ds = [] then none else ofHex? ds
  | '-' :: cs => ofSigned? true cs
  | '+' :: cs => ofSigned? false cs
  | cs => ofSigned? false cs

/-- The number that a string denotes, or NaN. Blank characters around it do not count, and an empty
string is zero. -/
def ofString (s : String) : Float :=
  (ofTrimmed? (Text.trimBy Text.isBlank s.toList)).getD nan

end AbstractScript.Number
