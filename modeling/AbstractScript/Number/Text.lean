import AbstractScript.Number.Shortest

/-!
# The text of a number

Numbers are written with the fewest digits that read back, positionally in a middle range and with
an exponent otherwise. Scripts and documents differ in that range and in what an integer ends with.
In other radixes, numbers are written positionally.
-/
namespace AbstractScript.Number

/-- How a number is laid out. Without an exponent part the point of `d₁.d₂…dₖ · 10 ^ e` stands after
`e + 1` digits. -/
structure Layout where
  /-- The last point of a positional text. -/
  lastPoint : Int
  /-- The point before the first one of a positional text. -/
  beforeFirstPoint : Int
  /-- What ends a positional integer. -/
  wholeEnd : List Char
  /-- Which of two equally near decimals is chosen. -/
  tie : Tie

namespace Layout

/-- Writes `d₁.d₂…dₖ · 10 ^ exponent`: as an integer, with a decimal point among the digits, with
zeros after the decimal point, or with an exponent part. -/
def write (l : Layout) (d : Decimal) : List Char :=
  let k : Int := d.digits.length
  let point := d.exponent + 1
  if k ≤ point ∧ point ≤ l.lastPoint then
    d.digits ++ List.replicate (point - k).toNat '0' ++ l.wholeEnd
  else if 0 < point ∧ point ≤ l.lastPoint then
    d.digits.take point.toNat ++ '.' :: d.digits.drop point.toNat
  else if l.beforeFirstPoint < point ∧ point ≤ 0 then
    '0' :: '.' :: List.replicate (-point).toNat '0' ++ d.digits
  else
    let mantissa := match d.digits with
      | first :: second :: rest => first :: '.' :: second :: rest
      | digits => digits
    mantissa ++ 'e' :: (if d.exponent < 0 then '-' else '+') :: Nat.toDigits 10 d.exponent.natAbs

/-- Writes the magnitude of a finite number other than zero. -/
def magnitude (l : Layout) (x : Float) : List Char := l.write ((dyadic x).shortest l.tie)

/-- In scripts numbers are positional from `1e-6` up to `1e21`. -/
def script : Layout := ⟨21, -6, [], .away⟩

/-- In documents numbers are positional from `1e-5` up to `1e16`, and an integer keeps a
fraction. -/
def document : Layout := ⟨16, -5, ['.', '0'], .even⟩

end Layout

/-- The sign of a number in front of its magnitude. -/
def signed (x : Float) (magnitude : List Char) : String :=
  String.ofList (if isNegative x then '-' :: magnitude else magnitude)

/-- The text of a number. Both zeros are `0`. -/
def text (x : Float) : String :=
  if x.isNaN then "NaN"
  else if x == 0 then "0"
  else signed x (if isFinite x then Layout.script.magnitude x else "Infinity".toList)

/-- The text of a finite number in a document. -/
def documentText (x : Float) : String :=
  signed x (if x == 0 then ['0', '.', '0'] else Layout.document.magnitude x)

/-! ## Other radixes

A finite number in a radix from 2 to 36, with at most twenty fraction digits.
-/

/-- The digit of value `d`, below 36. -/
def radixDigit (d : Nat) : Char :=
  if d < 10 then Char.ofNat ('0'.toNat + d) else Char.ofNat ('a'.toNat + (d - 10))

/-- A natural number as a magnitude whose mantissa fits a double. -/
def wholePart (x : Float) : Float := Float.ofNat (dyadic x).floor

/-- The remainder of one whole double by a radix, exactly. -/
def digitOf (x : Float) (radix : Nat) : Nat := (dyadic x).floor % radix

/-- Digits of a whole part, the last one first. Each quotient is rounded to a double. -/
def wholeDigits (radix : Nat) : Nat → Float → List Char
  | 0, _ => []
  | steps + 1, x =>
    if x < 1 then []
    else radixDigit (digitOf x radix) :: wholeDigits radix steps (wholePart (x / Float.ofNat radix))

/-- At most `steps` digits of a fraction. -/
def fractionDigits (radix : Nat) : Nat → Float → List Char
  | 0, _ => []
  | steps + 1, x =>
    let scaled := x * Float.ofNat radix
    let digit := wholePart scaled
    let rest := scaled - digit
    radixDigit (dyadic digit).floor :: if rest == 0 then [] else fractionDigits radix steps rest

/-- The text of a finite number in `radix`. -/
def radixText (x : Float) (radix : Nat) : String :=
  let magnitude := x.abs
  let whole := wholePart magnitude
  let fraction := magnitude - whole
  let digits := if whole == 0 then ['0'] else (wholeDigits radix 1100 whole).reverse
  let signed := if x < 0 then '-' :: digits else digits
  String.ofList (if 0 < fraction then signed ++ '.' :: fractionDigits radix 20 fraction else signed)

end AbstractScript.Number
