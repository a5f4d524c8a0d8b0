import AbstractScript.Number.Dyadic

/-!
# Shortest decimal digits

The decimal numeral with the fewest digits among those that read back as a given double, and among
those the one nearest to it.
-/
namespace AbstractScript.Number

/-- Which of two equally near numerals is taken. -/
inductive Tie where
  | away
  | even
  deriving DecidableEq, Repr

/-- Decimal digits `d₁ … dₖ` with a decimal exponent: the number `d₁.d₂…dₖ · 10 ^ exponent`. -/
structure Decimal where
  digits : List Char
  exponent : Int
  deriving DecidableEq, Repr

/-- A positive rational interval around a value, over one denominator. -/
structure Interval where
  low : Nat
  value : Nat
  high : Nat
  denominator : Nat
  /-- The ends belong to the interval. -/
  closed : Bool
  deriving DecidableEq, Repr

/-- The reals that round to a positive double, to nearest with ties to an even mantissa. -/
def Dyadic.interval (d : Dyadic) : Interval :=
  let below := if d.mantissa = twoTo 52 ∧ -1074 < d.exponent then 1 else 2
  let e := d.exponent - 2
  let scale := if 0 ≤ e then twoTo e.toNat else 1
  { low := (4 * d.mantissa - below) * scale
    value := 4 * d.mantissa * scale
    high := (4 * d.mantissa + 2) * scale
    denominator := if 0 ≤ e then 1 else twoTo (-e).toNat
    closed := d.mantissa % 2 = 0 }

/-- True if `c · num / den` lies in the interval. -/
def Interval.contains (i : Interval) (c num den : Nat) : Bool :=
  let x := c * num * i.denominator
  if i.closed then i.low * den ≤ x && x ≤ i.high * den else i.low * den < x && x < i.high * den

/-- The decimal grid `10 ^ e` as a fraction. -/
def grid (e : Int) : Nat × Nat :=
  if 0 ≤ e then (tenTo e.toNat, 1) else (1, tenTo (-e).toNat)

/-- The point of the grid `10 ^ e` in the interval that is nearest to the value, if there is one. -/
def Interval.nearest? (i : Interval) (tie : Tie) (e : Int) : Option Nat :=
  let (num, den) := grid e
  let scaled := i.value * den
  let unit := num * i.denominator
  let below := scaled / unit
  match i.contains below num den, i.contains (below + 1) num den with
  | false, false => none
  | true, false => some below
  | false, true => some (below + 1)
  | true, true =>
    let double := 2 * (scaled % unit)
    if double < unit then some below
    else if unit < double then some (below + 1)
    else match tie with
      | .away => some (below + 1)
      | .even => if below % 2 = 0 then some below else some (below + 1)

/-- An exponent `e` with `10 ^ e ≤ num / den`, raised as long as that holds and `steps` last. -/
def raise (num den : Nat) : Nat → Int → Int
  | 0, e => e
  | steps + 1, e =>
    let (p, r) := grid (e + 1)
    if p * den ≤ num * r then raise num den steps (e + 1) else e

/-- The decimal exponent of a positive rational: the greatest `e` with `10 ^ e ≤ num / den`. -/
def decimalExponent (num den : Nat) : Int :=
  let log2 : Int := (num.log2 : Int) - den.log2 - 1
  raise num den 3 (log2 * 30103 / 100000 - 1)

/-- Looks for a numeral of `count` digits, then of one digit more, as long as `steps` last. -/
def Interval.search (i : Interval) (tie : Tie) (top : Int) : Nat → Int → Option (Nat × Int)
  | 0, _ => none
  | steps + 1, count =>
    let e := top + 1 - count
    match i.nearest? tie e with
    | some n => some (n, e)
    | none => i.search tie top steps (count + 1)

/-- Decimal digits without the zeros at the end, and how many of these there were. -/
def stripZeros (n : Nat) : List Char × Nat :=
  let reversed := (Nat.toDigits 10 n).reverse
  ((reversed.dropWhile (· = '0')).reverse, (reversed.takeWhile (· = '0')).length)

/-- The shortest decimal of a positive magnitude. Seventeen digits always suffice. -/
def Dyadic.shortest (d : Dyadic) (tie : Tie) : Decimal :=
  let i := d.interval
  match i.search tie (decimalExponent i.value i.denominator) 17 1 with
  | some (n, e) =>
    let (digits, zeros) := stripZeros n
    ⟨digits, e + zeros + digits.length - 1⟩
  | none => ⟨['0'], 0⟩

end AbstractScript.Number
