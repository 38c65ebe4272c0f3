import NumScript.Number.Binary

set_option autoImplicit false

/-! # The fewest digits that read back

Reading a decimal rounds it to the nearest float, so a float stands for a whole interval of reals:
halfway to its neighbours on both sides, the ends included exactly when the mantissa is even.
`shortest` finds the decimal `digits * 10 ^ scale` with the fewest digits in that interval. On the
grid of `k`-digit decimals only the two neighbours of the value need a test, since a grid point in
the interval has all grid points between it and the value in the interval as well. Of two hits the
nearer wins, and a tie goes to the greater magnitude. -/

namespace NumScript.Number

structure Decimal where
  digits : Nat
  scale : Int
  deriving DecidableEq

/-- An interval of positive rationals around a value, over one common denominator. -/
structure Interval where
  low : Nat
  value : Nat
  high : Nat
  denominator : Nat
  /-- Whether the ends belong to the interval. -/
  closed : Bool

def tenTo (n : Nat) : Nat :=
  Nat.pow 10 n

/-- The reals that round to `mantissa * 2 ^ exponent`. The gap below a power of two is half as wide
as the gap above, except at the smallest normal number. -/
def Interval.around (mantissa : Nat) (exponent : Int) : Interval :=
  let below := if mantissa = twoTo 52 ∧ exponent ≠ -1074 then 1 else 2
  let factor := if 2 ≤ exponent then twoTo (exponent - 2).toNat else 1
  { low := (4 * mantissa - below) * factor
    value := 4 * mantissa * factor
    high := (4 * mantissa + 2) * factor
    denominator := if 2 ≤ exponent then 1 else twoTo (2 - exponent).toNat
    closed := mantissa % 2 == 0 }

/-- The interval measured in units of `10 ^ scale`. -/
def Interval.inUnits (i : Interval) (scale : Int) : Interval :=
  if 0 ≤ scale then { i with denominator := i.denominator * tenTo scale.toNat }
  else
    let factor := tenTo (-scale).toNat
    { i with low := i.low * factor, value := i.value * factor, high := i.high * factor }

def Interval.contains (i : Interval) (n : Nat) : Bool :=
  let x := n * i.denominator
  if i.closed then decide (i.low ≤ x ∧ x ≤ i.high) else decide (i.low < x ∧ x < i.high)

/-! ## The search

The grids are tried from the coarsest on, and the first hit has the fewest digits. The search is
bounded by the number of grids that are left, not by a condition on the digits, so it ends without
the theorem that seventeen digits suffice. -/

/-- The whole number in the interval that is nearest to the value, of the two beside it. -/
def Interval.whole? (i : Interval) : Option Nat :=
  let n := i.value / i.denominator
  let rest := i.value % i.denominator
  match i.contains n, i.contains (n + 1) with
  | true, true => some (if 2 * rest < i.denominator then n else n + 1)
  | true, false => some n
  | false, true => some (n + 1)
  | false, false => none

/-- How many decimal digits a natural number has; zero has one. -/
def digitCount (n : Nat) : Nat :=
  (Nat.toDigits 10 n).length

/-- The `e` with `10 ^ (e - 1) ≤ value < 10 ^ e`. -/
def Interval.magnitude (i : Interval) : Int :=
  if i.denominator ≤ i.value then digitCount (i.value / i.denominator)
  else 1 - (digitCount (i.denominator / i.value) : Int)

/-- The first grid with a hit, among those of `count`, `count + 1`, … digits. -/
def Interval.firstHit (i : Interval) (magnitude : Int) (count : Nat) : Nat → Option Decimal
  | 0 => none
  | tries + 1 =>
    let scale := magnitude - (count : Int)
    match (i.inUnits scale).whole? with
    | some n => some ⟨n, scale⟩
    | none => i.firstHit magnitude (count + 1) tries

/-- Moves factors of ten from the digits to the scale, at most `steps` of them. -/
def Decimal.strip (d : Decimal) : Nat → Decimal
  | 0 => d
  | steps + 1 =>
    if d.digits ≠ 0 ∧ d.digits % 10 = 0 then Decimal.strip ⟨d.digits / 10, d.scale + 1⟩ steps
    else d

/-- The shortest decimal that reads back as `mantissa * 2 ^ exponent`. Seventeen digits always
suffice. -/
def shortest (mantissa : Nat) (exponent : Int) : Decimal :=
  if mantissa = 0 then ⟨0, 0⟩
  else
    let i := Interval.around mantissa exponent
    ((i.firstHit i.magnitude 1 17).getD ⟨mantissa, 0⟩).strip 17

end NumScript.Number
