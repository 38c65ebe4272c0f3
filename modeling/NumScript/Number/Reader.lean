import NumScript.Number.Binary

set_option autoImplicit false

/-! # Reading numbers

A number is an optional sign, then `inf`, `infinity` or `nan` in any case, or a decimal: digits with
at most one point and at least one digit, then optionally `e` or `E` and a signed whole exponent.
The decimal is rounded to the nearest float, ties to the even mantissa. -/

namespace NumScript.Number

/-- The value of a run of decimal digits read on from `start`. -/
def digitsValue (start : Nat) (digits : List Char) : Nat :=
  digits.foldl (fun n c => 10 * n + (c.toNat - '0'.toNat)) start

/-- The float nearest to `mantissa * 10 ^ exponent`. Exponents far outside the range of floats are
settled without computing the power. -/
def ofDecimal (mantissa : Nat) (exponent : Int) : Float :=
  let magnitude : Int := exponent + (Nat.toDigits 10 mantissa).length
  if mantissa = 0 then 0.0
  else if 310 < magnitude then infinity
  else if magnitude < -330 then 0.0
  else if 0 ≤ exponent then Float.ofScientific mantissa false exponent.toNat
  else Float.ofScientific mantissa true (-exponent).toNat

/-- A whole exponent with an optional sign, which must be the entire text. -/
def exponent? (text : List Char) : Option Int :=
  let negative := text.head? == some '-'
  let digits := if negative || text.head? == some '+' then text.drop 1 else text
  if digits.isEmpty || !digits.all Char.isDigit then none
  else
    let n : Int := digitsValue 0 digits
    some (if negative then -n else n)

def decimal? (text : List Char) : Option Float :=
  let whole := text.takeWhile Char.isDigit
  let afterWhole := text.dropWhile Char.isDigit
  let hasPoint := afterWhole.head? == some '.'
  let fraction := if hasPoint then (afterWhole.drop 1).takeWhile Char.isDigit else []
  let rest := if hasPoint then (afterWhole.drop 1).dropWhile Char.isDigit else afterWhole
  if whole.isEmpty && fraction.isEmpty then none
  else
    let mantissa := digitsValue (digitsValue 0 whole) fraction
    match rest with
    | [] => some (ofDecimal mantissa (-(fraction.length : Int)))
    | mark :: tail =>
      if mark = 'e' ∨ mark = 'E' then
        (exponent? tail).map fun e => ofDecimal mantissa (e - (fraction.length : Int))
      else none

def unsigned? (text : List Char) : Option Float :=
  let word := String.ofList (text.map Char.toLower)
  if word = "inf" ∨ word = "infinity" then some infinity
  else if word = "nan" then some nan
  else decimal? text

/-- A number, which must be the entire text. -/
def read? (text : List Char) : Option Float :=
  match text with
  | '-' :: rest => (unsigned? rest).map (withSign true)
  | '+' :: rest => unsigned? rest
  | _ => unsigned? text

end NumScript.Number
