import NumScript.Number.Shortest

set_option autoImplicit false

/-! # Numbers as text

Two layouts of the same shortest digits. `plain` never uses an exponent and gives whole numbers no
point, so `1e23` is a one and twenty-three zeros. `precise` always shows that the number is a
float: whole numbers end in `.0`, and magnitudes outside `[1e-4, 1e16)` get an exponent. -/

namespace NumScript.Number

def digitChars (n : Nat) : List Char :=
  Nat.toDigits 10 n

/-- A decimal without an exponent: zeros fill up to the point on either side. -/
def Decimal.positional (d : Decimal) : List Char :=
  let digits := digitChars d.digits
  if 0 ≤ d.scale then digits ++ List.replicate d.scale.toNat '0'
  else
    let places := (-d.scale).toNat
    if places < digits.length then
      digits.take (digits.length - places) ++ '.' :: digits.drop (digits.length - places)
    else
      '0' :: '.' :: (List.replicate (places - digits.length) '0' ++ digits)

/-- A decimal with one digit before the point and an exponent. -/
def Decimal.exponential (d : Decimal) : List Char :=
  let digits := digitChars d.digits
  let exponent : Int := d.scale + digits.length - 1
  let fraction := digits.drop 1
  digits.take 1 ++ (if fraction.isEmpty then [] else '.' :: fraction) ++ 'e' ::
    ((if exponent < 0 then ['-'] else []) ++ digitChars exponent.natAbs)

def signed (negative : Bool) (text : List Char) : String :=
  String.ofList (if negative then '-' :: text else text)

/-- The shortest digits, never with an exponent. -/
def plain (x : Float) : String :=
  match parts x with
  | .finite negative mantissa exponent =>
    signed negative (shortest mantissa exponent).positional
  | .infinite negative => signed negative ['i', 'n', 'f']
  | .notANumber => "NaN"

/-- Whether `precise` writes a decimal without an exponent: zero, and what lies in
`[1e-4, 1e16)`. -/
def Decimal.isModest (d : Decimal) : Bool :=
  let exponent : Int := d.scale + digitCount d.digits
  d.digits == 0 || (decide (-3 ≤ exponent) && decide (exponent ≤ 16))

/-- The shortest digits, always told apart from an integer. -/
def precise (x : Float) : String :=
  match parts x with
  | .finite negative mantissa exponent =>
    let d := shortest mantissa exponent
    signed negative
      (if !d.isModest then d.exponential
        else if 0 ≤ d.scale then d.positional ++ ['.', '0']
        else d.positional)
  | .infinite negative => signed negative ['i', 'n', 'f']
  | .notANumber => "NaN"

end NumScript.Number
