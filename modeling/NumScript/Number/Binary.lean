set_option autoImplicit false

/-! # Floats taken apart

A finite float is `± mantissa * 2 ^ exponent` with a natural mantissa, and everything that needs
exact arithmetic on floats (rounding, remainders, digits) works on these parts. The rounding
functions below keep the sign of a zero: the whole part of `-0.5` is `-0.0`. -/

namespace NumScript.Number

/-- What the bits of a float say. A finite number is `mantissa * 2 ^ exponent`, with a sign. -/
inductive Parts where
  | finite (negative : Bool) (mantissa : Nat) (exponent : Int)
  | infinite (negative : Bool)
  | notANumber
  deriving DecidableEq

def twoTo (n : Nat) : Nat :=
  Nat.pow 2 n

/-- The parts of a float: one sign bit, eleven exponent bits and fifty-two fraction bits. A biased
exponent of zero marks the subnormal numbers, all ones an infinity or no number. -/
def parts (x : Float) : Parts :=
  let bits : Nat := x.toBits.toNat
  let negative := bits / twoTo 63 == 1
  let biased : Nat := bits / twoTo 52 % twoTo 11
  let fraction : Nat := bits % twoTo 52
  if biased = 2047 then
    if fraction = 0 then .infinite negative else .notANumber
  else if biased = 0 then .finite negative fraction (-1074)
  else .finite negative (fraction + twoTo 52) ((biased : Int) - 1075)

def nan : Float := 0.0 / 0.0

def infinity : Float := 1.0 / 0.0

/-- A magnitude with a sign put in front; a negative zero stays negative. -/
def withSign (negative : Bool) (x : Float) : Float :=
  if negative then -x else x

/-! ## Whole parts and rounding

All of these work on the parts, with exact integers, and put the sign back at the end. A float that
is no number or infinite has no parts to work on and is passed through. -/

/-- The whole part of `mantissa * 2 ^ exponent`. -/
def wholePart (mantissa : Nat) (exponent : Int) : Nat :=
  if 0 ≤ exponent then mantissa * twoTo exponent.toNat else mantissa / twoTo (-exponent).toNat

def truncate (x : Float) : Float :=
  match parts x with
  | .finite negative mantissa exponent =>
    if 0 ≤ exponent then x else withSign negative (Float.ofNat (wholePart mantissa exponent))
  | _ => x

/-- The nearest whole number; a half goes away from zero. -/
def nearest (x : Float) : Float :=
  match parts x with
  | .finite negative mantissa exponent =>
    if 0 ≤ exponent then x
    else
      let unit := twoTo (-exponent).toNat
      withSign negative (Float.ofNat ((2 * mantissa + unit) / (2 * unit)))
  | _ => x

/-- The nearest multiple of `10 ^ -places`, where the places lose their fraction first. -/
def roundTo (x places : Float) : Float :=
  let places := truncate places
  if places == 0.0 then nearest x
  else
    let factor := Float.pow 10.0 places
    nearest (x * factor) / factor

/-- The remainder of the whole parts, with the sign of the first. The second whole part must not
be zero: that case is the caller's. -/
def remainder (x y : Float) : Float :=
  match parts x, parts y with
  | .finite negative m e, .finite _ m' e' =>
    withSign negative (Float.ofNat (wholePart m e % wholePart m' e'))
  | .finite _ _ _, .infinite _ => truncate x
  | _, _ => nan

/-! ## Integers, truth values and order

The kinds of variables and the operators look at a number as one of these. -/

/-- The whole part as a 32-bit integer. What is out of range becomes the nearest end of the range,
and what is no number becomes zero. -/
def toInt32 (x : Float) : Int32 :=
  match parts x with
  | .finite false mantissa exponent =>
    Int32.ofInt (min (wholePart mantissa exponent : Int) 2147483647)
  | .finite true mantissa exponent =>
    Int32.ofInt (max (-(wholePart mantissa exponent : Int)) (-2147483648))
  | .infinite false => Int32.ofInt 2147483647
  | .infinite true => Int32.ofInt (-2147483648)
  | .notANumber => 0

def ofInt32 (i : Int32) : Float :=
  Float.ofInt i.toInt

/-- Every number but zero counts as true, and so does what is no number. -/
def isTrue (x : Float) : Bool :=
  x != 0.0

def ofBool (b : Bool) : Float :=
  if b then 1.0 else 0.0

/-- The smaller of two numbers; one that is no number gives way to the other. -/
def lesser (x y : Float) : Float :=
  if x.isNaN then y else if y.isNaN then x else if x < y then x else y

/-- The greater of two numbers; one that is no number gives way to the other. -/
def greater (x y : Float) : Float :=
  if x.isNaN then y else if y.isNaN then x else if x > y then x else y

end NumScript.Number
