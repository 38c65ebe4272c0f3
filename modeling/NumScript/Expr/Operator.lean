import NumScript.Number.Binary
import NumScript.Expr.Error

set_option autoImplicit false

/-! # Operators and functions

The operators stand between two operands, the functions before one. Each operator has a symbol and
a priority, and the higher priority binds tighter; a function binds tighter than every operator.
The brackets are listed among the operators because they wait beside them while an expression is
put into postfix order; their priority is below all others and applying one is an error. -/

namespace NumScript.Expr

/-! ## Operators -/

inductive Operator where
  | round
  | add
  | sub
  | mul
  | div
  | mod
  | pow
  | equal
  | notEqual
  | greater
  | less
  | greaterEqual
  | lessEqual
  | and
  | fuzzyAnd
  | or
  | fuzzyOr
  | leftBracket
  | rightBracket
  deriving DecidableEq

namespace Operator

/-- Every operator. -/
def all : List Operator :=
  [round, add, sub, mul, div, mod, pow, equal, notEqual, greater, less, greaterEqual, lessEqual,
    and, fuzzyAnd, or, fuzzyOr, leftBracket, rightBracket]

def symbol : Operator → String
  | round => "~"
  | add => "+"
  | sub => "-"
  | mul => "*"
  | div => "/"
  | mod => "%"
  | pow => "^"
  | equal => "="
  | notEqual => "!="
  | greater => ">"
  | less => "<"
  | greaterEqual => ">="
  | lessEqual => "<="
  | and => "&"
  | fuzzyAnd => "@"
  | or => "|"
  | fuzzyOr => "?"
  | leftBracket => "("
  | rightBracket => ")"

/-- The operator with exactly this symbol. -/
def ofSymbol? (s : String) : Option Operator :=
  all.find? fun op => op.symbol == s

/-- How tightly an operator binds. -/
def priority : Operator → Nat
  | pow => 34
  | mul | div | mod => 33
  | add | sub => 32
  | round => 31
  | greater | less | greaterEqual | lessEqual => 22
  | equal | notEqual => 21
  | or | fuzzyOr => 12
  | and | fuzzyAnd => 11
  | leftBracket | rightBracket => 1

/-- The value of an operator at two operands. Comparisons and the crisp connectives give one or
zero, and the fuzzy connectives the smaller or greater operand. A quotient needs a divisor other
than zero, a remainder one whose whole part is not zero. -/
def apply (op : Operator) (x y : Float) : Except Error Float :=
  match op with
  | round => .ok (Number.roundTo x y)
  | add => .ok (x + y)
  | sub => .ok (x - y)
  | mul => .ok (x * y)
  | div => if y == 0.0 then .error .divisionByZero else .ok (x / y)
  | mod =>
    if Number.truncate y == 0.0 then .error .divisionByZero else .ok (Number.remainder x y)
  | pow => .ok (Float.pow x y)
  | equal => .ok (Number.ofBool (x == y))
  | notEqual => .ok (Number.ofBool (x != y))
  | greater => .ok (Number.ofBool (x > y))
  | less => .ok (Number.ofBool (x < y))
  | greaterEqual => .ok (Number.ofBool (x ≥ y))
  | lessEqual => .ok (Number.ofBool (x ≤ y))
  | and => .ok (Number.ofBool (Number.isTrue x && Number.isTrue y))
  | or => .ok (Number.ofBool (Number.isTrue x || Number.isTrue y))
  | fuzzyAnd => .ok (Number.lesser x y)
  | fuzzyOr => .ok (Number.greater x y)
  | leftBracket | rightBracket => .error (.unexpectedOperator op.symbol)

theorem ofSymbol?_symbol (op : Operator) : ofSymbol? op.symbol = some op := by
  cases op <;> decide

theorem ofSymbol?_eq_some_iff {s : String} {op : Operator} :
    ofSymbol? s = some op ↔ s = op.symbol := by
  constructor
  · intro h
    have hs := List.find?_some h
    exact (beq_iff_eq.1 hs).symm
  · rintro rfl
    exact ofSymbol?_symbol op

end Operator

/-! ## Functions

A function has one operand, the one on its right. The minus sign before an operand is the function
`minus` written differently. -/

inductive Function where
  | sin
  | cos
  | tan
  | abs
  | exp
  | sqrt
  | log
  | ln
  | not
  | minus
  deriving DecidableEq

namespace Function

/-- Every function. -/
def all : List Function :=
  [sin, cos, tan, abs, exp, sqrt, log, ln, not, minus]

/-- How a function is written. The minus sign is also written as a `-` where an operand is due. -/
def name : Function → String
  | sin => "sin"
  | cos => "cos"
  | tan => "tan"
  | abs => "abs"
  | exp => "exp"
  | sqrt => "sqrt"
  | log => "log"
  | ln => "ln"
  | not => "not"
  | minus => "minus"

/-- The function with exactly this name. -/
def ofName? (s : String) : Option Function :=
  all.find? fun f => f.name == s

/-- Functions bind tighter than every operator. -/
def priority : Nat :=
  100

/-- The value of a function. `log` is to the base ten and `ln` the natural logarithm. -/
def apply (f : Function) (x : Float) : Float :=
  match f with
  | sin => Float.sin x
  | cos => Float.cos x
  | tan => Float.tan x
  | abs => Float.abs x
  | exp => Float.exp x
  | sqrt => Float.sqrt x
  | log => Float.log10 x
  | ln => Float.log x
  | not => Number.ofBool (!Number.isTrue x)
  | minus => -x

theorem ofName?_name (f : Function) : ofName? f.name = some f := by
  cases f <;> decide

theorem ofName?_eq_some_iff {s : String} {f : Function} : ofName? s = some f ↔ s = f.name := by
  constructor
  · intro h
    have hs := List.find?_some h
    exact (beq_iff_eq.1 hs).symm
  · rintro rfl
    exact ofName?_name f

end Function

end NumScript.Expr
