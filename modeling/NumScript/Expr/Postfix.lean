import NumScript.Number.Reader
import NumScript.Expr.Lexeme
import NumScript.Expr.Token

set_option autoImplicit false

/-! # Postfix order

An infix expression is put into postfix order in one pass over its lexemes. Values go straight to
the output. Operators, functions and opening brackets wait; an operator first sends on those that
wait above it and bind at least as tightly, so operators of one priority associate to the left. A
function sends on nothing, so in `- - 3` and `sin -x` each belongs to the operand on its right.
A name is replaced by its value when it is read. -/

namespace NumScript.Expr

/-- Values of names. A name without a value is unknown. -/
abbrev Names := String → Option Float

/-- An expression partly in postfix order. -/
structure Conversion where
  /-- The tokens sent on, the latest first. -/
  output : List Token := []
  /-- The tokens that wait, the latest first. -/
  waiting : List Token := []
  /-- Whether an operand is due: at the start, after an operator, a function or `(`. -/
  operandDue : Bool := true

namespace Conversion

/-! ## One lexeme at a time

Each step fails, or it adds a token and sends on some of those that wait. A name fails here and not
later, when its value is needed: an unknown name is an error also where the fold would have stopped
before it. -/

def value (s : Conversion) (x : Float) : Conversion :=
  { s with output := .value x :: s.output, operandDue := false }

/-- A function or an opening bracket is read. -/
def wait (s : Conversion) (t : Token) : Conversion :=
  { s with waiting := t :: s.waiting, operandDue := true }

/-- An operator is read: those that bind at least as tightly are sent on first. -/
def operator (s : Conversion) (op : Operator) : Conversion :=
  let tighter (t : Token) : Bool := op.priority ≤ t.priority
  { output := (s.waiting.takeWhile tighter).reverse ++ s.output
    waiting := .operator op :: s.waiting.dropWhile tighter
    operandDue := true }

/-- A closing bracket is read: all that wait above the opening one are sent on. -/
def close (s : Conversion) : Except Error Conversion :=
  let inside (t : Token) : Bool := !t.isLeftBracket
  match s.waiting.dropWhile inside with
  | [] => .error .expectedBracket
  | _ :: below =>
    .ok { output := (s.waiting.takeWhile inside).reverse ++ s.output
          waiting := below
          operandDue := false }

/-- One more lexeme is read. -/
def accept (names : Names) (s : Conversion) : Lexeme → Except Error Conversion
  | .number text =>
    match Number.read? text with
    | some x => .ok (s.value x)
    | none => .error (.unknownOperand (String.ofList text))
  | .word text =>
    let name := String.ofList text
    match Function.ofName? name with
    | some f => .ok (s.wait (.function f))
    | none =>
      match names name with
      | some x => .ok (s.value x)
      | none => .error (.unknownOperand name)
  | .opening => .ok (s.wait (.operator .leftBracket))
  | .closing => s.close
  | .symbol text =>
    if text = ['-'] ∧ s.operandDue then .ok (s.wait (.function .minus))
    else
      let symbol := String.ofList text
      match Operator.ofSymbol? symbol with
      | none => .error (.unknownOperator symbol)
      | some op =>
        if s.operandDue then .error (.unexpectedOperator symbol) else .ok (s.operator op)

def finish (s : Conversion) : List Token :=
  s.output.reverse ++ s.waiting

end Conversion

/-! ## Whole expressions

The brackets are counted before anything else is looked at. An expression with too many or too few
is reported as such, whatever else is wrong with it. -/

/-- An expression needs as many opening as closing brackets. -/
def checkBrackets (source : List Char) : Except Error Unit :=
  let opening := source.count '('
  let closing := source.count ')'
  if opening = closing then .ok () else .error (.unequalBrackets opening closing)

/-- The postfix order of an expression, with the values of its names. -/
def toPostfix (names : Names) (source : List Char) : Except Error (List Token) := do
  checkBrackets source
  return (← (lexemes source).foldlM (Conversion.accept names) {}).finish

/-- The value of an expression. -/
def evaluate (names : Names) (source : List Char) : Except Error Float := do
  foldTokens (← toPostfix names source)

/-- What the last evaluated expression gave, if there was one. -/
abbrev Retained := Option (Except Error Float)

def Retained.value? (r : Retained) : Option Float :=
  r.bind Except.toOption

def Retained.error? (r : Retained) : Option Error :=
  r.bind fun
    | .ok _ => none
    | .error e => some e

end NumScript.Expr
