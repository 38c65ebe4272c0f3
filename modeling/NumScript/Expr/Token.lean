import NumScript.Expr.Operator

set_option autoImplicit false

/-! # Tokens and their fold

An expression in postfix order is a list of tokens. Folding it keeps a stack of operands, top first:
a value goes onto the stack, a function replaces the top, an operator the two topmost, the upper
one being its right operand. Exactly one operand has to be left. -/

namespace NumScript.Expr

inductive Token where
  | value (x : Float)
  | operator (op : Operator)
  | function (f : Function)
  deriving DecidableEq

namespace Token

/-- How tightly a token binds; values do not bind at all. -/
def priority : Token → Nat
  | value _ => 0
  | operator op => op.priority
  | function _ => Function.priority

def isLeftBracket (t : Token) : Bool :=
  t == operator .leftBracket

end Token

/-- The operand stack after one more token. -/
def pushToken (operands : List Float) : Token → Except Error (List Float)
  | .value x => .ok (x :: operands)
  | .operator op =>
    match operands with
    | y :: x :: below => (op.apply x y).map (· :: below)
    | _ => .error (.missingOperand op.symbol)
  | .function f =>
    match operands with
    | x :: below => .ok (f.apply x :: below)
    | [] => .error (.missingOperand f.name)

def onlyOperand : List Float → Except Error Float
  | [x] => .ok x
  | [] => .error .noOperand
  | operands => .error (.missingOperator operands.length)

/-- The value of an expression in postfix order. -/
def foldTokens (tokens : List Token) : Except Error Float := do
  onlyOperand (← tokens.foldlM pushToken [])

end NumScript.Expr
