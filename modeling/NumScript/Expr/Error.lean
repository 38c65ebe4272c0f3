import NumScript.Diagnostic.Code

set_option autoImplicit false

/-! # What can be wrong with an expression

The errors of the tokenizer, of the conversion to postfix order and of the fold. They are a type of
their own because an expression can be evaluated on its own; in a script one of them is the cause of
an error of the script, and is kept for inspection. -/

namespace NumScript.Expr

/-- Why an expression has no value. -/
inductive Error where
  /-- An operator stands where an operand is due. -/
  | unexpectedOperator (symbol : String)
  /-- A run of symbol characters is no operator. -/
  | unknownOperator (symbol : String)
  /-- A word is neither a function nor a known name, or a run of digits and points no number. -/
  | unknownOperand (text : String)
  /-- A closing bracket has no opening one. -/
  | expectedBracket
  /-- An operator or function lacks operands. -/
  | missingOperand (symbol : String)
  /-- More than one value is left at the end. -/
  | missingOperator (count : Nat)
  /-- There are more brackets of one sort than of the other. -/
  | unequalBrackets (opening closing : Nat)
  | divisionByZero
  /-- There is no operand at all. -/
  | noOperand
  deriving DecidableEq

namespace Error

def message : Error → String
  | unexpectedOperator symbol => "Encountered unexpected operator `" ++ symbol ++ "`"
  | unknownOperator symbol => "Encountered unknown operator `" ++ symbol ++ "`"
  | unknownOperand text => "Encountered unknown expression `" ++ text ++ "`"
  | expectedBracket => "Expected bracket"
  | missingOperand symbol => "Expected parameters for `" ++ symbol ++ "`"
  | missingOperator count => "Expected operator between " ++ toString count ++ " values"
  | unequalBrackets opening closing =>
    "Encountered wrong bracket number (" ++ toString opening ++ " opening, " ++
      toString closing ++ " closing)"
  | divisionByZero => "Encountered division by zero"
  | noOperand => "Encountered empty expression"

def code : Error → Code
  | unexpectedOperator _ => .unexpectedOperator
  | unknownOperator _ => .unknownOperator
  | unknownOperand _ => .unknownOperand
  | expectedBracket => .expectedBracket
  | missingOperand _ => .missingOperand
  | missingOperator _ => .missingOperator
  | unequalBrackets _ _ => .unequalBrackets
  | divisionByZero => .divisionByZero
  | noOperand => .noOperand

end Error

end NumScript.Expr
