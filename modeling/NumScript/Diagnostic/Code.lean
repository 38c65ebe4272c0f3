set_option autoImplicit false

/-! # Error codes

Every problem that can be reported has a code: `E0…` for those of a single expression, `E1…` for
those of a script. A code is written in upper case and read in any case. -/

namespace NumScript

inductive Code where
  | unexpectedOperator
  | unknownOperator
  | unknownOperand
  | expectedBracket
  | missingOperand
  | missingOperator
  | unequalBrackets
  | divisionByZero
  | noOperand
  | undefinedVariable
  | undefinedFunction
  | expectedFi
  | expectedDone
  | expectedEnd
  | expectedTerminator
  | emptyFunction
  | emptyStatement
  | unknownStatement
  | emptyScript
  | badOperands
  | badExpression
  | readOnly
  | terminated
  | tooDeep
  deriving DecidableEq

namespace Code

/-- Every code, in the order of their numbers. -/
def all : List Code :=
  [unexpectedOperator, unknownOperator, unknownOperand, expectedBracket, missingOperand,
    missingOperator, unequalBrackets, divisionByZero, noOperand, undefinedVariable,
    undefinedFunction, expectedFi, expectedDone, expectedEnd, expectedTerminator, emptyFunction,
    emptyStatement, unknownStatement, emptyScript, badOperands, badExpression, readOnly, terminated,
    tooDeep]

/-- The code as it is shown. -/
def text : Code → String
  | unexpectedOperator => "E0001"
  | unknownOperator => "E0002"
  | unknownOperand => "E0003"
  | expectedBracket => "E0004"
  | missingOperand => "E0005"
  | missingOperator => "E0006"
  | unequalBrackets => "E0007"
  | divisionByZero => "E0008"
  | noOperand => "E0009"
  | undefinedVariable => "E1001"
  | undefinedFunction => "E1002"
  | expectedFi => "E1003"
  | expectedDone => "E1004"
  | expectedEnd => "E1005"
  | expectedTerminator => "E1006"
  | emptyFunction => "E1007"
  | emptyStatement => "E1008"
  | unknownStatement => "E1009"
  | emptyScript => "E1010"
  | badOperands => "E1011"
  | badExpression => "E1012"
  | readOnly => "E1013"
  | terminated => "E1014"
  | tooDeep => "E1015"

def description : Code → String
  | unexpectedOperator => "unexpected operator"
  | unknownOperator => "unknown operator"
  | unknownOperand => "unknown expression"
  | expectedBracket => "expected bracket"
  | missingOperand => "not enough parameters"
  | missingOperator => "too many parameters"
  | unequalBrackets => "brackets not equal"
  | divisionByZero => "division by zero"
  | noOperand => "empty expression"
  | undefinedVariable => "undefined variable"
  | undefinedFunction => "undefined function"
  | expectedFi => "expected `fi`"
  | expectedDone => "expected `done`"
  | expectedEnd => "expected `end`"
  | expectedTerminator => "expected `;`"
  | emptyFunction => "empty function"
  | emptyStatement => "empty expression"
  | unknownStatement => "unknown statement"
  | emptyScript => "wrong script code"
  | badOperands => "wrong parameters"
  | badExpression => "wrong evaluation"
  | readOnly => "variable is read-only"
  | terminated => "script terminated"
  | tooDeep => "call depth exceeded"

/-- The code with this text, in upper or lower case. -/
def ofText? (s : String) : Option Code :=
  let upper := s.toList.map Char.toUpper
  all.find? fun code => code.text.toList == upper

def isExpression (code : Code) : Bool :=
  code.text.toList.take 2 == ['E', '0']

def isScript (code : Code) : Bool :=
  code.text.toList.take 2 == ['E', '1']

theorem mem_all (code : Code) : code ∈ all := by
  cases code <;> decide

end Code

end NumScript
