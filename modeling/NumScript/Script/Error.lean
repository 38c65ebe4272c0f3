import NumScript.Expr.Error
import NumScript.Host.Bindings

set_option autoImplicit false

/-! # What can stop a script

The errors of a run and of a check. Each carries the words that its message shows: a name, a
parameter as it was written, or the error of the expression that caused it. The place of an error is
not part of it; that is where the run stopped. -/

namespace NumScript.Script

/-- Why a script stopped before its end. -/
inductive Error where
  | undefinedVariable (name : String)
  /-- There is no native function, or no subroutine, of this name. -/
  | undefinedFunction (name : String)
  | expectedFi
  | expectedDone
  | expectedEnd
  /-- A statement lacks its `;`. -/
  | expectedTerminator
  /-- A subroutine has no body. -/
  | emptyFunction (name : String)
  /-- A statement, or a name in a list of names, is missing. -/
  | emptyStatement
  | unknownStatement (word : String)
  /-- The text holds nothing but blanks and comments. -/
  | emptyScript
  | badOperands
  | badExpression (text : String) (cause : Expr.Error)
  | readOnly (name : String)
  /-- The host asked the script to stop. -/
  | terminated
  | tooDeep (name : String) (limit : Nat)
  deriving DecidableEq

namespace Error

def message : Error → String
  | undefinedVariable name => "Encountered undefined variable `" ++ name ++ "`"
  | undefinedFunction name => "Encountered undefined function `" ++ name ++ "`"
  | expectedFi => "Expected `fi` token"
  | expectedDone => "Expected `done` token"
  | expectedEnd => "Expected `end` token"
  | expectedTerminator => "Expected `;` token"
  | emptyFunction name => "Encountered empty function `" ++ name ++ "`"
  | emptyStatement => "Encountered empty expression"
  | unknownStatement word => "Encountered unknown expression `" ++ word ++ "`"
  | emptyScript => "Wrong or empty script code"
  | badOperands => "Encountered invalid expression parameters"
  | badExpression text _ => "Encountered invalid math expression `" ++ text ++ "`"
  | readOnly name => "Selected variable `" ++ name ++ "` is readonly"
  | terminated => "Script terminated before end"
  | tooDeep name limit =>
    "Subroutine `" ++ name ++ "` exceeded the call depth limit of " ++ toString limit

def code : Error → Code
  | undefinedVariable _ => .undefinedVariable
  | undefinedFunction _ => .undefinedFunction
  | expectedFi => .expectedFi
  | expectedDone => .expectedDone
  | expectedEnd => .expectedEnd
  | expectedTerminator => .expectedTerminator
  | emptyFunction _ => .emptyFunction
  | emptyStatement => .emptyStatement
  | unknownStatement _ => .unknownStatement
  | emptyScript => .emptyScript
  | badOperands => .badOperands
  | badExpression _ _ => .badExpression
  | readOnly _ => .readOnly
  | terminated => .terminated
  | tooDeep _ _ => .tooDeep

def cause? : Error → Option Expr.Error
  | badExpression _ cause => some cause
  | _ => none

/-- A failed look-up of a variable, as it stops a script. -/
def ofUnknownVariable (e : UnknownVariable) : Error :=
  undefinedVariable e.name

/-- A failed look-up of a native function, as it stops a script. -/
def ofUnknownBinding (e : UnknownBinding) : Error :=
  undefinedFunction e.name

end Error

end NumScript.Script
