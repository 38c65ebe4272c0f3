import NumScript.Diagnostic.Code
import NumScript.Diagnostic.Location

set_option autoImplicit false

/-! # Diagnostics

A problem with its code, its message, the place where it was found and notes on it. The two printed
forms differ only in how they show the place: `render` with the name of a file, `display` without. -/

namespace NumScript

/-- How serious a problem is. -/
inductive Severity where
  | error
  | warning
  | note
  deriving DecidableEq

def Severity.text : Severity → String
  | .error => "error"
  | .warning => "warning"
  | .note => "note"

/-- A problem to report. -/
structure Diagnostic where
  code : Code
  severity : Severity := .error
  message : String := ""
  location : Option Location := none
  notes : List String := []
  deriving DecidableEq

namespace Diagnostic

/-- The diagnostic, placed at a byte offset of a text. -/
def withOffset (d : Diagnostic) (source : List Char) (offset : Nat) : Diagnostic :=
  { d with location := some (Location.ofOffset source offset) }

def withNote (d : Diagnostic) (note : String) : Diagnostic :=
  { d with notes := d.notes ++ [note] }

def isError (d : Diagnostic) : Bool :=
  d.severity == .error

/-- The first line of the printed form. -/
def headline (d : Diagnostic) : String :=
  d.severity.text ++ " [" ++ d.code.text ++ "]: " ++ d.message

/-- The printed form, where `place` writes the location. -/
def write (place : Location → String) (d : Diagnostic) : String :=
  d.headline ++ (d.location.map fun l => "\n  --> " ++ place l).getD "" ++
    String.join (d.notes.map fun note => "\n  = note: " ++ note)

/-- The printed form with the name of the file. -/
def render (d : Diagnostic) (path : String) : String :=
  d.write fun l => path ++ ":" ++ toString l.line ++ ":" ++ toString l.column

/-- The printed form without a file. -/
def display (d : Diagnostic) : String :=
  d.write fun l => "line " ++ toString l.line ++ ", column " ++ toString l.column

end Diagnostic

end NumScript
