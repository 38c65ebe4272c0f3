set_option autoImplicit false

/-! # Keywords

The words that start a statement. They are the same in scripts, in bodies of subroutines and for the
search for the end of a block. A statement that starts with any other word is an error when a run or
a check comes to it; the search passes over it. -/

namespace NumScript.Script

inductive Keyword where
  | set
  | call
  | goto
  | var
  | exportVar
  | pop
  | ifBlock
  | elseBranch
  | fi
  | whileBlock
  | done
  | define
  | endDefine
  | returnValue
  | exit
  deriving DecidableEq

namespace Keyword

def all : List Keyword :=
  [set, call, goto, var, exportVar, pop, ifBlock, elseBranch, fi, whileBlock, done, define,
    endDefine, returnValue, exit]

def word : Keyword → String
  | set => "set"
  | call => "call"
  | goto => "goto"
  | var => "var"
  | exportVar => "export"
  | pop => "pop"
  | ifBlock => "if"
  | elseBranch => "else"
  | fi => "fi"
  | whileBlock => "while"
  | done => "done"
  | define => "define"
  | endDefine => "end"
  | returnValue => "return"
  | exit => "exit"

/-- The keyword with exactly this word. -/
def ofWord? (s : String) : Option Keyword :=
  all.find? fun k => k.word == s

theorem ofWord?_word (k : Keyword) : ofWord? k.word = some k := by
  cases k <;> decide

theorem ofWord?_eq_some_iff {s : String} {k : Keyword} : ofWord? s = some k ↔ s = k.word := by
  constructor
  · intro h
    have hs := List.find?_some h
    exact (beq_iff_eq.1 hs).symm
  · rintro rfl
    exact ofWord?_word k

end Keyword

end NumScript.Script
