import NumScript.Text.Blank

set_option autoImplicit false

/-! # Lexemes of an expression

The text of an expression falls into numbers, words, brackets and symbols, with blanks between them
that mean nothing. Every text falls into lexemes: whether a run of digits and points is a number, a
word a known name and a run of symbol characters an operator is not decided here. -/

namespace NumScript.Expr

/-- A piece of the text of an expression. -/
inductive Lexeme where
  /-- A digit with the digits and points after it. -/
  | number (text : List Char)
  /-- A letter or underscore with the letters, digits and underscores after it. -/
  | word (text : List Char)
  | opening
  | closing
  /-- One of `+ - * / % ^`, or a run of the characters that belong to no other lexeme. -/
  | symbol (text : List Char)
  deriving DecidableEq

/-! ## Classes of characters

The classes decide how far a lexeme reaches, by the first character and greedily. They are classes
of characters of one byte, but for the symbols: whatever belongs to no other class is one, in any
script. -/

def isNumberChar (c : Char) : Bool :=
  c.isDigit || c == '.'

def isWordStart (c : Char) : Bool :=
  c.isAlpha || c == '_'

def isWordChar (c : Char) : Bool :=
  c.isAlphanum || c == '_'

/-- The operators that form a symbol on their own, whatever follows. -/
def isSingleSymbol (c : Char) : Bool :=
  c == '+' || c == '-' || c == '*' || c == '/' || c == '%' || c == '^'

def isSymbolChar (c : Char) : Bool :=
  !(Text.isBlank c || isWordChar c || c == '(' || c == ')' || isSingleSymbol c)

/-- The first lexeme of a text that starts with `c`, and what follows it; nothing for a blank. -/
def Lexeme.first (c : Char) (rest : List Char) : Option Lexeme × List Char :=
  if Text.isBlank c then (none, rest)
  else if c.isDigit then
    (some (.number (c :: rest.takeWhile isNumberChar)), rest.dropWhile isNumberChar)
  else if isWordStart c then
    (some (.word (c :: rest.takeWhile isWordChar)), rest.dropWhile isWordChar)
  else if c = '(' then (some .opening, rest)
  else if c = ')' then (some .closing, rest)
  else if isSingleSymbol c then (some (.symbol [c]), rest)
  else (some (.symbol (c :: rest.takeWhile isSymbolChar)), rest.dropWhile isSymbolChar)

theorem Lexeme.length_first_le (c : Char) (rest : List Char) :
    (Lexeme.first c rest).2.length ≤ rest.length := by
  have h (p : Char → Bool) : (rest.dropWhile p).length ≤ rest.length :=
    (List.dropWhile_sublist p).length_le
  unfold Lexeme.first
  split
  · exact Nat.le_refl _
  split
  · exact h _
  split
  · exact h _
  split
  · exact Nat.le_refl _
  split
  · exact Nat.le_refl _
  split
  · exact Nat.le_refl _
  · exact h _

/-- The lexemes of a text, in order. -/
def lexemes : List Char → List Lexeme
  | [] => []
  | c :: rest => (Lexeme.first c rest).1.toList ++ lexemes (Lexeme.first c rest).2
termination_by text => text.length
decreasing_by
  have := Lexeme.length_first_le c rest
  simp only [List.length_cons]
  omega

end NumScript.Expr
