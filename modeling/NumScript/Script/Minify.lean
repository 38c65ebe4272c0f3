import NumScript.Text.Alphanumeric
import NumScript.Text.Blank

set_option autoImplicit false

/-! # Minified scripts

Comments and spaces are dropped from a script, except that one space is kept where two word
characters or two operator characters would otherwise come to stand side by side: `set x` would
become one word and `> -1` one operator. -/

namespace NumScript.Script

/-- Letters and digits of all scripts, the underscore and the point. -/
def isMinifyWord (c : Char) : Bool :=
  Text.isAlphanumeric c || c == '_' || c == '.'

/-- What is neither a word character nor a space nor one of `; , ( )`. -/
def isMinifyOperator (c : Char) : Bool :=
  !(isMinifyWord c || Text.isSpace c || c == ';' || c == ',' || c == '(' || c == ')')

def needsSpace (left right : Char) : Bool :=
  (isMinifyWord left && isMinifyWord right) || (isMinifyOperator left && isMinifyOperator right)

/-! ## The pass over the text

One pass, which remembers the last character that was kept and what came since. Whether a space is
needed is decided when the next character is kept, so a run of spaces and comments leaves at most
one space behind, and none at the ends. -/

/-- What lies between the characters that are kept. -/
inductive Gap where
  /-- Nothing since the last character kept. -/
  | closed
  /-- Something was dropped. -/
  | open
  /-- A comment is being dropped, up to the next newline. -/
  | comment
  deriving DecidableEq

/-- The rest of a minified script, after the character `last` and a gap. -/
def minifyAfter (last : Option Char) : Gap → List Char → List Char
  | _, [] => []
  | .comment, c :: rest => minifyAfter last (if c = '\n' then .open else .comment) rest
  | gap, c :: rest =>
    if c = '#' then minifyAfter last .comment rest
    else if Text.isSpace c then minifyAfter last .open rest
    else if gap = .open ∧ last.any (needsSpace · c) then
      ' ' :: c :: minifyAfter (some c) .closed rest
    else c :: minifyAfter (some c) .closed rest

theorem minifyAfter_nil (last : Option Char) (gap : Gap) : minifyAfter last gap [] = [] := by
  cases gap <;> rfl

/-- Outside a comment a space is dropped. -/
theorem minifyAfter_of_space {c : Char} (hhash : c ≠ '#') (hspace : Text.isSpace c = true)
    (last : Option Char) {gap : Gap} (hgap : gap ≠ .comment) (t : List Char) :
    minifyAfter last gap (c :: t) = minifyAfter last .open t := by
  cases gap with
  | comment => exact absurd rfl hgap
  | closed => simp [minifyAfter, hhash, hspace]
  | «open» => simp [minifyAfter, hhash, hspace]

/-- Outside a comment any other character is kept, and one space before it if need be. -/
theorem minifyAfter_of_not_space {c : Char} (hhash : c ≠ '#') (hspace : Text.isSpace c = false)
    (last : Option Char) {gap : Gap} (hgap : gap ≠ .comment) (t : List Char) :
    minifyAfter last gap (c :: t) =
      if gap = .open ∧ last.any (needsSpace · c) then ' ' :: c :: minifyAfter (some c) .closed t
      else c :: minifyAfter (some c) .closed t := by
  cases gap with
  | comment => exact absurd rfl hgap
  | closed => simp [minifyAfter, hhash, hspace]
  | «open» => simp [minifyAfter, hhash, hspace]

/-- A script without its comments and its spare spaces. -/
def minify (script : List Char) : List Char :=
  minifyAfter none .closed script

end NumScript.Script
