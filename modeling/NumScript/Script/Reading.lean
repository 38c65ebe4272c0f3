import NumScript.Expr.Lexeme
import NumScript.Script.Keyword

set_option autoImplicit false

/-! # Reading a script

A place in a script is the text that is still ahead. The functions here take that text and return
what they read together with what is ahead then. Between tokens stand *gaps*: blanks, and comments
from a `#` to the end of the line. A `;` inside a comment ends no statement.

What is ahead is always an end of the text that was given, so it is determined by its length, and
positions are computed from it only where they are shown. No reader can fail: a word may be empty, a
parameter may be empty, and what was expected is asked for by those who read statements. -/

namespace NumScript.Script

/-- The text after the gap it starts with. With `inComment` the text starts inside a comment. -/
def skipGapFrom (inComment : Bool) : List Char → List Char
  | [] => []
  | c :: rest =>
    if inComment then skipGapFrom (c != '\n') rest
    else if Text.isBlank c then skipGapFrom false rest
    else if c = '#' then skipGapFrom true rest
    else c :: rest

def skipGap (text : List Char) : List Char :=
  skipGapFrom false text

/-- A word, and what is ahead after the gap that follows it. The word may be empty. -/
def readWord (text : List Char) : List Char × List Char :=
  let start := skipGap text
  (start.takeWhile Expr.isWordChar, skipGap (start.dropWhile Expr.isWordChar))

inductive Leading where
  /-- No word at all: the end of the script, or a stray symbol. -/
  | nothing
  | keyword (k : Keyword)
  | unknown (word : String)

/-- The first word of a statement. -/
def readLeading (text : List Char) : Leading × List Char :=
  let (word, rest) := readWord text
  if word = [] then (.nothing, rest)
  else
    match Keyword.ofWord? (String.ofList word) with
    | some k => (.keyword k, rest)
    | none => (.unknown (String.ofList word), rest)

/-- What precedes the text of a parameter that is being read. -/
inductive ParamPhase where
  /-- A gap: blanks are not part of the parameter. -/
  | gap
  | comment
  /-- The parameter itself: blanks are part of it. -/
  | body
  deriving DecidableEq

/-- The rest of a parameter and what is ahead after it. A parameter ends before a `;`, before a `,`
or with the text. A comment inside it is cut out together with the gap that follows. -/
def readParamFrom : ParamPhase → List Char → List Char × List Char
  | _, [] => ([], [])
  | .comment, c :: rest => readParamFrom (if c = '\n' then .gap else .comment) rest
  | phase, c :: rest =>
    if c = ';' ∨ c = ',' then ([], c :: rest)
    else if c = '#' then readParamFrom .comment rest
    else if phase = .gap ∧ Text.isBlank c then readParamFrom .gap rest
    else
      let (param, ahead) := readParamFrom .body rest
      (c :: param, ahead)

def readParam (text : List Char) : List Char × List Char :=
  readParamFrom .gap text

/-- What follows the separator `,`, if one is next. -/
def afterSeparator? : List Char → Option (List Char)
  | ',' :: rest => some rest
  | _ => none

/-- What follows the terminator `;`, if one is next. -/
def afterTerminator? : List Char → Option (List Char)
  | ';' :: rest => some rest
  | _ => none

def isTerminated (text : List Char) : Bool :=
  (afterTerminator? text).isSome

/-- What follows each terminator of a text, in order. With `inComment` the text starts inside a
comment. -/
def statementsFrom (inComment : Bool) : List Char → List (List Char)
  | [] => []
  | c :: rest =>
    if inComment then statementsFrom (c != '\n') rest
    else if c = ';' then rest :: statementsFrom false rest
    else statementsFrom (c == '#') rest

/-- What follows each terminator of a text, in order: the starts of the statements after the first.
-/
def laterStatements (text : List Char) : List (List Char) :=
  statementsFrom false text

/-! ## Lists

The lists of parameters and of names that statements take, each item with what is ahead after it.
Both end where no separator follows. An item takes no more than there is, and a separator takes one
character, so each list is read by recursion on the length of what is ahead. -/

theorem length_skipGapFrom_le (inComment : Bool) (text : List Char) :
    (skipGapFrom inComment text).length ≤ text.length := by
  induction text generalizing inComment with
  | nil => simp [skipGapFrom]
  | cons c rest ih =>
    have hfalse := ih false
    have htrue := ih true
    have hnext := ih (c != '\n')
    rw [skipGapFrom]
    split
    · simp only [List.length_cons]
      omega
    split
    · simp only [List.length_cons]
      omega
    split
    · simp only [List.length_cons]
      omega
    · exact Nat.le_refl _

theorem length_readWord_le (text : List Char) : (readWord text).2.length ≤ text.length := by
  have h1 := length_skipGapFrom_le false text
  have h2 := (List.dropWhile_sublist (l := skipGap text) Expr.isWordChar).length_le
  have h3 := length_skipGapFrom_le false ((skipGap text).dropWhile Expr.isWordChar)
  simp only [readWord, skipGap] at *
  omega

theorem length_readParamFrom_le (phase : ParamPhase) (text : List Char) :
    (readParamFrom phase text).2.length ≤ text.length := by
  induction phase, text using readParamFrom.induct with
  | case1 phase =>
    have hread : readParamFrom phase [] = ([], []) := by rw [readParamFrom]
    exact Nat.le_of_eq (congrArg (·.2.length) hread)
  | case2 c rest ih =>
    rw [readParamFrom]
    exact Nat.le_succ_of_le ih
  | case3 phase c rest hphase hend =>
    have hread : readParamFrom phase (c :: rest) = ([], c :: rest) := by
      rw [readParamFrom.eq_3 phase c rest hphase, if_pos hend]
    exact Nat.le_of_eq (congrArg (·.2.length) hread)
  | case4 phase rest hphase hend ih =>
    rw [readParamFrom.eq_3 phase '#' rest hphase, if_neg hend, if_pos rfl]
    exact Nat.le_succ_of_le ih
  | case5 phase c rest hphase hend hhash hgap ih =>
    rw [readParamFrom.eq_3 phase c rest hphase, if_neg hend, if_neg hhash, if_pos hgap]
    exact Nat.le_succ_of_le ih
  | case6 phase c rest hphase hend hhash hgap param ahead hread ih =>
    rw [readParamFrom.eq_3 phase c rest hphase, if_neg hend, if_neg hhash, if_neg hgap]
    exact Nat.le_succ_of_le ih

theorem length_readParam_le (text : List Char) : (readParam text).2.length ≤ text.length :=
  length_readParamFrom_le .gap text

theorem afterSeparator?_eq_some_iff {text rest : List Char} :
    afterSeparator? text = some rest ↔ text = ',' :: rest := by
  unfold afterSeparator?
  split <;> simp_all

theorem afterTerminator?_eq_some_iff {text rest : List Char} :
    afterTerminator? text = some rest ↔ text = ';' :: rest := by
  unfold afterTerminator?
  split <;> simp_all

/-- The items of a list from here on, each with what is ahead after it, given how to read one. -/
def readList (read : List Char → List Char × List Char)
    (hread : ∀ text, (read text).2.length ≤ text.length) (text : List Char) :
    List (List Char × List Char) :=
  match _h : afterSeparator? (read text).2 with
  | some rest => read text :: readList read hread rest
  | none => [read text]
termination_by text.length
decreasing_by
  have := hread text
  rw [afterSeparator?_eq_some_iff.1 _h, List.length_cons] at this
  omega

def readParams (text : List Char) : List (List Char × List Char) :=
  readList readParam length_readParam_le text

def readNames (text : List Char) : List (List Char × List Char) :=
  readList readWord length_readWord_le text

end NumScript.Script
