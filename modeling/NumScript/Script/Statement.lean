import NumScript.Expr.Postfix
import NumScript.Script.Block
import NumScript.Script.Mode

set_option autoImplicit false

/-! # Statements with their operands

Reading a statement means: read its operands, look up its names, evaluate its expressions, find the
end of its block. Nothing is changed by that. What comes out is an *action*, which says what the
statement asks for, or an error; either way with the text ahead at that moment and with the outcome
of the last expression. Performing actions is left to those who run a script.

While validating, statements ask for nothing but to declare names and to check the bodies of
subroutines. -/

namespace NumScript.Script

/-- What statements can see. -/
structure View (ω : Type) where
  /-- The variables, the innermost scope first. -/
  chain : Chain ω
  cells : Cells
  /-- The result of the last call, which the name `return` stands for. -/
  lastReturn : Option Float
  isNative : String → Bool
  body? : String → Option String

namespace View

variable {ω : Type}

/-- The values of names in expressions. Until a call gives a result, `return` is no number. -/
def names (v : View ω) : Expr.Names :=
  fun name =>
    if name = "return" then some (v.lastReturn.getD Number.nan)
    else Chain.value? v.chain v.cells name

/-- Whether a name means a read-only variable. -/
def isReadonly (v : View ω) (name : String) : Bool :=
  (Chain.find? v.chain name).any (·.readonly)

end View

/-- A place to go on from. -/
inductive Point where
  /-- Before the first character of this text. -/
  | before (text : List Char)
  /-- One byte into the first character of this text, which has more than one. -/
  | inside (text : List Char)

/-- The place one byte further on, or the end. -/
def oneByteOn : List Char → Point
  | [] => .before []
  | c :: rest => if c.utf8Size = 1 then .before rest else .inside (c :: rest)

/-- A jump that waits: where the text ahead of a statement is `trigger`, go on from `target`. -/
structure Jump where
  /-- Nothing for a jump that is never taken. -/
  trigger : Option (List Char)
  target : Point

inductive Declaration where
  | var
  | exportVar
  | pop
  deriving DecidableEq

/-- What a statement asks for. -/
inductive Action where
  | pass
  | assign (name : String) (x : Float)
  | call (name : String) (args : List Float)
  | invoke (name : String) (body : String) (args : List Float)
  /-- Declares names, each given with the text ahead after it. -/
  | declare (sort : Declaration) (names : List (List Char × List Char))
  | jump (j : Jump)
  | define (name : String) (body : String)
  /-- Ends the run, with a result or as it is. -/
  | finish (result : Option Float)

/-- How far a statement has been read. -/
structure Progress where
  /-- The text ahead. -/
  rest : List Char
  /-- The outcome of the last expression. -/
  retained : Expr.Retained

/-! ## Readers

A reader changes how far the statement has been read and what the last expression gave. When it
fails both stay as they were at the failure: the place of the error is where reading had got to, and
an expression that was evaluated before it is not forgotten. -/

/-- Readers of parts of a statement. -/
abbrev Reader := EStateM Error Progress

namespace Reader

variable {ω : Type}

/-- Goes on from another place. -/
def goTo (rest : List Char) : Reader Unit :=
  modify fun p => { p with rest }

def operands : Reader Unit := do
  if isTerminated (← get).rest then throw .badOperands

def name : Reader String := do
  let (word, rest) := readWord (← get).rest
  goTo rest
  return String.ofList word

/-- The value of an expression. -/
def evaluate (v : View ω) (mode : Mode) (text : List Char) : Reader Float := do
  let outcome := Expr.evaluate v.names text
  modify fun p => { p with retained := some outcome }
  match outcome with
  | .ok x => return x
  | .error cause =>
    if cause = .divisionByZero ∧ mode.toleratesArithmeticFaults then return Number.nan
    else throw (.badExpression (String.ofList (Text.trim text)) cause)

def param (v : View ω) (mode : Mode) : Reader Float := do
  let (text, rest) := readParam (← get).rest
  goTo rest
  evaluate v mode text

def values (v : View ω) (mode : Mode) : List (List Char × List Char) → Reader (List Float)
  | [] => return []
  | (text, rest) :: more => do
    goTo rest
    let x ← evaluate v mode text
    return x :: (← values v mode more)

/-- The arguments of a call: none where the statement ends, else all parameters from here on. -/
def arguments (v : View ω) (mode : Mode) : Reader (List Float) := do
  let rest := (← get).rest
  if isTerminated rest then return [] else values v mode (readParams rest)

/-- The landmarks of a block whose header ends here. -/
def block (b : Block) : Reader Landmarks := do
  match scanBlock b (← get).rest with
  | .ok marks =>
    goTo marks.close
    return marks
  | .error rest =>
    goTo rest
    throw b.unclosed

/-! ## The statements

One reader for each keyword with operands, in the order in which the operands stand. The order of
the checks matters, since the first that fails decides the error and its place: a name is looked up
before the expression behind it is evaluated, and an expression is evaluated before the block behind
it is searched for its end. -/

def assignment (v : View ω) (mode : Mode) : Reader Action := do
  operands
  let name ← name
  if !Chain.contains v.chain name then throw (.undefinedVariable name)
  let x ← param v mode
  if !mode.performsEffects then return .pass
  else if mode.enforcesReadonly && v.isReadonly name then throw (.readOnly name)
  else return .assign name x

def nativeCall (v : View ω) (mode : Mode) : Reader Action := do
  operands
  let name ← name
  if !v.isNative name then throw (.undefinedFunction name)
  let args ← arguments v mode
  return if mode.performsEffects then .call name args else .pass

/-- A statement `goto name arguments`. While validating the name may still be undefined, so that a
subroutine can use a later one. -/
def subroutineCall (v : View ω) (mode : Mode) : Reader Action := do
  operands
  let name ← name
  if mode.performsEffects then
    match v.body? name with
    | none => throw (.undefinedFunction name)
    | some body => return .invoke name body (← arguments v mode)
  else
    let _ ← arguments v mode
    return .pass

/-- A statement `var names`, `export names` or `pop names`. -/
def declaration (sort : Declaration) : Reader Action := do
  operands
  return .declare sort (readNames (← get).rest)

/-- The header of a conditional. If the guard holds, the branch up to `else` is next, and what
follows `else` is jumped over; otherwise what follows `else`, or the end of the block. -/
def conditional (v : View ω) (mode : Mode) : Reader Action := do
  operands
  let guard ← param v mode
  let header := (← get).rest
  let marks ← block .conditional
  if !mode.followsBranches then
    goTo header
    return .pass
  else if Number.isTrue guard then
    goTo header
    match marks.alternate with
    -- the `;` after the closing keyword is taken for granted: the jump passes one byte unseen
    | some alternate => return .jump ⟨afterTerminator? alternate, oneByteOn marks.close⟩
    | none => return .pass
  else
    goTo (marks.alternate.getD marks.close)
    return .pass

/-- The header of a loop, whose statement starts with `start`. If the guard holds, the body is next,
and its end is followed by a jump back to the header; otherwise the end of the block is next. -/
def loop (v : View ω) (mode : Mode) (start : List Char) : Reader Action := do
  operands
  let guard ← param v mode
  let header := (← get).rest
  let marks ← block .loop
  if !mode.followsBranches then
    goTo header
    return .pass
  else if Number.isTrue guard then
    goTo header
    return .jump ⟨afterTerminator? marks.close, .before start⟩
  else return .pass

def definition : Reader Action := do
  operands
  let name ← name
  let header := (← get).rest
  if name.isEmpty || !isTerminated header then throw .badOperands
  -- the gaps before the first statement and after the last one do not belong to the body
  let first := skipGap (header.drop 1)
  let marks ← block .definition
  let body := first.take (first.length - marks.closing.length)
  if body.isEmpty then throw (.emptyFunction name)
  return .define name (String.ofList body)

def result (v : View ω) (mode : Mode) : Reader Action := do
  operands
  let x ← param v mode
  return if mode.performsEffects then .finish (some x) else .pass

/-- A statement, after its keyword. The closing keywords and `else` take no operands and ask for
nothing. -/
def statement (v : View ω) (mode : Mode) (start : List Char) : Keyword → Reader Action
  | .set => assignment v mode
  | .call => nativeCall v mode
  | .goto => subroutineCall v mode
  | .var => declaration .var
  | .exportVar => declaration .exportVar
  | .pop => declaration .pop
  | .ifBlock => conditional v mode
  | .whileBlock => loop v mode start
  | .define => definition
  | .returnValue => result v mode
  | .exit => return if mode.performsEffects then .finish none else .pass
  | .elseBranch | .fi | .done | .endDefine => return .pass

end Reader

end NumScript.Script
