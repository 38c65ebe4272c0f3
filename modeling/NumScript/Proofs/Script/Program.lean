import NumScript.Proofs.Script.Readers
import NumScript.Script.Run

set_option autoImplicit false

/-! # Programs

A script as a tree: statements one after the other, with the branches of conditionals, the bodies of
loops and the bodies of subroutines as programs of their own. A program runs by its structure, and
there is no text, no place in one and no jump.

What is left to do is a program and, for each block it is inside of, the program that follows once
the block is done. A conditional goes on with one of its branches, a loop whose guard holds with its
body and, after that, with itself. A step performs one statement or leaves one block.

This is the meaning that the text of a script is measured against. It takes scopes, cells and the
host from the model, which are not about texts, and expressions with their values. Statements,
blocks, calls and definitions are defined here without looking at how a text is read. -/

namespace NumScript.Script

variable {ω σ : Type}

/-- The statements that contain no others. Expressions are kept as they are written. -/
inductive Simple where
  | set (name : String) (value : List Char)
  | call (name : String) (args : List (List Char))
  | goto (name : String) (args : List (List Char))
  | declare (sort : Declaration) (first : String) (more : List String)
  | result (value : List Char)
  | exit

/-- Nothing, or a statement and the program that follows it. -/
inductive Program where
  | empty
  | simple (statement : Simple) (next : Program)
  | ifThen (guard : List Char) (yes next : Program)
  | ifElse (guard : List Char) (yes no next : Program)
  | loop (guard : List Char) (body next : Program)
  | define (name : String) (body next : Program)

/-- What the statements of a program change, beside their activation. -/
structure Setting (ω σ : Type) where
  world : World ω σ
  /-- The subroutines by name. -/
  programs : Dict Program := {}
  lastReturn : Option Float := none
  retained : Expr.Retained := none

def Setting.view (host : Host ω σ) (a : Activation ω) (s : Setting ω σ) : View ω where
  chain := a.chain s.world
  cells := s.world.cells
  lastReturn := s.lastReturn
  isNative := Dict.contains host.bindings
  body? := fun _ => none

def Setting.looking (s : Setting ω σ) (host : Host ω σ) (a : Activation ω) (text : List Char) :
    Setting ω σ :=
  { s with retained := some (Expr.evaluate (s.view host a).names text) }

/-- What a statement leads to: to the next one, or to the end of the run. -/
inductive Move (ω σ : Type) where
  | next (a : Activation ω) (s : Setting ω σ)
  | stop (ending : Ending) (s : Setting ω σ)

/-- What a step leads to: the program to go on with and those that follow the blocks it is in, or
the end of the run. -/
inductive Turn (ω σ : Type) where
  | next (p : Program) (outer : List Program) (a : Activation ω) (s : Setting ω σ)
  | stop (ending : Ending) (s : Setting ω σ)

def Move.turn (p : Program) (outer : List Program) : Move ω σ → Turn ω σ
  | .next a s => .next p outer a s
  | .stop ending s => .stop ending s

/-! ## Simple statements

What each statement does to its activation and to the setting. Lists of operands are given as lists,
and a statement stops at the first operand that is wrong, with the error of that. -/

abbrev Runner (ω σ : Type) := Program → Activation ω → Setting ω σ → Ending × Setting ω σ

def declareNames (host : Host ω σ) (sort : Declaration) (a : Activation ω) (s : Setting ω σ) :
    List String → Move ω σ
  | [] => .next a s
  | name :: more =>
    match declareName host sort a s.world name with
    | .ok (a, world) => declareNames host sort a { s with world } more
    | .error e => .stop (.failed e) s

def setVariable (host : Host ω σ) (a : Activation ω) (s : Setting ω σ) (name : String)
    (value : List Char) : Move ω σ :=
  if !Chain.contains (a.chain s.world) name then .stop (.failed (.undefinedVariable name)) s
  else
    match (s.view host a).value a.mode value with
    | .error e => .stop (.failed e) (s.looking host a value)
    | .ok x =>
      let s := s.looking host a value
      if !a.mode.performsEffects then .next a s
      else if a.mode.enforcesReadonly && (s.view host a).isReadonly name then
        .stop (.failed (.readOnly name)) s
      else
        let (a, world) := assign host a s.world name x
        .next a { s with world }

def callNative (host : Host ω σ) (a : Activation ω) (s : Setting ω σ) (name : String)
    (args : List (List Char)) : Move ω σ :=
  if !Dict.contains host.bindings name then .stop (.failed (.undefinedFunction name)) s
  else
    match (s.view host a).values a.mode s.retained args with
    | (.error e, retained) => .stop (.failed e) { s with retained }
    | (.ok xs, retained) =>
      if !a.mode.performsEffects then .next a { s with retained }
      else
        match Bindings.call host.bindings name xs s.world with
        | .ok (x, world) => .next a { s with world, lastReturn := some x, retained }
        | .error e => .stop (.failed (.ofUnknownBinding e)) { s with retained }

def runSubroutine (host : Host ω σ) (runner : Runner ω σ) (depth : Nat) (a : Activation ω)
    (s : Setting ω σ) (name : String) (body : Program) (args : List Float) : Move ω σ :=
  if host.maxDepth ≤ depth then .stop (.failed (.tooDeep name host.maxDepth)) s
  else
    match runner body { params := some args } { s with lastReturn := none } with
    | (.finished, s) => .next a s
    | (ending, s) => .stop ending s

def callSubroutine (host : Host ω σ) (runner : Runner ω σ) (depth : Nat) (a : Activation ω)
    (s : Setting ω σ) (name : String) (args : List (List Char)) : Move ω σ :=
  match a.mode.performsEffects, s.programs.find? name with
  | true, none => .stop (.failed (.undefinedFunction name)) s
  | true, some body =>
    match (s.view host a).values a.mode s.retained args with
    | (.error e, retained) => .stop (.failed e) { s with retained }
    | (.ok xs, retained) => runSubroutine host runner depth a { s with retained } name body xs
  | false, _ =>
    match (s.view host a).values a.mode s.retained args with
    | (.error e, retained) => .stop (.failed e) { s with retained }
    | (.ok _, retained) => .next a { s with retained }

def Simple.perform (host : Host ω σ) (runner : Runner ω σ) (depth : Nat) (a : Activation ω)
    (s : Setting ω σ) : Simple → Move ω σ
  | .set name value => setVariable host a s name value
  | .call name args => callNative host a s name args
  | .goto name args => callSubroutine host runner depth a s name args
  | .declare sort first more => declareNames host sort a s (first :: more)
  | .result value =>
    match (s.view host a).value a.mode value with
    | .error e => .stop (.failed e) (s.looking host a value)
    | .ok x =>
      let s := s.looking host a value
      if a.mode.performsEffects then .stop .finished { s with lastReturn := some x }
      else .next a s
  | .exit => if a.mode.performsEffects then .stop .finished s else .next a s

/-! ## Programs

A block is entered by going on with its program and keeping what follows, and it is left when its
program is empty. So the depth of blocks is the length of a list, and a loop is a program that keeps
itself to follow its body. A step of a program is one step of its text, which makes it possible to
compare the two with the same number of steps. -/

namespace Program

/-- Chooses a way by the value of a guard. -/
def choose {α : Type} (mode : Mode) (x : Float) (yes no both : α) : α :=
  if !mode.followsBranches then both else if Number.isTrue x then yes else no

/-- Chooses by a guard, given what to do if it holds, if it does not, and if both ways are taken
because guards are not followed. -/
def branch (host : Host ω σ) (a : Activation ω) (s : Setting ω σ) (guard : List Char)
    (yes no both : Program × List Program) : Turn ω σ :=
  match (s.view host a).value a.mode guard with
  | .error e => .stop (.failed e) (s.looking host a guard)
  | .ok x =>
    let way := choose a.mode x yes no both
    .next way.1 way.2 a (s.looking host a guard)

/-- Binds a subroutine, once its body was checked. -/
def bind (runner : Runner ω σ) (a : Activation ω) (s : Setting ω σ) (name : String) :
    Program → Move ω σ
  | .empty => .stop (.failed (.emptyFunction name)) s
  | body =>
    match runner body { mode := .validate, outer := some (a.chain s.world) } s with
    | (.finished, s) =>
      .next a (if a.mode.performsEffects then { s with programs := s.programs.put name body } else s)
    | (ending, s) => .stop ending s

/-- Performs a statement or leaves a block. -/
def advance (host : Host ω σ) (runner : Runner ω σ) (depth : Nat) (a : Activation ω)
    (s : Setting ω σ) : Program → List Program → Turn ω σ
  | .empty, [] => .stop .finished s
  | .empty, p :: outer => .next p outer a s
  | .simple statement next, outer => (statement.perform host runner depth a s).turn next outer
  | .ifThen guard yes next, outer =>
    branch host a s guard (yes, next :: outer) (next, outer) (yes, next :: outer)
  | .ifElse guard yes no next, outer =>
    branch host a s guard (yes, next :: outer) (no, next :: outer) (yes, no :: next :: outer)
  | .loop guard body next, outer =>
    branch host a s guard (body, .loop guard body next :: outer) (next, outer) (body, next :: outer)
  | .define name body next, outer => (bind runner a s name body).turn next outer

/-- One step of a program: heed a request to stop, then perform a statement or leave a block. -/
def step (host : Host ω σ) (runner : Runner ω σ) (depth : Nat) (p : Program) (outer : List Program)
    (a : Activation ω) (s : Setting ω σ) : Turn ω σ :=
  if a.mode.observesTermination && s.world.stopping then .stop (.failed .terminated) s
  else advance host runner depth a s p outer

def start (run : Program → List Program → Activation ω → Setting ω σ → Ending × Setting ω σ) :
    Runner ω σ
  | .empty, _, s => (.failed .emptyScript, s)
  | p, a, s => run p [] a s

/-- Runs a program, in at most the given number of steps. -/
def run (host : Host ω σ) : (steps depth : Nat) → Program → List Program → Activation ω →
    Setting ω σ → Ending × Setting ω σ
  | 0, _, _, _, _, s => (.outOfSteps, s)
  | steps + 1, depth, p, outer, a, s =>
    match step host (start (run host steps (depth + 1))) depth p outer a s with
    | .next p outer a s => run host steps depth p outer a s
    | .stop ending s => (ending, s)

end Program

end NumScript.Script
