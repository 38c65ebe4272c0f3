import NumScript.Script.Statement
import NumScript.Text.Bytes

set_option autoImplicit false

/-! # Running a script

A run walks over the text of a script. Where a block is entered the walk goes on inside it, and a
jump is left behind that brings it back to the header of a loop or over the second branch of a
conditional. Only the latest jump is looked at, and only before a statement.

Checking a script is the same walk in the other mode: it reads the statements once, in the order of
the text, and performs none of them. Names that it declares go into a scope of its own. The body of
a subroutine is checked where it is defined, with the names visible there, whatever the mode.

`step` performs one statement. It is told how to run a subroutine, so it does not call itself; `run`
ties the knot and counts the steps. A script may loop forever, so a run is given a number of steps
and says so when it used them up. More steps never change how a finished run ended. -/

namespace NumScript.Script

variable {ω σ : Type}

inductive Ending where
  | finished
  | failed (e : Error)
  /-- The given number of steps was used up. -/
  | outOfSteps
  deriving DecidableEq

def Ending.error? : Ending → Option Error
  | failed e => some e
  | _ => none

structure Host (ω σ : Type) where
  bindings : Bindings ω σ := {}
  notify : Notify ω σ
  /-- How many subroutines may be active at once. -/
  maxDepth : Nat := 256

abbrev Functions := Dict String

/-- What the statements of a run change, beside their frame. -/
structure Machine (ω σ : Type) where
  world : World ω σ
  functions : Functions := {}
  lastReturn : Option Float := none
  /-- The outcome of the last expression. -/
  retained : Expr.Retained := none

/-- One activation: of a script, of a subroutine, or of a check of either. -/
structure Activation (ω : Type) where
  locals : Scope ω := {}
  /-- What is left of the parameters, if any were given. -/
  params : Option (List Float) := none
  mode : Mode := .execute
  /-- The scopes that names mean variables of after the local one, where these are not those of the
  world. -/
  outer : Option (Chain ω) := none

/-- An activation and its place in the text. -/
structure Frame (ω : Type) extends Activation ω where
  /-- The text ahead. -/
  rest : List Char
  /-- The jumps that wait, the latest first. -/
  jumps : List Jump := []

structure Outcome (ω σ : Type) where
  ending : Ending
  /-- How many bytes of the text were ahead then. -/
  left : Nat
  machine : Machine ω σ
  /-- The outer scopes of the frame then. -/
  outer : Option (Chain ω)

inductive Step (ω σ : Type) where
  | next (f : Frame ω) (m : Machine ω σ)
  | stop (o : Outcome ω σ)

def Activation.chain (a : Activation ω) (w : World ω σ) : Chain ω :=
  a.locals :: a.outer.getD w.chain

def Frame.view (host : Host ω σ) (f : Frame ω) (m : Machine ω σ) : View ω where
  chain := f.chain m.world
  cells := m.world.cells
  lastReturn := m.lastReturn
  isNative := Dict.contains host.bindings
  body? := m.functions.find?

/-- The run stops in this frame. -/
def Frame.stop (f : Frame ω) (m : Machine ω σ) (ending : Ending) : Step ω σ :=
  .stop ⟨ending, Text.byteSize f.rest, m, f.outer⟩

/-- A statement is done: its terminator is due. -/
def Frame.finishStatement (f : Frame ω) (m : Machine ω σ) : Step ω σ :=
  match afterTerminator? f.rest with
  | some rest => .next { f with rest } m
  | none => f.stop m (.failed .expectedTerminator)

/-- The place of the next statement: where the latest jump leads, if this is where it waits. -/
def Frame.takeJump (f : Frame ω) : Frame ω × Point :=
  match f.jumps with
  | j :: below =>
    -- both are what is left of one text, so they are equal exactly at the same place
    if j.trigger = some f.rest then ({ f with jumps := below }, j.target)
    else (f, .before f.rest)
  | [] => (f, .before f.rest)

/-- Runs a frame from the first statement of its text, given how to run it from a statement on. A
text without any statement is an error. -/
def enter (run : Frame ω → Machine ω σ → Outcome ω σ) (f : Frame ω) (m : Machine ω σ) :
    Outcome ω σ :=
  match skipGap f.rest with
  | [] => ⟨.failed .emptyScript, 0, m, f.outer⟩
  | rest => run { f with rest } m

/-! ## The actions

What an action does to the scopes of its activation and to the world. The name of an assignment was
looked up when the statement was read, so the cases of `assign` in which it is nowhere do not come
up in a run. Notices are delivered at once: a watcher sees the world as it is right after the write
it is told of, and what it changes is there for the next statement. -/

/-- A write to the variable a name means, in the local scope or after it, and its notice. -/
def assign (host : Host ω σ) (a : Activation ω) (w : World ω σ) (name : String) (x : Float) :
    Activation ω × World ω σ :=
  match Scope.store? a.locals w.cells name x, a.outer with
  | some s, _ =>
    ({ a with locals := s.place }, host.notify.deliver s.notice? { w with cells := s.cells })
  | none, none => (a, (w.assign? host.notify name x).getD w)
  | none, some outer =>
    match Chain.store? outer w.cells name x with
    | some s =>
      ({ a with outer := some s.place }, host.notify.deliver s.notice? { w with cells := s.cells })
    | none => (a, w)

/-- Hands a local variable to the root: its number, if the root has the name, else the variable
itself. Without a local variable the name is declared at the root, unless it is visible there. -/
def exportName (host : Host ω σ) (a : Activation ω) (w : World ω σ) (name : String) :
    Activation ω × World ω σ :=
  match a.locals.find? name with
  | some v =>
    let a := { a with locals := a.locals.erase name }
    if w.root.contains name then (a, (w.assign? host.notify name (v.value w.cells)).getD w)
    else (a, { w with root := (w.root.add? name v).getD w.root })
  | none =>
    (a, if Chain.contains w.chain name then w else { w with root := w.root.declare name })

/-- Declares a local variable and gives it the next parameter, if parameters were given. -/
def popName (host : Host ω σ) (a : Activation ω) (w : World ω σ) (name : String) :
    Except Error (Activation ω × World ω σ) :=
  let a := { a with locals := a.locals.declare name }
  match a.params with
  -- without parameters a fresh variable is zero, and one that was there keeps its value
  | none => .ok (a, w)
  | some [] => .error .badOperands
  | some (x :: params) => .ok (assign host { a with params := some params } w name x)

/-- Declares one name. While validating every sort of declaration declares a local variable. -/
def declareName (host : Host ω σ) (sort : Declaration) (a : Activation ω) (w : World ω σ)
    (name : String) : Except Error (Activation ω × World ω σ) :=
  if a.mode.performsEffects then
    match sort with
    | .var => .ok ({ a with locals := a.locals.declare name }, w)
    | .exportVar => .ok (exportName host a w name)
    | .pop => popName host a w name
  else .ok ({ a with locals := a.locals.declare name }, w)

/-- Declares names one after the other, up to an empty one. What was done for earlier names stays
done when a later one fails. -/
def declare (host : Host ω σ) (sort : Declaration) (f : Frame ω) (m : Machine ω σ) :
    List (List Char × List Char) → Step ω σ
  | [] => f.finishStatement m
  | (word, rest) :: more =>
    let f := { f with rest }
    if word = [] then f.stop m (.failed .emptyStatement)
    else
      match declareName host sort f.toActivation m.world (String.ofList word) with
      | .ok (a, world) => declare host sort { f with toActivation := a } { m with world } more
      | .error e => f.stop m (.failed e)

/-- Runs a subroutine in a frame of its own, unless too many are active. Its result replaces that
of earlier calls. -/
def invoke (host : Host ω σ) (callee : Frame ω → Machine ω σ → Outcome ω σ) (depth : Nat)
    (m : Machine ω σ) (name body : String) (args : List Float) : Ending × Machine ω σ :=
  if host.maxDepth ≤ depth then (.failed (.tooDeep name host.maxDepth), m)
  else
    let o := enter callee { rest := body.toList, params := some args } { m with lastReturn := none }
    (o.ending, o.machine)

/-- Checks the body of a subroutine in a frame of its own, which sees the names of this one. A check
leaves them as they are, so they are not handed back. -/
def checkBody (callee : Frame ω → Machine ω σ → Outcome ω σ) (f : Frame ω) (m : Machine ω σ)
    (body : String) : Ending × Machine ω σ :=
  let inner : Frame ω :=
    { rest := body.toList, mode := .validate, outer := some (f.chain m.world) }
  let o := enter callee inner m
  (o.ending, o.machine)

/-! ## Steps

A step is one turn of the loop. It is not recursive: how a subroutine or a body is run is an
argument (`callee`), so what one step does can be stated and proved before anything is said about
runs. -/

/-- Performs what a statement asks for, once it is read. -/
def perform (host : Host ω σ) (callee : Frame ω → Machine ω σ → Outcome ω σ) (depth : Nat)
    (f : Frame ω) (m : Machine ω σ) : Action → Step ω σ
  | .pass => f.finishStatement m
  | .jump j => ({ f with jumps := j :: f.jumps } : Frame ω).finishStatement m
  | .assign name x =>
    let (a, world) := assign host f.toActivation m.world name x
    ({ f with toActivation := a } : Frame ω).finishStatement { m with world }
  | .call name args =>
    match Bindings.call host.bindings name args m.world with
    | .ok (x, world) => f.finishStatement { m with world, lastReturn := some x }
    | .error e => f.stop m (.failed (.ofUnknownBinding e))
  | .invoke name body args =>
    match invoke host callee depth m name body args with
    | (.finished, m) => f.finishStatement m
    | (ending, m) => f.stop m ending
  | .declare sort names => declare host sort f m names
  | .define name body =>
    match checkBody callee f m body with
    | (.finished, m) =>
      f.finishStatement
        (if f.mode.performsEffects then { m with functions := m.functions.put name body } else m)
    | (ending, m) => f.stop m ending
  | .finish none => f.stop m .finished
  | .finish (some x) => f.stop { m with lastReturn := some x } .finished

def dispatch (host : Host ω σ) (callee : Frame ω → Machine ω σ → Outcome ω σ) (depth : Nat)
    (f : Frame ω) (m : Machine ω σ) : Step ω σ :=
  let start := skipGap f.rest
  match readLeading start with
  | (.nothing, rest) =>
    Frame.stop { f with rest } m (if rest = [] then .finished else .failed .emptyStatement)
  | (.unknown word, rest) => Frame.stop { f with rest } m (.failed (.unknownStatement word))
  | (.keyword k, rest) =>
    match Reader.statement (f.view host m) f.mode start k ⟨rest, m.retained⟩ with
    | .error e p =>
      Frame.stop { f with rest := p.rest } { m with retained := p.retained } (.failed e)
    | .ok action p =>
      perform host callee depth { f with rest := p.rest } { m with retained := p.retained } action

/-- One step of a run: heed a request to stop, take a jump that is due, perform a statement. -/
def step (host : Host ω σ) (callee : Frame ω → Machine ω σ → Outcome ω σ) (depth : Nat)
    (f : Frame ω) (m : Machine ω σ) : Step ω σ :=
  if f.mode.observesTermination && m.world.stopping then f.stop m (.failed .terminated)
  else
    match f.takeJump with
    | (f, .before rest) => dispatch host callee depth { f with rest } m
    | (f, .inside text) => .stop ⟨.failed .emptyStatement, Text.byteSize text - 1, m, f.outer⟩

/-- Runs the statements ahead in a frame, in at most the given number of steps. -/
def run (host : Host ω σ) : (steps depth : Nat) → Frame ω → Machine ω σ → Outcome ω σ
  | 0, _, f, m => ⟨.outOfSteps, Text.byteSize f.rest, m, f.outer⟩
  | steps + 1, depth, f, m =>
    match step host (run host steps (depth + 1)) depth f m with
    | .next f m => run host steps depth f m
    | .stop o => o

/-! ## Handlers

The same without the terminator: a handler reads a statement and does what it asks for, and leaves
open whether the run goes on behind the terminator or stops. With it one can say what a statement
changed by the time it failed. That `dispatch` is the handler followed by the terminator is proved
where handlers are used. -/

/-- What the handler of a statement leaves behind. -/
structure Handled (ω σ : Type) where
  frame : Frame ω
  machine : Machine ω σ
  /-- How the run ends here; nothing if the terminator of the statement is due. -/
  ending? : Option Ending

/-- The step of a statement, once it was handled. -/
def Handled.step (h : Handled ω σ) : Step ω σ :=
  match h.ending? with
  | none => h.frame.finishStatement h.machine
  | some ending => h.frame.stop h.machine ending

def handleNames (host : Host ω σ) (sort : Declaration) (f : Frame ω) (m : Machine ω σ) :
    List (List Char × List Char) → Handled ω σ
  | [] => ⟨f, m, none⟩
  | (word, rest) :: more =>
    let f := { f with rest }
    if word = [] then ⟨f, m, some (.failed .emptyStatement)⟩
    else
      match declareName host sort f.toActivation m.world (String.ofList word) with
      | .ok (a, world) => handleNames host sort { f with toActivation := a } { m with world } more
      | .error e => ⟨f, m, some (.failed e)⟩

/-- Does what a statement asks for. -/
def handleAction (host : Host ω σ) (callee : Frame ω → Machine ω σ → Outcome ω σ) (depth : Nat)
    (f : Frame ω) (m : Machine ω σ) : Action → Handled ω σ
  | .pass => ⟨f, m, none⟩
  | .jump j => ⟨{ f with jumps := j :: f.jumps }, m, none⟩
  | .assign name x =>
    let (a, world) := assign host f.toActivation m.world name x
    ⟨{ f with toActivation := a }, { m with world }, none⟩
  | .call name args =>
    match Bindings.call host.bindings name args m.world with
    | .ok (x, world) => ⟨f, { m with world, lastReturn := some x }, none⟩
    | .error e => ⟨f, m, some (.failed (.ofUnknownBinding e))⟩
  | .invoke name body args =>
    match invoke host callee depth m name body args with
    | (.finished, m) => ⟨f, m, none⟩
    | (ending, m) => ⟨f, m, some ending⟩
  | .declare sort names => handleNames host sort f m names
  | .define name body =>
    match checkBody callee f m body with
    | (.finished, m) =>
      ⟨f, if f.mode.performsEffects then { m with functions := m.functions.put name body } else m,
        none⟩
    | (ending, m) => ⟨f, m, some ending⟩
  | .finish none => ⟨f, m, some .finished⟩
  | .finish (some x) => ⟨f, { m with lastReturn := some x }, some .finished⟩

/-- Reads the statement with the keyword `k` and the text `start`, and does what it asks for. The text
ahead of the frame is what follows the keyword. -/
def handle (host : Host ω σ) (callee : Frame ω → Machine ω σ → Outcome ω σ) (depth : Nat)
    (start : List Char) (k : Keyword) (f : Frame ω) (m : Machine ω σ) : Handled ω σ :=
  match Reader.statement (f.view host m) f.mode start k ⟨f.rest, m.retained⟩ with
  | .error e p => ⟨{ f with rest := p.rest }, { m with retained := p.retained }, some (.failed e)⟩
  | .ok a p =>
    handleAction host callee depth { f with rest := p.rest } { m with retained := p.retained } a

end NumScript.Script
