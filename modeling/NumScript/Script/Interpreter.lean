import NumScript.Diagnostic.Basic
import NumScript.Script.Minify
import NumScript.Script.Run

set_option autoImplicit false

/-! # The interpreter

What a host holds on to between runs: its own offers, the world, the subroutines defined so far, and
how the last run went. Each run gets a fresh scope for its local variables, which vanish with it;
what a script exports stays at the root.

## Where its properties are found

The statements about interpreters are in the modules on scripts, each after the theory that it
needs:

* what a script means: `Structured` for runs and `Checker` for checks, both over the trees of
  `Program`;
* what a check achieves: `Validation`, `Soundness`, `Verdict` and `Nesting`;
* what a run can do to the world: `Changes`, and with it `Growth`, `Guarded` and `Exporting`;
* whether it ends, and how: `Progress`, `Halting`, `Depth`, `Requests` and `Finishing`;
* what makes no difference to it: `Residue`, `Rebound`, `Minified` and `Comments`;
* where the cursor is: `Boundaries`, `Bytewise` and `Delimiters`.
-/

namespace NumScript.Script

variable {ω σ : Type}

/-- A host's interpreter. -/
structure Interpreter (ω σ : Type) where
  host : Host ω σ
  machine : Machine ω σ
  lastError : Option Error := none
  /-- The byte offset at which the last run stopped. -/
  lastPosition : Nat := 0

namespace Interpreter

def ofWorld (host : Host ω σ) (world : World ω σ) (functions : Functions) : Interpreter ω σ :=
  { host, machine := { world, functions } }

/-! ## Runs and checks

A run and a check differ in the mode, in the chain that names are looked up in, and in what they
forget: a request to stop is dropped by a run only. Both end in `conclude`, which keeps the place at
which they stopped and their error. -/

/-- The interpreter after a run over a text of which `left` bytes were not reached. -/
def conclude (i : Interpreter ω σ) (text : List Char) (ending : Ending) (left : Nat)
    (machine : Machine ω σ) : Ending × Interpreter ω σ :=
  (ending,
    { i with machine, lastError := ending.error?, lastPosition := Text.byteSize text - left })

/-- Runs a script, in at most the given number of steps. The parameters are for its `pop`
statements. Earlier results and requests to stop are forgotten first. -/
def evaluate (i : Interpreter ω σ) (steps : Nat) (script : String) (params : Option (List Float)) :
    Ending × Interpreter ω σ :=
  let text := script.toList
  let machine : Machine ω σ :=
    { i.machine with world := { i.machine.world with stopping := false }, lastReturn := none }
  let o := enter (run i.host steps 0) { rest := text, params } machine
  i.conclude text o.ending o.left o.machine

/-- How a check of a text against the names of a chain goes, by default those of the root. A step of
a check takes at least one character off the text, so the length of the text bounds their number. -/
def check (i : Interpreter ω σ) (text : List Char) (chain : Option (Chain ω)) : Outcome ω σ :=
  enter (run i.host (text.length + 1) 0) { rest := text, mode := .validate, outer := chain }
    { i.machine with lastReturn := none }

def validate (i : Interpreter ω σ) (script : String) (chain : Option (Chain ω)) :
    Ending × Interpreter ω σ :=
  let o := i.check script.toList chain
  i.conclude script.toList o.ending o.left o.machine

/-- Asks the running script to stop. -/
def terminate (i : Interpreter ω σ) : Interpreter ω σ :=
  { i with machine := { i.machine with world := { i.machine.world with stopping := true } } }

/-- Minifies the body of every subroutine. -/
def minifyFunctions (i : Interpreter ω σ) : Interpreter ω σ :=
  let minified (entry : String × String) : String × String :=
    (entry.1, String.ofList (minify entry.2.toList))
  { i with
    machine := { i.machine with functions := ⟨i.machine.functions.entries.map minified⟩ } }

/-! ## Reports

The last error with its place in the script, as a diagnostic. -/

/-- The line of a text at which the last run stopped. -/
def line (i : Interpreter ω σ) (script : String) : UInt32 :=
  lineOfOffset script.toList i.lastPosition

end Interpreter

def Error.diagnostic (e : Error) (script : String) (position : Nat) : Diagnostic :=
  let d : Diagnostic := { code := e.code, message := e.message }
  let d := d.withOffset script.toList position
  match e.cause? with
  | some cause => d.withNote (cause.message ++ " [" ++ cause.code.text ++ "]")
  | none => d

/-- The error of the last run for reporting, if there was one. -/
def Interpreter.diagnostic? (i : Interpreter ω σ) (script : String) : Option Diagnostic :=
  i.lastError.map fun e => e.diagnostic script i.lastPosition

end NumScript.Script
