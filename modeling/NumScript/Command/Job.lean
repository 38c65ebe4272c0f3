import NumScript.Host.Console
import NumScript.Script.Interpreter

set_option autoImplicit false

/-! # The jobs of the command line

Evaluating an expression, checking a script and running a script on the console, each with its
problem as a diagnostic. -/

namespace NumScript.Command

/-- The value of an expression, or what is wrong with it. -/
def computeExpression (names : Expr.Names) (expr : String) : Except Diagnostic Float :=
  match Expr.evaluate names expr.toList with
  | .ok x => .ok x
  | .error e =>
    let d : Diagnostic := { code := e.code, message := e.message }
    .error (d.withNote ("in expression `" ++ String.ofList (Text.trim expr.toList) ++ "`"))

/-- An interpreter on the console. -/
def interpreter : Script.Interpreter Console.Watcher Console.Lines :=
  .ofWorld { bindings := Console.bindings, notify := Console.notify } Console.world {}

/-- What is wrong with a script, if something is. -/
def checkSource (source : String) : Option Diagnostic :=
  (interpreter.validate source none).2.diagnostic? source

/-- Runs a script on the console, in at most the given number of steps. An empty list of parameters
counts as none given. -/
def runSource (steps : Nat) (source : String) (params : List Float) :
    Script.Ending × Script.Interpreter Console.Watcher Console.Lines :=
  interpreter.evaluate steps source (if params.isEmpty then none else some params)

end NumScript.Command
