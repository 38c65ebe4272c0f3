import NumScript.Host.Bindings

set_option autoImplicit false

/-! # The console as a host

The native functions for scripts run from a command line. The state of this host is the lines
printed so far, the latest first. -/

namespace NumScript.Console

abbrev Lines := List String

abbrev Watcher := Empty

/-- Prints the arguments on one line, and gives their number. -/
def print : Native Watcher Lines :=
  fun args w =>
    (Float.ofNat args.length,
      { w with state := String.intercalate " " (args.map Number.plain) :: w.state })

/-- A fold of the arguments, which without arguments is no number. -/
def reduce (f : Float → Float → Float) : Native Watcher Lines :=
  fun args w =>
    match args with
    | [] => (Number.nan, w)
    | x :: more => (more.foldl f x, w)

def bindings : Bindings Watcher Lines :=
  ⟨[("print", print), ("min", reduce Number.lesser), ("max", reduce Number.greater)]⟩

/-- No watcher is ever told anything. -/
def notify : Notify Watcher Lines :=
  fun watcher => watcher.elim

/-- The world before anything was printed. -/
def world : World Watcher Lines :=
  { state := [] }

end NumScript.Console
