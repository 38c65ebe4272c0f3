import NumScript.Host.Bindings

set_option autoImplicit false

/-! # A host that records

A host that writes down which of its functions were called and what its watchers were told, in
order. Its watchers have a tag and may also look at another variable at that moment. A handful of
simple native functions goes with it. -/

namespace NumScript.Recorder

/-- A watcher with a tag, and the variable it looks at when it is told a number. -/
structure Watcher where
  tag : String
  looksAt : Option String := none

/-- What was recorded. -/
inductive Event where
  | called (name : String) (args : List Float)
  /-- A watcher was told a number. If it looks at a variable, what it saw is recorded too. -/
  | changed (tag : String) (x : Float) (seen : Option (Option Float))

abbrev Record := List Event

/-- What a watcher records, where `see` gives the values of variables. -/
def Watcher.event (watcher : Watcher) (x : Float) (see : String → Option Float) : Event :=
  .changed watcher.tag x (watcher.looksAt.map see)

abbrev RecordedWorld := World Watcher Record

/-- The world with one more event recorded. -/
def note (w : RecordedWorld) (event : Event) : RecordedWorld :=
  { w with state := event :: w.state }

/-- Watchers record what they are told, and see what is visible at the root. -/
def notify : Notify Watcher Record :=
  fun watcher x w => note w (watcher.event x w.value?)

inductive Stock where
  | sum
  | count
  | first
  | last
  | const (x : Float)
  /-- The value of a variable at the root. -/
  | get (name : String)
  /-- Writes the first argument to a variable at the root, and says whether it was there. -/
  | set (name : String)
  /-- Asks the script to stop. -/
  | terminate

/-- What a simple native function does. -/
def Stock.apply (f : Stock) (args : List Float) (w : RecordedWorld) : Float × RecordedWorld :=
  match f with
  | sum => (args.foldl (· + ·) 0.0, w)
  | count => (Float.ofNat args.length, w)
  | first => (args.head?.getD Number.nan, w)
  | last => (args.getLast?.getD Number.nan, w)
  | const x => (x, w)
  | get name => ((w.value? name).getD Number.nan, w)
  | set name =>
    match w.assign? notify name (args.head?.getD 0.0) with
    | some w => (1.0, w)
    | none => (0.0, w)
  | terminate => (Float.ofNat args.length, { w with stopping := true })

/-- A simple native function that records its calls under a name. -/
def Stock.native (f : Stock) (name : String) : Native Watcher Record :=
  fun args w => f.apply args (note w (.called name args))

end NumScript.Recorder
