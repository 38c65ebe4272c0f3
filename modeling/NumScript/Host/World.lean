import NumScript.Store.Scope

set_option autoImplicit false

/-! # The world a script runs in

What a script shares with its host: the root scope and the scopes it falls back to, the host's
cells, the request to stop, and a state `σ` of the host's own. A *native* function of the host is a
function on worlds, and so is the host's answer to a notice. The subroutines of the script and its
local variables are not part of the world: the host cannot reach them while a script runs. -/

namespace NumScript

/-- What a script shares with its host. -/
structure World (ω σ : Type) where
  /-- The variables that outlive a run. -/
  root : Scope ω := {}
  /-- The scopes the root falls back to, the nearest first. -/
  parents : Chain ω := []
  cells : Cells := {}
  /-- Whether the running script was asked to stop. -/
  stopping : Bool := false
  /-- Whatever else the host keeps. -/
  state : σ

namespace World

variable {ω σ : Type}

def chain (w : World ω σ) : Chain ω :=
  w.root :: w.parents

def value? (w : World ω σ) (name : String) : Option Float :=
  Chain.value? w.chain w.cells name

/-- A write to the variable a name means at the root, with the notice that is due. -/
def store? (w : World ω σ) (name : String) (x : Float) :
    Option (World ω σ × Option (Notice ω)) :=
  match Scope.store? w.root w.cells name x with
  | some s => some ({ w with root := s.place, cells := s.cells }, s.notice?)
  | none =>
    (Chain.store? w.parents w.cells name x).map fun s =>
      ({ w with parents := s.place, cells := s.cells }, s.notice?)

end World

/-! ## What the host does

Natives and answers to notices are functions on worlds. Whatever the theorems about scripts say of a
host is a hypothesis on these two functions, stated where it is needed. -/

/-- A function of the host: it takes numbers and gives one, and may change the world. -/
abbrev Native (ω σ : Type) := List Float → World ω σ → Float × World ω σ

/-- What the host does when a watcher is told a number. -/
abbrev Notify (ω σ : Type) := ω → Float → World ω σ → World ω σ

/-- Delivers a notice, if one is due. -/
def Notify.deliver {ω σ : Type} (notify : Notify ω σ) (notice? : Option (Notice ω))
    (w : World ω σ) : World ω σ :=
  match notice? with
  | some notice => notify notice.watcher notice.value w
  | none => w

/-- A write at the root, followed by its notice. -/
def World.assign? {ω σ : Type} (notify : Notify ω σ) (w : World ω σ) (name : String) (x : Float) :
    Option (World ω σ) :=
  (w.store? name x).map fun (after, notice?) => notify.deliver notice? after

end NumScript
