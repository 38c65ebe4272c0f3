import NumScript.Store.Scope

set_option autoImplicit false

/-! # Forests of scopes

Any number of scopes, each with at most one parent. A scope is known by its number, and a parent is
always older than its children, so the way from a scope through its parents ends. Looking up and
writing follow that way; everything else touches the one scope it names. -/

namespace NumScript

/-- A scope with the number of its parent. -/
structure Node (ω : Type) where
  parent : Option Nat := none
  scope : Scope ω := {}

/-- Numbered scopes with parent links. -/
structure Forest (ω : Type) where
  nodes : List (Node ω) := []

namespace Forest

variable {ω : Type}

/-- How many scopes there are, which is the number of the next one. -/
def size (f : Forest ω) : Nat :=
  f.nodes.length

/-- A new empty scope without a parent or with one. -/
def grow (f : Forest ω) (parent : Option Nat) : Forest ω :=
  ⟨f.nodes ++ [{ parent := parent }]⟩

def parent? (f : Forest ω) (i : Nat) : Option Nat :=
  f.nodes[i]?.bind (·.parent)

def scope (f : Forest ω) (i : Nat) : Scope ω :=
  (f.nodes[i]?.map (·.scope)).getD {}

/-- Another content for one scope; its parent link stays. -/
def setScope (f : Forest ω) (i : Nat) (s : Scope ω) : Forest ω :=
  ⟨f.nodes.modify i fun node => { node with scope := s }⟩

/-! ## Paths

Look-ups are defined on the list of scopes that a path passes, not by recursion over the forest, so
that what is known of chains can be used at once. -/

/-- The numbers of a scope and of those it falls back to. -/
def path (f : Forest ω) (i : Nat) : List Nat :=
  match f.parent? i with
  | some p => if p < i then i :: f.path p else [i]
  | none => [i]

/-- A scope and those it falls back to. -/
def chain (f : Forest ω) (i : Nat) : Chain ω :=
  (f.path i).map f.scope

/-! ## Changes of one scope

None of these looks at another scope than the one it names. A name that is taken further up may be
added, and hides the other from then on. -/

/-- A new name in a scope; nothing if the name is taken there. -/
def add? (f : Forest ω) (i : Nat) (name : String) (v : Variable ω) : Option (Forest ω) :=
  ((f.scope i).add? name v).map (f.setScope i)

def erase (f : Forest ω) (i : Nat) (name : String) : Forest ω :=
  f.setScope i ((f.scope i).erase name)

def rename? (f : Forest ω) (i : Nat) (old new : String) : Option (Forest ω) :=
  ((f.scope i).rename? old new).map (f.setScope i)

def clear (f : Forest ω) (i : Nat) : Forest ω :=
  f.setScope i {}

/-- The number of the scope in which a name is found, from a scope on. -/
def home? (f : Forest ω) (i : Nat) (name : String) : Option Nat :=
  (f.path i).find? fun j => (f.scope j).contains name

/-- A write to the variable a name means, from a scope on. -/
def store? (f : Forest ω) (cells : Cells) (i : Nat) (name : String) (x : Float) :
    Option (Written (Forest ω) ω) := do
  let j ← f.home? i name
  let w ← Scope.store? (f.scope j) cells name x
  return ⟨f.setScope j w.place, w.cells, w.notice?⟩

end Forest

/-! ## Operations

What a host can do to scopes, as data, with the answers that it gets. A scope is named by its number
throughout. An operation that may fail leaves everything as it is where it does. -/

/-- What can be done to the variables of one scope. -/
inductive Edit (ω : Type) where
  | add (name : String) (v : Variable ω)
  | declare (name : String)
  | delete (name : String)
  | remove (name : String)
  | rename (old new : String)
  | clear

/-- What can be done to scopes. -/
inductive Operation (ω : Type) where
  | new
  | child (parent : Nat)
  | edit (i : Nat) (e : Edit ω)
  | assign (i : Nat) (name : String) (x : Float)

/-- What an operation answers: the number of the new scope, whether it succeeded, the variable that
was removed, the notice that is due after a write, or the failure of a write. -/
inductive Answer (ω : Type) where
  | scope (i : Nat)
  | success (b : Bool)
  | removed (v? : Option (Variable ω))
  | cleared
  | assigned (notice? : Option (Notice ω))
  | unknown (e : UnknownVariable)

namespace Forest

variable {ω : Type}

/-- A change that may fail. -/
def attempt (f : Forest ω) (changed? : Option (Forest ω)) : Answer ω × Forest ω :=
  (.success changed?.isSome, changed?.getD f)

def edit (f : Forest ω) (i : Nat) : Edit ω → Answer ω × Forest ω
  | .add name v => f.attempt (f.add? i name v)
  | .declare name => f.attempt (f.add? i name (.zero .number))
  | .delete name => (.success ((f.scope i).contains name), f.erase i name)
  | .remove name => (.removed ((f.scope i).find? name), f.erase i name)
  | .rename old new => f.attempt (f.rename? i old new)
  | .clear => (.cleared, f.clear i)

/-- An operation on scopes and on the cells that their variables are bound to. -/
def perform (f : Forest ω) (cells : Cells) : Operation ω → Answer ω × Forest ω × Cells
  | .new => (.scope f.size, f.grow none, cells)
  | .child parent => (.scope f.size, f.grow (some parent), cells)
  | .edit i e => ((f.edit i e).1, (f.edit i e).2, cells)
  | .assign i name x =>
    match f.store? cells i name x with
    | some w => (.assigned w.notice?, w.place, w.cells)
    | none => (.unknown ⟨name⟩, f, cells)

/-- Operations, one after the other. -/
def performAll (f : Forest ω) (cells : Cells) :
    List (Operation ω) → List (Answer ω) × Forest ω × Cells
  | [] => ([], f, cells)
  | op :: more =>
    let (answer, after) := f.perform cells op
    let (answers, last) := after.1.performAll after.2 more
    (answer :: answers, last)

end Forest

end NumScript
