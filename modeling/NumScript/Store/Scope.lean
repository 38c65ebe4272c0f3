import NumScript.Store.Variable

set_option autoImplicit false

/-! # Scopes and chains of scopes

A scope holds variables by name. A chain is a list of scopes, the innermost first: a name means the
variable in the first scope that has it, for reading and for writing alike. Adding, removing and
renaming touch one scope only and never look further. -/

namespace NumScript

/-- Variables by name, in insertion order. -/
abbrev Scope (ω : Type) := Dict (Variable ω)

/-- Scopes, the innermost first. -/
abbrev Chain (ω : Type) := List (Scope ω)

structure UnknownVariable where
  name : String
  deriving DecidableEq

def UnknownVariable.message (e : UnknownVariable) : String :=
  "variable `" ++ e.name ++ "` is not defined in any enclosing scope"

/-- What a write leaves behind: the place it was made in, the cells, and the notice that is due. -/
structure Written (α ω : Type) where
  place : α
  cells : Cells
  notice? : Option (Notice ω)

namespace Scope

variable {ω : Type}

/-- A new number variable that holds zero. A name that is taken stays as it is. -/
def declare (s : Scope ω) (name : String) : Scope ω :=
  (s.add? name (Variable.zero .number)).getD s

/-- A write to a variable of this scope. -/
def store? (s : Scope ω) (cells : Cells) (name : String) (x : Float) :
    Option (Written (Scope ω) ω) :=
  (s.find? name).map fun v =>
    let after := v.store cells x
    ⟨s.replace name after.1, after.2, after.1.notice? after.2⟩

end Scope

namespace Chain

variable {ω : Type}

/-! ## Chains

Every look-up, and the write, goes by the same rule: the first scope with the name decides. None of
them falls through to a later scope because of what was found in an earlier one. -/

def find? (chain : Chain ω) (name : String) : Option (Variable ω) :=
  chain.findSome? fun s => Dict.find? s name

def contains (chain : Chain ω) (name : String) : Bool :=
  chain.any fun s => Dict.contains s name

def value? (chain : Chain ω) (cells : Cells) (name : String) : Option Float :=
  (find? chain name).map fun v => v.value cells

/-- A write to the variable a name means. -/
def store? (chain : Chain ω) (cells : Cells) (name : String) (x : Float) :
    Option (Written (Chain ω) ω) :=
  match chain with
  | [] => none
  | s :: outer =>
    match Scope.store? s cells name x with
    | some w => some ⟨w.place :: outer, w.cells, w.notice?⟩
    | none => (store? outer cells name x).map fun w => ⟨s :: w.place, w.cells, w.notice?⟩

end Chain

end NumScript
