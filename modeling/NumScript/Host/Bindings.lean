import NumScript.Host.World
import NumScript.Text.Quoted

set_option autoImplicit false

/-! # Bindings

The native functions a script may call, by name. The table has no order of its own: wherever its
names are shown they are sorted. -/

namespace NumScript

abbrev Bindings (ω σ : Type) := Dict (Native ω σ)

structure UnknownBinding where
  name : String
  deriving DecidableEq

def UnknownBinding.message (e : UnknownBinding) : String :=
  "no native binding named `" ++ e.name ++ "`"

namespace Bindings

variable {ω σ : Type}

/-- A new function; nothing if the name is empty or taken. -/
def bind? (b : Bindings ω σ) (name : String) (f : Native ω σ) : Option (Bindings ω σ) :=
  if name.isEmpty then none else Dict.add? b name f

/-- Another function for a name; nothing if the name is not bound. -/
def rebind? (b : Bindings ω σ) (name : String) (f : Native ω σ) : Option (Bindings ω σ) :=
  if Dict.contains b name then some (Dict.replace b name f) else none

def call (b : Bindings ω σ) (name : String) (args : List Float) (w : World ω σ) :
    Except UnknownBinding (Float × World ω σ) :=
  match Dict.find? b name with
  | some f => .ok (f args w)
  | none => .error ⟨name⟩

/-- The names, for inspection. -/
def inspect (b : Bindings ω σ) : String :=
  "\x7b" ++ String.intercalate ", " ((Dict.sortedNames b).map Text.quote) ++ "\x7d"

end Bindings

end NumScript
