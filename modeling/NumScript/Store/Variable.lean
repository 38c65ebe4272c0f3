import NumScript.Number.Written
import NumScript.Store.Dict

set_option autoImplicit false

/-! # Variables and host cells

A variable holds a number of one of three kinds, fixed when it is made. Every number written to it
is first coerced to the kind: a boolean keeps only whether it is zero, an integer becomes the
nearest 32-bit integer towards zero. The number lives in the variable itself or in a *cell* of the
host, which several variables may share; then a write by one is seen by all, and by the host.

A variable may have a *watcher*, which is owed a notice after each write. What a watcher is belongs
to the host, so its type `ω` is a parameter throughout. -/

namespace NumScript

/-- The kinds of variables. -/
inductive Kind where
  | boolean
  | integer
  | number
  deriving DecidableEq

def Kind.name : Kind → String
  | .boolean => "Boolean"
  | .integer => "Integer"
  | .number => "Number"

/-- A number coerced to a kind. -/
def Kind.coerce (kind : Kind) (x : Float) : Float :=
  match kind with
  | .boolean => Number.ofBool (Number.isTrue x)
  | .integer => Number.ofInt32 (Number.toInt32 x)
  | .number => x

/-- A value that belongs to the host. -/
inductive Cell where
  | boolean (b : Bool)
  | integer (i : Int32)
  | number (x : Float)

namespace Cell

/-- The kind of the variables that can be bound to a cell. -/
def kind : Cell → Kind
  | boolean _ => .boolean
  | integer _ => .integer
  | number _ => .number

/-! ## Reading and writing

There are four ways to read a variable: as a number, as an integer, as a truth value and as text.
They differ in nothing but the last conversion. -/

/-- The content of a cell as a number. -/
def value : Cell → Float
  | boolean b => Number.ofBool b
  | integer i => Number.ofInt32 i
  | number x => x

/-- The cell after a number was written to it. -/
def store (cell : Cell) (x : Float) : Cell :=
  match cell with
  | boolean _ => boolean (Number.isTrue x)
  | integer _ => integer (Number.toInt32 x)
  | number _ => number x

/-- The content of a cell for inspection. -/
def inspect : Cell → String
  | boolean b => "HostCell(" ++ toString b ++ ")"
  | integer i => "HostCell(" ++ toString i.toInt ++ ")"
  | number x => "HostCell(" ++ Number.precise x ++ ")"

end Cell

/-- The cells of the host, by name. -/
abbrev Cells := Dict Cell

/-! ## Variables

A bound variable holds no number of its own. Reading it reads the cell and writing it writes the
cell, through the coercion of the kind, which is fixed when the variable is bound. -/

/-- Where the number of a variable lives. -/
inductive Storage where
  | owned (x : Float)
  | bound (cell : String)
  deriving DecidableEq

/-- A variable, with watchers of type `ω`. Only scripts respect the read-only flag; the host may
write all the same. -/
structure Variable (ω : Type) where
  kind : Kind := .number
  storage : Storage := .owned 0.0
  readonly : Bool := false
  watcher : Option ω := none

/-- A number that a watcher has to be told. -/
structure Notice (ω : Type) where
  watcher : ω
  value : Float

namespace Variable

variable {ω : Type}

/-- A variable of a kind that holds zero. -/
def zero (kind : Kind) : Variable ω :=
  { kind := kind }

def ofNumber (x : Float) : Variable ω :=
  { storage := .owned x }

def ofInteger (i : Int32) : Variable ω :=
  { kind := .integer, storage := .owned (Number.ofInt32 i) }

def ofBoolean (b : Bool) : Variable ω :=
  { kind := .boolean, storage := .owned (Number.ofBool b) }

/-- A variable bound to a cell, of the cell's kind; nothing if there is no such cell. -/
def ofCell? (cells : Cells) (name : String) : Option (Variable ω) :=
  (cells.find? name).map fun cell => { kind := cell.kind, storage := .bound name }

def isBound (v : Variable ω) : Bool :=
  match v.storage with
  | .owned _ => false
  | .bound _ => true

/-- The number a variable holds. -/
def value (v : Variable ω) (cells : Cells) : Float :=
  match v.storage with
  | .owned x => x
  | .bound name => ((cells.find? name).map Cell.value).getD 0.0

def toInt (v : Variable ω) (cells : Cells) : Int32 :=
  Number.toInt32 (v.value cells)

def toBool (v : Variable ω) (cells : Cells) : Bool :=
  Number.isTrue (v.value cells)

/-- The number written in the way of the variable's kind. -/
def render (v : Variable ω) (cells : Cells) : String :=
  match v.kind with
  | .boolean => toString (v.toBool cells)
  | .integer => toString (v.toInt cells).toInt
  | .number => Number.plain (v.value cells)

/-- The variable and the cells after a number was written. -/
def store (v : Variable ω) (cells : Cells) (x : Float) : Variable ω × Cells :=
  match v.storage with
  | .owned _ => ({ v with storage := .owned (v.kind.coerce x) }, cells)
  | .bound name =>
    match cells.find? name with
    | some cell => (v, cells.replace name (cell.store x))
    | none => (v, cells)

/-- The notice that is due after a write, when there is a watcher. -/
def notice? (v : Variable ω) (cells : Cells) : Option (Notice ω) :=
  v.watcher.map fun watcher => ⟨watcher, v.value cells⟩

/-- The variable with all its flags, for inspection. -/
def inspect (v : Variable ω) (cells : Cells) : String :=
  "Variable \x7b kind: " ++ v.kind.name ++ ", value: " ++ Number.precise (v.value cells) ++
    ", bound: " ++ toString v.isBound ++ ", readonly: " ++ toString v.readonly ++
    ", callback: " ++ toString v.watcher.isSome ++ " \x7d"

end Variable

end NumScript
