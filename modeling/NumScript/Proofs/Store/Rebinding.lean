import NumScript.Proofs.Store.Nearest

set_option autoImplicit false

/-! # Variables that move into cells

A variable holds its number itself or is bound to a cell of the host. To a script this makes no
difference as long as the cell is the variable's own. Here two worlds are compared that differ in
this only: at some places a variable with a number of its own in the first world is bound, in the
second, to a cell of its kind that holds the same number (`World.Rebound`). The cell at such a place
is its *home*; no other variable is bound to it.

Writes and new variables keep the worlds so related. A write coerces the number to the kind of the
variable in the first world, and to the type of the cell in the second, which is the same
(`Cell.value_store`).

The homes are a function of the place and stay the same throughout: at the end of a run the relation
is between the same variables and the same cells as before it. -/

namespace NumScript

variable {ω σ : Type}

/-! ## One variable

The two coercions are compared once, for a single cell. After this a write is a write: what it does
to the variable and what it does to its home are the same number. -/

/-- A cell coerces a number as its kind says. -/
theorem Cell.value_store (cell : Cell) (x : Float) : (cell.store x).value = cell.kind.coerce x := by
  cases cell <;> rfl

theorem Cell.kind_store (cell : Cell) (x : Float) : (cell.store x).kind = cell.kind := by
  cases cell <;> rfl

namespace Variable

/-- The variable bound to its home, if it has one. -/
def housed (v : Variable ω) : Option String → Variable ω
  | none => v
  | some cell => { v with storage := .bound cell }

theorem readonly_housed (v : Variable ω) (home : Option String) :
    (v.housed home).readonly = v.readonly := by
  cases home <;> rfl

theorem kind_housed (v : Variable ω) (home : Option String) : (v.housed home).kind = v.kind := by
  cases home <;> rfl

/-- A write commutes with the move into a home. -/
theorem store_housed (v : Variable ω) (home : Option String) (cells cells' : Cells) (x : Float) :
    ((v.housed home).store cells' x).1 = (v.store cells x).1.housed home := by
  cases home with
  | none => exact v.store_congr cells' cells x
  | some cell =>
      unfold store housed
      cases v.storage with
      | owned y =>
          dsimp only
          split <;> rfl
      | bound cell' =>
          dsimp only
          split <;> split <;> rfl

/-- A write touches the cell of the variable only. -/
theorem find?_store_of_ne {v : Variable ω} {cell : String} (h : v.cell? ≠ some cell) (cells : Cells)
    (x : Float) : (v.store cells x).2.find? cell = cells.find? cell := by
  unfold cell? at h
  unfold store
  cases hv : v.storage with
  | owned y => rfl
  | bound cell' =>
      rw [hv] at h
      have hne : cell ≠ cell' := fun heq => h (congrArg some heq.symm)
      dsimp only
      split
      · rw [Dict.find?_replace, if_neg hne]
      · rfl

/-- Where two tables of cells agree, they agree after a write to a variable whose cell they agree on.
-/
theorem find?_store_congr {v : Variable ω} {cells cells' : Cells} {cell : String}
    (hv : ∀ c, v.cell? = some c → cells'.find? c = cells.find? c)
    (hcell : cells'.find? cell = cells.find? cell) (x : Float) :
    (v.store cells' x).2.find? cell = (v.store cells x).2.find? cell := by
  unfold cell? at hv
  unfold store
  cases hs : v.storage with
  | owned y => exact hcell
  | bound c =>
      rw [hs] at hv
      dsimp only
      rw [hv c rfl]
      cases hfind : cells.find? c with
      | none => exact hcell
      | some content =>
          dsimp only
          rw [Dict.find?_replace, Dict.find?_replace, hv c rfl, hcell]

end Variable

/-! ## Worlds

Every look-up of a name goes to the same level in both worlds, since the names are the same. At that
level the variable is the same one or one in its home, and by the first part it has the same number
and the same flag. -/

namespace World

/-- The variables at the places with homes have moved there, and nothing else is different. -/
structure Rebound (homes : Nat → String → Option String) (w w' : World ω σ) : Prop where
  names : w'.chain.map Dict.names = w.chain.map Dict.names
  places : ∀ level name,
    w'.variableAt? level name = (w.variableAt? level name).map (·.housed (homes level name))
  /-- A place with a home has a number of its own, which is now in a cell of its kind. -/
  housed : ∀ {level name cell}, homes level name = some cell →
    ∃ v x content, w.variableAt? level name = some v ∧ v.storage = .owned x ∧
      w'.cells.find? cell = some content ∧ content.kind = v.kind ∧ content.value = x
  /-- No variable was bound to a home before. -/
  fresh : ∀ {level name v cell}, w.variableAt? level name = some v → v.cell? = some cell →
    ∀ level' name', homes level' name' ≠ some cell
  /-- Each home belongs to one place. -/
  apart : ∀ {level name level' name' cell}, homes level name = some cell →
    homes level' name' = some cell → level = level' ∧ name = name'
  cells : ∀ {cell}, (∀ level name, homes level name ≠ some cell) →
    w'.cells.find? cell = w.cells.find? cell
  stopping : w'.stopping = w.stopping
  state : w'.state = w.state

namespace Rebound

variable {homes : Nat → String → Option String} {w w' u u' : World ω σ} {level : Nat}
  {name : String} {v : Variable ω}

/-- What is not about variables may change in both worlds. -/
theorem withState (h : w.Rebound homes w') {stopping stopping' : Bool} {state state' : σ}
    (hstopping : stopping' = stopping) (hstate : state' = state) :
    ({ w with stopping, state } : World ω σ).Rebound homes
      { w' with stopping := stopping', state := state' } :=
  ⟨h.names, h.places, h.housed, h.fresh, h.apart, h.cells, hstopping, hstate⟩

/-- A variable holds the same number in its home. -/
theorem value_eq (h : w.Rebound homes w') (hv : w.variableAt? level name = some v) :
    (v.housed (homes level name)).value w'.cells = v.value w.cells := by
  cases hhome : homes level name with
  | some cell =>
      obtain ⟨z, x, content, hz, hstorage, hfind, -, hvalue⟩ := h.housed hhome
      obtain rfl : v = z := Option.some.inj (hv.symm.trans hz)
      unfold Variable.value Variable.housed
      rw [hstorage]
      dsimp only
      rw [hfind]
      exact hvalue
  | none =>
      unfold Variable.value Variable.housed
      cases hstorage : v.storage with
      | owned x => rfl
      | bound cell =>
          have hcell : v.cell? = some cell := by rw [Variable.cell?, hstorage]
          dsimp only
          rw [h.cells (h.fresh hv hcell)]

/-- Names mean variables at the same levels. -/
theorem level?_eq (h : w.Rebound homes w') (name : String) :
    Chain.level? w'.chain name = Chain.level? w.chain name := by
  unfold Chain.level?
  rw [h.names]

theorem find?_eq (h : w.Rebound homes w') (name : String) :
    Chain.find? w'.chain name = (Chain.level? w.chain name).bind fun level =>
      (w.variableAt? level name).map (·.housed (homes level name)) := by
  rw [Chain.find?_eq_variableAt?, h.level?_eq]
  exact congrArg _ (funext fun level => h.places level name)

/-- A name has the same value. -/
theorem value?_eq (h : w.Rebound homes w') (name : String) : w'.value? name = w.value? name := by
  unfold value? Chain.value?
  rw [h.find?_eq, Chain.find?_eq_variableAt?]
  cases hlevel : Chain.level? w.chain name with
  | none => rfl
  | some level =>
      obtain ⟨v, hv⟩ := Chain.exists_variableAt?_of_level? hlevel
      rw [Option.bind_some, Option.bind_some, show w.variableAt? level name = some v from hv, hv]
      exact congrArg some (h.value_eq hv)

/-- A name has the same flag. -/
theorem readonly_eq (h : w.Rebound homes w') (name : String) :
    (Chain.find? w'.chain name).any (·.readonly) = (Chain.find? w.chain name).any (·.readonly) := by
  rw [h.find?_eq, Chain.find?_eq_variableAt?]
  cases hlevel : Chain.level? w.chain name with
  | none => rfl
  | some level =>
      obtain ⟨v, hv⟩ := Chain.exists_variableAt?_of_level? hlevel
      rw [Option.bind_some, Option.bind_some, show w.variableAt? level name = some v from hv, hv]
      exact v.readonly_housed _

theorem root_names (h : w.Rebound homes w') : w'.root.names = w.root.names :=
  (List.cons.inj h.names).1

/-- A variable that has moved is bound to no home but its own. -/
theorem cell?_housed_ne (h : w.Rebound homes w') (hv : w.variableAt? level name = some v)
    {level' : Nat} {name' cell : String} (hhome : homes level' name' = some cell)
    (hne : ¬ (level' = level ∧ name' = name)) :
    (v.housed (homes level name)).cell? ≠ some cell := by
  intro hcell
  cases hown : homes level name with
  | none =>
      rw [hown] at hcell
      exact h.fresh hv hcell level' name' hhome
  | some cell' =>
      rw [hown] at hcell
      obtain rfl : cell' = cell := Option.some.inj hcell
      exact hne (h.apart hhome hown)

/-- Writes to one place keep the worlds related. -/
theorem write {x : Float} (h : w.Rebound homes w') (hu : w.IsWrite u level name v x)
    (hu' : w'.IsWrite u' level name (v.housed (homes level name)) x)
    (hstopping : u'.stopping = u.stopping) (hstate : u'.state = u.state) : u.Rebound homes u' where
  names := by rw [hu'.names, hu.names, h.names]
  places key other := by
    rw [hu'.variableAt?_eq, hu.variableAt?_eq]
    split
    · rename_i hplace
      obtain ⟨rfl, rfl⟩ := hplace
      exact congrArg some (v.store_housed _ w.cells w'.cells x)
    · exact h.places key other
  housed {key other cell} hhome := by
    obtain ⟨z, y, content, hz, hstorage, hfind, hkind, hvalue⟩ := h.housed hhome
    rw [hu.variableAt?_eq, hu'.cells]
    by_cases hplace : key = level ∧ other = name
    · obtain ⟨rfl, rfl⟩ := hplace
      obtain rfl : v = z := Option.some.inj (hu.found.symm.trans hz)
      rw [if_pos ⟨rfl, rfl⟩, hhome]
      refine ⟨_, v.kind.coerce x, content.store x, rfl, ?_, ?_, ?_, ?_⟩
      · rw [Variable.store, hstorage]
      · show ((v.housed (some cell)).store w'.cells x).2.find? cell = _
        unfold Variable.store Variable.housed
        dsimp only
        rw [hfind]
        dsimp only
        rw [Dict.find?_replace, if_pos rfl, hfind, Option.map_some]
      · rw [Cell.kind_store, hkind, Variable.store, hstorage]
      · rw [Cell.value_store, hkind]
    · rw [if_neg hplace, Variable.find?_store_of_ne (h.cell?_housed_ne hu.found hhome hplace)]
      exact ⟨z, y, content, hz, hstorage, hfind, hkind, hvalue⟩
  fresh {key other z cell} hz hcell := by
    -- the shape of the variable is the one from before the write
    have hshape := hu.shape?_eq key other
    rw [shape?, hz] at hshape
    obtain ⟨z', hz', heq⟩ := Option.map_eq_some_iff.1 hshape.symm
    exact h.fresh hz' ((congrArg Shape.cell? heq).trans hcell)
  apart := h.apart
  cells {cell} hcell := by
    rw [hu'.cells, hu.cells]
    cases hhome : homes level name with
    | none =>
        have hown : ∀ c, v.cell? = some c → w'.cells.find? c = w.cells.find? c :=
          fun c hc => h.cells (h.fresh hu.found hc)
        exact Variable.find?_store_congr hown (h.cells hcell) x
    | some home =>
        obtain ⟨z, y, _, hz, hstorage, -⟩ := h.housed hhome
        obtain rfl : v = z := Option.some.inj (hu.found.symm.trans hz)
        have hne : (v.housed (some home)).cell? ≠ some cell := by
          intro heq
          obtain rfl : home = cell := Option.some.inj heq
          exact hcell level name hhome
        rw [Variable.find?_store_of_ne hne,
          Variable.store_of_owned (by rw [Variable.cell?, hstorage]) w.cells x]
        exact h.cells hcell
  stopping := hstopping
  state := hstate

/-- The same notice is due for a variable in its home. -/
theorem notice?_eq (h : w.Rebound homes w') (hv : w.variableAt? level name = some v) :
    (v.housed (homes level name)).notice? w'.cells = v.notice? w.cells := by
  have hwatcher : (v.housed (homes level name)).watcher = v.watcher := by
    cases homes level name <;> rfl
  unfold Variable.notice?
  rw [h.value_eq hv, hwatcher]

/-- A plain variable that is added to the root has no home. -/
theorem add {z : Variable ω} (h : w.Rebound homes w') (hz : z.cell? = none) (name : String) :
    ({ w with root := (w.root.add? name z).getD w.root } : World ω σ).Rebound homes
      { w' with root := (w'.root.add? name z).getD w'.root } := by
  by_cases hname : name ∈ w.root.names
  · rw [Dict.add?_of_mem hname, Dict.add?_of_mem (h.root_names ▸ hname)]
    exact h
  have hadd := Dict.add?_of_not_mem hname z
  have hadd' := Dict.add?_of_not_mem (h.root_names ▸ hname) z
  -- a variable in a home would have the name already
  have hhome : homes 0 name = none := by
    refine Option.eq_none_iff_forall_ne_some.2 fun cell hcell => hname ?_
    obtain ⟨v, _, _, hv, _⟩ := h.housed hcell
    exact Dict.contains_iff_mem_names.1 (Dict.contains_of_find? hv)
  rw [hadd, hadd', Option.getD_some, Option.getD_some]
  exact
    { names := by
        obtain ⟨hroot, hparents⟩ := List.cons.inj h.names
        show Dict.names _ :: _ = Dict.names _ :: _
        rw [hparents]
        unfold Dict.names at hroot ⊢
        rw [List.map_append, List.map_append, hroot]
      places := fun level other => by
        rw [variableAt?_add hadd, variableAt?_add hadd', h.places, Option.map_or]
        split
        · rename_i hplace
          obtain ⟨rfl, rfl⟩ := hplace
          rw [hhome]
          rfl
        · rfl
      -- what has moved was there before
      housed := fun {level other cell} hcell => by
        obtain ⟨v, x, content, hv, hrest⟩ := h.housed hcell
        refine ⟨v, x, content, ?_, hrest⟩
        rw [variableAt?_add hadd, hv, Option.some_or]
      fresh := fun {level other v cell} hv hcell => by
        rw [variableAt?_add hadd] at hv
        cases hold : w.variableAt? level other with
        | some v' =>
            rw [hold, Option.some_or] at hv
            exact h.fresh (hold.trans hv) hcell
        | none =>
            rw [hold, Option.none_or] at hv
            split at hv
            · obtain rfl := Option.some.inj hv
              rw [hz] at hcell
              cases hcell
            · cases hv
      apart := h.apart
      cells := h.cells
      stopping := h.stopping
      state := h.state }

end Rebound

end World

end NumScript
