import NumScript.Proofs.Store.Rebinding
import NumScript.Script.Run
import NumScript.Store.Forest

set_option autoImplicit false

/-! # Reading and writing come to the same variable

All look-ups of a name come to the variable in the first scope of the chain that has it
(`Chain.Finds`), and so does a write. After the write the name means the number that was written,
coerced to the kind of the variable, and the watcher of the variable is told this number once. In all
scopes, also in those that the chain does not pass, every other variable stays as it was, and it has
the number that it had, unless it is bound to the same cell (`AssignedAt`). Where no scope of the
chain has the name every look-up fails, and nothing is written (`assignments_come_to_nearest`).

Several variables may be bound to one cell. A cell that a variable is bound to was there when the
variable was made, and it has the kind of the variable (`Variable.Fits`). A write keeps this.

The statement is made three times, for a forest, for a world and for an activation, because names
are looked up in three ways by the host and by scripts. All three are chains in the end, and the
part about chains is proved once.
-/

namespace NumScript

variable {ω σ : Type}

/-! ## Variables and their cells

A bound variable reads its cell with its own kind, and a write stores with the kind of the cell. The
two agree because a variable takes its kind from the cell that it is bound to (`Variable.ofCell?`)
and a cell never changes its kind. -/

namespace Variable

/-- The cell that a variable is bound to is there, and it has the variable's kind. -/
def Fits (v : Variable ω) (cells : Cells) : Prop :=
  ∀ cell, v.cell? = some cell → ∃ content, cells.find? cell = some content ∧ content.kind = v.kind

def Shares (u v : Variable ω) : Prop :=
  ∃ cell, u.cell? = some cell ∧ v.cell? = some cell

theorem cell?_eq_some {v : Variable ω} {cell : String} (h : v.cell? = some cell) :
    v.storage = .bound cell := by
  unfold cell? at h
  split at h
  · cases h
  · rename_i c hc
    rw [hc, Option.some.inj h]

/-- A variable that is made for a cell fits. -/
theorem fits_of_ofCell? {cells : Cells} {name : String} {v : Variable ω}
    (h : ofCell? cells name = some v) : v.Fits cells := by
  obtain ⟨content, hcontent, rfl⟩ := Option.map_eq_some_iff.1 h
  intro cell hcell
  obtain rfl : name = cell := Option.some.inj hcell
  exact ⟨content, hcontent, rfl⟩

/-- A write to a variable changes the content of its cell, but not the kind. -/
theorem find?_store {v : Variable ω} {cell : String} {content : Cell} {cells : Cells}
    (hcell : v.cell? = some cell) (hcontent : cells.find? cell = some content) (x : Float) :
    (v.store cells x).2.find? cell = some (content.store x) := by
  unfold store
  rw [cell?_eq_some hcell]
  dsimp only
  rw [hcontent]
  dsimp only
  rw [Dict.find?_replace, if_pos rfl, hcontent]
  rfl

theorem names_cells_store (v : Variable ω) (cells : Cells) (x : Float) :
    (v.store cells x).2.names = cells.names := by
  unfold store
  split
  · rfl
  · split
    · exact Dict.names_replace ..
    · rfl

/-- A variable that is bound to the cell of the one that is written has the same number then. -/
theorem value_store_of_shares {u v : Variable ω} {cells : Cells} (hv : v.Fits cells)
    (h : u.Shares v) (x : Float) : u.value (v.store cells x).2 = v.kind.coerce x := by
  obtain ⟨cell, hu, hcell⟩ := h
  obtain ⟨content, hcontent, hkind⟩ := hv cell hcell
  unfold value
  rw [cell?_eq_some hu]
  dsimp only
  rw [find?_store hcell hcontent, Option.map_some, Option.getD_some, Cell.value_store, hkind]

/-- A variable has the number that was written to it, coerced to its kind. -/
theorem value_store {v : Variable ω} {cells : Cells} (hv : v.Fits cells) (x : Float) :
    (v.store cells x).1.value (v.store cells x).2 = v.kind.coerce x := by
  cases hcell : v.cell? with
  | none =>
      unfold cell? at hcell
      split at hcell
      · rename_i y hy
        simp only [store, value, hy]
      · cases hcell
  | some cell =>
      have hshape := congrArg Shape.cell? (v.shape_store cells x)
      exact value_store_of_shares hv ⟨cell, hshape.trans hcell, hcell⟩ x

/-- The watcher is owed a notice of this number. -/
theorem notice?_store {v : Variable ω} {cells : Cells} (hv : v.Fits cells) (x : Float) :
    (v.store cells x).1.notice? (v.store cells x).2 =
      v.watcher.map fun watcher => ⟨watcher, v.kind.coerce x⟩ := by
  rw [notice?, value_store hv]
  exact congrArg (Option.map _) (congrArg Shape.watcher (v.shape_store cells x))

theorem Fits.store {u : Variable ω} {cells : Cells} (hu : u.Fits cells) (v : Variable ω) (x : Float) :
    u.Fits (v.store cells x).2 := by
  intro cell hcell
  obtain ⟨content, hcontent, hkind⟩ := hu cell hcell
  by_cases hv : v.cell? = some cell
  · exact ⟨content.store x, find?_store hv hcontent x, (content.kind_store x).trans hkind⟩
  · exact ⟨content, (find?_store_of_ne hv cells x).trans hcontent, hkind⟩

theorem Fits.of_shape {u v : Variable ω} {cells : Cells} (hu : u.Fits cells)
    (h : v.shape = u.shape) : v.Fits cells := by
  intro cell hcell
  obtain ⟨content, hcontent, hkind⟩ := hu cell ((congrArg Shape.cell? h).symm.trans hcell)
  exact ⟨content, hcontent, hkind.trans (congrArg Shape.kind h).symm⟩

end Variable

/-! ## What a write changes

Said of a family of scopes, numbered in any way, so that it covers the scopes of a forest and the
two fields of a world alike. What is not bound to the cell that was written keeps its number; what
is bound to it has the new one, coerced to its own kind. -/

/-- All variables of these scopes fit the cells. -/
def FitAll (scopes : Nat → Scope ω) (cells : Cells) : Prop :=
  ∀ key name v, (scopes key).find? name = some v → v.Fits cells

/-- The number `x` was written to the variable `v`, which has this name in the scope `home`. The
scopes are told apart by numbers. -/
structure AssignedAt (before after : Nat → Scope ω) (cells cells' : Cells) (home : Nat)
    (name : String) (v : Variable ω) (x : Float) : Prop where
  found : (before home).find? name = some v
  names : ∀ key, (after key).names = (before key).names
  shapes : ∀ key other,
    ((after key).find? other).map Variable.shape = ((before key).find? other).map Variable.shape
  others : ∀ key other, ¬ (key = home ∧ other = name) →
    (after key).find? other = (before key).find? other
  /-- The variable and those that share its cell have the coerced number. -/
  values : ∀ key other u u', (before key).find? other = some u →
    (after key).find? other = some u' → (key = home ∧ other = name) ∨ u.Shares v →
    u'.value cells' = v.kind.coerce x
  otherValues : ∀ key other u u', (before key).find? other = some u →
    (after key).find? other = some u' → ¬ ((key = home ∧ other = name) ∨ u.Shares v) →
    u'.value cells' = u.value cells
  cellNames : cells'.names = cells.names
  otherCells : ∀ cell, v.cell? ≠ some cell → cells'.find? cell = cells.find? cell
  fits : FitAll after cells'

section

variable {before after : Nat → Scope ω} {home : Nat} {name : String} {v v' : Variable ω}

/-- Another variable for a name in one scope. -/
theorem find?_of_replaced (hfound : (before home).find? name = some v)
    (hhome : after home = (before home).replace name v')
    (hafter : ∀ key, key ≠ home → after key = before key) (key : Nat) (other : String) :
    (after key).find? other =
      if key = home ∧ other = name then some v' else (before key).find? other := by
  by_cases hkey : key = home
  · subst hkey
    rw [hhome, Dict.find?_replace, hfound]
    simp
  · rw [hafter key hkey, if_neg fun hat => hkey hat.1]

/-- Writing to a variable and putting it back in its place. -/
theorem assignedAt_store {cells : Cells} {x : Float} (hfits : FitAll before cells)
    (hfound : (before home).find? name = some v)
    (hhome : after home = (before home).replace name (v.store cells x).1)
    (hafter : ∀ key, key ≠ home → after key = before key) :
    AssignedAt before after cells (v.store cells x).2 home name v x := by
  have hv : v.Fits cells := hfits home name v hfound
  have hfind := find?_of_replaced hfound hhome hafter
  have hshapes (key : Nat) (other : String) : ((after key).find? other).map Variable.shape =
      ((before key).find? other).map Variable.shape := by
    rw [hfind]
    split
    · rename_i hat
      rw [hat.1, hat.2, hfound]
      exact congrArg some (v.shape_store cells x)
    · rfl
  -- a variable after the write is the one that was written, or it is the one from before
  have hcases {key : Nat} {other : String} {u u' : Variable ω}
      (hu : (before key).find? other = some u) (hu' : (after key).find? other = some u') :
      (key = home ∧ other = name) ∧ u' = (v.store cells x).1 ∨
        ¬ (key = home ∧ other = name) ∧ u' = u := by
    rw [hfind] at hu'
    split at hu'
    · rename_i hat
      exact .inl ⟨hat, (Option.some.inj hu').symm⟩
    · rename_i hat
      exact .inr ⟨hat, Option.some.inj (hu'.symm.trans hu)⟩
  refine
    { found := hfound
      names := fun key => ?names
      shapes := hshapes
      others := fun key other hat => (hfind key other).trans (if_neg hat)
      values := fun key other u u' hu hu' hor => ?values
      otherValues := fun key other u u' hu hu' hnor => ?otherValues
      cellNames := v.names_cells_store cells x
      otherCells := fun cell hcell => Variable.find?_store_of_ne hcell cells x
      fits := fun key other u' hu' => ?fits }
  case names =>
    by_cases hkey : key = home
    · rw [hkey, hhome, Dict.names_replace]
    · rw [hafter key hkey]
  case values =>
    rcases hcases hu hu' with ⟨_, rfl⟩ | ⟨hat, rfl⟩
    · exact Variable.value_store hv x
    · exact Variable.value_store_of_shares hv (hor.resolve_left hat) x
  case otherValues =>
    rcases hcases hu hu' with ⟨hat, _⟩ | ⟨_, rfl⟩
    · exact absurd (.inl hat) hnor
    · exact Variable.value_store_of_ne (fun cell hc hv => hnor (.inr ⟨cell, hc, hv⟩)) cells x
  case fits =>
    have hshape := hshapes key other
    rw [hu'] at hshape
    obtain ⟨u, hu, heq⟩ := Option.map_eq_some_iff.1 hshape.symm
    exact ((hfits key other u hu).of_shape heq.symm).store v x

end

/-! ## What a name means

Each look-up of a chain is turned into one at the level of the name, so that they agree because the
level is the same. -/

namespace Chain

/-- All look-ups of a name come to the variable `v` at this level, and no scope before has the
name. -/
structure Finds (chain : Chain ω) (cells : Cells) (name : String) (level : Nat) (v : Variable ω) :
    Prop where
  variableAt : variableAt? chain level name = some v
  first : ∀ inner, inner < level → variableAt? chain inner name = none
  contains : contains chain name = true
  find : find? chain name = some v
  value : value? chain cells name = some (v.value cells)

/-- No scope has the name, and all look-ups fail. -/
structure Lacks (chain : Chain ω) (cells : Cells) (name : String) : Prop where
  variableAt : ∀ level, variableAt? chain level name = none
  contains : contains chain name = false
  find : find? chain name = none
  value : value? chain cells name = none

variable {chain : Chain ω} {name : String}

theorem contains_eq_isSome_level? (chain : Chain ω) (name : String) :
    contains chain name = (level? chain name).isSome := by
  induction chain with
  | nil => rfl
  | cons s outer ih =>
      unfold contains at ih ⊢
      rw [List.any_cons, ih, level?_cons]
      cases hs : s.contains name with
      | true => rfl
      | false => simp

/-- No scope before the level of a name has it. -/
theorem variableAt?_of_lt_level? {level inner : Nat} (h : level? chain name = some level)
    (hlt : inner < level) : variableAt? chain inner name = none := by
  induction chain generalizing level inner with
  | nil => cases h
  | cons s outer ih =>
      rw [level?_cons] at h
      split at h
      · cases h
        exact absurd hlt inner.not_lt_zero
      · rename_i hs
        obtain ⟨next, hnext, rfl⟩ := Option.map_eq_some_iff.1 h
        cases inner with
        | zero => exact Dict.find?_eq_none_of_not_contains hs
        | succ inner => exact ih hnext (Nat.lt_of_succ_lt_succ hlt)

theorem variableAt?_of_level?_eq_none (h : level? chain name = none) (level : Nat) :
    variableAt? chain level name = none := by
  induction chain generalizing level with
  | nil => rfl
  | cons s outer ih =>
      rw [level?_cons] at h
      split at h
      · cases h
      · rename_i hs
        cases level with
        | zero => exact Dict.find?_eq_none_of_not_contains hs
        | succ level => exact ih (Option.map_eq_none_iff.1 h) level

theorem finds_of_level? {level : Nat} {v : Variable ω} (h : level? chain name = some level)
    (hv : variableAt? chain level name = some v) (cells : Cells) : Finds chain cells name level v where
  variableAt := hv
  first _ hlt := variableAt?_of_lt_level? h hlt
  contains := by rw [contains_eq_isSome_level?, h]; rfl
  find := by rw [find?_eq_variableAt?, h]; exact hv
  value := by rw [value?, find?_eq_variableAt?, h, Option.bind_some, hv]; rfl

theorem lacks_of_level? (h : level? chain name = none) (cells : Cells) : Lacks chain cells name where
  variableAt := variableAt?_of_level?_eq_none h
  contains := by rw [contains_eq_isSome_level?, h]; rfl
  find := by rw [find?_eq_variableAt?, h]; rfl
  value := by rw [value?, find?_eq_variableAt?, h]; rfl

def scopeAt (chain : Chain ω) (level : Nat) : Scope ω :=
  chain[level]?.getD {}

theorem find?_scopeAt (chain : Chain ω) (level : Nat) (name : String) :
    (scopeAt chain level).find? name = variableAt? chain level name := by
  unfold scopeAt variableAt?
  cases chain[level]? with
  | none => rfl
  | some s => rfl

theorem fitAll_scopeAt {cells : Cells}
    (h : ∀ s ∈ chain, ∀ entry ∈ s.entries, entry.2.Fits cells) : FitAll (scopeAt chain) cells := by
  intro key name v hv
  rw [find?_scopeAt] at hv
  obtain ⟨s, hs, hv⟩ := Option.bind_eq_some_iff.1 hv
  obtain ⟨before, after, hentries, -⟩ := List.lookup_eq_some_iff.1 hv
  have hmem : (name, v) ∈ s.entries := hentries ▸ List.mem_append_right before (.head after)
  exact h s (List.mem_of_getElem? hs) (name, v) hmem

theorem scopeAt_modify (chain : Chain ω) {level : Nat} (h : level < chain.length)
    (f : Scope ω → Scope ω) :
    scopeAt (chain.modify level f) level = f (scopeAt chain level) ∧
      ∀ key, key ≠ level → scopeAt (chain.modify level f) key = scopeAt chain key := by
  unfold scopeAt
  refine ⟨?_, fun key hkey => ?_⟩
  · rw [List.getElem?_modify, List.getElem?_eq_getElem h]
    simp
  · rw [List.getElem?_modify]
    simp [Ne.symm hkey]

theorem lt_length_of_variableAt? {level : Nat} {v : Variable ω}
    (h : variableAt? chain level name = some v) : level < chain.length := by
  obtain ⟨s, hs, -⟩ := Option.bind_eq_some_iff.1 h
  exact (List.getElem?_eq_some_iff.1 hs).1

/-- The name means the variable `v`, the number `x` was written, and this notice is due. -/
structure Assigned (chain chain' : Chain ω) (cells cells' : Cells) (name : String) (level : Nat)
    (v : Variable ω) (x : Float) (notice? : Option (Notice ω)) : Prop where
  finds : Finds chain cells name level v
  value : value? chain' cells' name = some (v.kind.coerce x)
  notice : notice? = v.watcher.map fun watcher => ⟨watcher, v.kind.coerce x⟩

theorem assigned_of_level? {chain' : Chain ω} {cells : Cells} {level : Nat} {v : Variable ω}
    {x : Float} (h : level? chain name = some level) (hv : variableAt? chain level name = some v)
    (hfits : v.Fits cells) (hnames : chain'.map Dict.names = chain.map Dict.names)
    (hv' : variableAt? chain' level name = some (v.store cells x).1) :
    Assigned chain chain' cells (v.store cells x).2 name level v x
      ((v.store cells x).1.notice? (v.store cells x).2) where
  finds := finds_of_level? h hv cells
  value := by
    have h' : level? chain' name = some level := by rw [level?, hnames]; exact h
    rw [(finds_of_level? h' hv' _).value, Variable.value_store hfits]
  notice := Variable.notice?_store hfits x

/-- A variable that is written where it stands in a chain. -/
theorem assigned_modify {cells : Cells} {level : Nat} {v : Variable ω}
    (hfits : FitAll (scopeAt chain) cells) (h : level? chain name = some level)
    (hv : variableAt? chain level name = some v) (x : Float) :
    let chain' := chain.modify level (Dict.replace · name (v.store cells x).1)
    Assigned chain chain' cells (v.store cells x).2 name level v x
        ((v.store cells x).1.notice? (v.store cells x).2) ∧
      AssignedAt (scopeAt chain) (scopeAt chain') cells (v.store cells x).2 level name v x := by
  intro chain'
  obtain ⟨hhome, hafter⟩ := scopeAt_modify chain (lt_length_of_variableAt? hv)
    (Dict.replace · name (v.store cells x).1)
  have hfound : (scopeAt chain level).find? name = some v :=
    (find?_scopeAt chain level name).trans hv
  have hnames : chain'.map Dict.names = chain.map Dict.names :=
    names_modify_replace chain level name _
  have hv' : variableAt? chain' level name = some (v.store cells x).1 := by
    rw [← find?_scopeAt, hhome, Dict.find?_replace, if_pos rfl, hfound]
    rfl
  exact ⟨assigned_of_level? h hv (hfits level name v hfound) hnames hv',
    assignedAt_store hfits hfound hhome hafter⟩

end Chain

/-! ## Forests

The chain of a scope lists the scopes on its path. A level of the chain is a number of a scope this
way, and a write at the level is a write to the scope with this number. -/

namespace Forest

variable {f : Forest ω} {i : Nat} {name : String}

theorem parent?_setScope (f : Forest ω) (i : Nat) (s : Scope ω) (j : Nat) :
    (f.setScope i s).parent? j = f.parent? j := by
  unfold parent? setScope
  rw [List.getElem?_modify]
  by_cases h : i = j
  · cases f.nodes[j]? <;> simp [h]
  · simp [h]

theorem path_setScope (f : Forest ω) (i : Nat) (s : Scope ω) (j : Nat) :
    (f.setScope i s).path j = f.path j := by
  fun_induction path f j with
  | case1 j p hp hlt ih => rw [path, parent?_setScope, hp]; dsimp only; rw [if_pos hlt, ih]
  | case2 j p hp hlt => rw [path, parent?_setScope, hp]; dsimp only; rw [if_neg hlt]
  | case3 j hp => rw [path, parent?_setScope, hp]

theorem scope_setScope (f : Forest ω) {i : Nat} (h : i < f.size) (s : Scope ω) :
    (f.setScope i s).scope i = s ∧ ∀ j, j ≠ i → (f.setScope i s).scope j = f.scope j := by
  unfold scope setScope
  refine ⟨?_, fun j hj => ?_⟩
  · rw [List.getElem?_modify, List.getElem?_eq_getElem h]
    simp
  · rw [List.getElem?_modify]
    simp [Ne.symm hj]

theorem scope_eq_scopeAt (f : Forest ω) : f.scope = Chain.scopeAt (f.nodes.map (·.scope)) := by
  funext i
  rw [scope, Chain.scopeAt, List.getElem?_map]

theorem lt_size_of_find? {v : Variable ω} (h : (f.scope i).find? name = some v) : i < f.size := by
  refine Nat.lt_of_not_le fun hle => ?_
  rw [scope, List.getElem?_eq_none hle] at h
  cases h

theorem variableAt?_chain (f : Forest ω) (i level : Nat) (name : String) :
    Chain.variableAt? (f.chain i) level name =
      (f.path i)[level]?.bind fun j => (f.scope j).find? name := by
  rw [Chain.variableAt?, chain, List.getElem?_map, Option.bind_map]
  rfl

/-- A name is at home in the scope at its level. -/
theorem home?_eq_level? (f : Forest ω) (i : Nat) (name : String) :
    f.home? i name = (Chain.level? (f.chain i) name).bind fun level => (f.path i)[level]? := by
  unfold home? chain
  induction f.path i with
  | nil => rfl
  | cons j path ih =>
      rw [List.find?_cons, List.map_cons, Chain.level?_cons]
      cases hj : (f.scope j).contains name with
      | true => rfl
      | false =>
          dsimp only
          rw [ih, if_neg Bool.false_ne_true, Option.bind_map]
          rfl

/-- A write in a forest is made in the scope at the level of the name. -/
theorem store?_of_level? {level : Nat} {v : Variable ω}
    (h : Chain.level? (f.chain i) name = some level)
    (hv : Chain.variableAt? (f.chain i) level name = some v) (cells : Cells) (x : Float) :
    ∃ home, (f.path i)[level]? = some home ∧ (f.scope home).find? name = some v ∧
      f.store? cells i name x =
        some ⟨f.setScope home ((f.scope home).replace name (v.store cells x).1),
          (v.store cells x).2, (v.store cells x).1.notice? (v.store cells x).2⟩ := by
  rw [variableAt?_chain] at hv
  obtain ⟨home, hhome, hfound⟩ := Option.bind_eq_some_iff.1 hv
  refine ⟨home, hhome, hfound, ?_⟩
  have heq : f.home? i name = some home := by
    rw [home?_eq_level?, h]
    exact hhome
  rw [store?, heq]
  change (Scope.store? (f.scope home) cells name x).bind _ = _
  rw [Scope.store?, hfound]
  rfl

/-- From the scope `i` on, a name is found and written at the first scope that has it, or it is
neither found nor written. -/
def AssignsNearest (f : Forest ω) (cells : Cells) (i : Nat) (name : String) (x : Float) : Prop :=
  (∃ level home v s, (f.path i)[level]? = some home ∧ f.store? cells i name x = some s ∧
      Chain.Assigned (f.chain i) (s.place.chain i) cells s.cells name level v x s.notice? ∧
      AssignedAt f.scope s.place.scope cells s.cells home name v x ∧
      ∀ j, s.place.parent? j = f.parent? j) ∨
    Chain.Lacks (f.chain i) cells name ∧ f.store? cells i name x = none

theorem assignsNearest {cells : Cells} (hfits : FitAll f.scope cells) (i : Nat) (name : String)
    (x : Float) : f.AssignsNearest cells i name x := by
  cases h : Chain.level? (f.chain i) name with
  | none =>
      refine .inr ⟨Chain.lacks_of_level? h cells, ?_⟩
      rw [store?, home?_eq_level?, h]
      rfl
  | some level =>
      obtain ⟨v, hv⟩ := Chain.exists_variableAt?_of_level? h
      obtain ⟨home, hhome, hfound, hstore⟩ := store?_of_level? h hv cells x
      obtain ⟨hplace, hothers⟩ := f.scope_setScope (lt_size_of_find? hfound)
        ((f.scope home).replace name (v.store cells x).1)
      have hat := assignedAt_store hfits hfound hplace hothers
      refine .inl ⟨level, home, v, _, hhome, hstore, ?_, hat, f.parent?_setScope home _⟩
      refine Chain.assigned_of_level? h hv (hfits home name v hfound) ?_ ?_
      · rw [chain, chain, path_setScope, List.map_map, List.map_map]
        exact List.map_congr_left fun j _ => hat.names j
      · rw [variableAt?_chain, path_setScope, hhome, Option.bind_some, hplace, Dict.find?_replace,
          if_pos rfl, hfound]
        rfl

end Forest

/-! ## Worlds

At the root the notice is delivered after the write. What the host does on it is not part of the
statement: the world that it is given is. -/

namespace World

/-- At the root a name is found and written at the first scope that has it, and then the notice is
delivered. Or it is neither found nor written. -/
def AssignsNearest (w : World ω σ) (notify : Notify ω σ) (name : String) (x : Float) : Prop :=
  (∃ level v u notice?, w.assign? notify name x = some (notify.deliver notice? u) ∧
      Chain.Assigned w.chain u.chain w.cells u.cells name level v x notice? ∧
      AssignedAt (Chain.scopeAt w.chain) (Chain.scopeAt u.chain) w.cells u.cells level name v x ∧
      u.stopping = w.stopping ∧ u.state = w.state) ∨
    Chain.Lacks w.chain w.cells name ∧ w.assign? notify name x = none

theorem assignsNearest {w : World ω σ} (hfits : FitAll (Chain.scopeAt w.chain) w.cells)
    (notify : Notify ω σ) (name : String) (x : Float) : w.AssignsNearest notify name x := by
  unfold AssignsNearest assign?
  cases h : Chain.level? w.chain name with
  | none =>
      refine .inr ⟨Chain.lacks_of_level? h w.cells, ?_⟩
      rw [store?_of_level?_eq_none h]
      rfl
  | some level =>
      obtain ⟨v, hv⟩ := Chain.exists_variableAt?_of_level? h
      obtain ⟨u, hstore, hwrite, hstopping, hstate⟩ := store?_of_level? h hv x
      obtain ⟨hassigned, hat⟩ := Chain.assigned_modify hfits h hv x
      rw [← hwrite.chain, ← hwrite.cells] at hassigned hat
      rw [hstore]
      exact .inl ⟨level, v, u, _, rfl, hassigned, hat, hstopping, hstate⟩

end World

/-! ## Activations

In an activation the local scope comes before all others, and what follows it is either the chain of
the world or one that the activation was given for a check. -/

namespace Script

variable {a : Activation ω} {w : World ω σ} {name : String}

/-- `b` and `u` differ from `a` and `w` in variables and cells at most, and in the variables of `w`
only if these are the ones that the activation sees. -/
structure KeepsRest (a b : Activation ω) (w u : World ω σ) : Prop where
  params : b.params = a.params
  mode : b.mode = a.mode
  outer : b.outer.isSome = a.outer.isSome
  stopping : u.stopping = w.stopping
  state : u.state = w.state
  chain : a.outer.isSome = true → u.chain = w.chain

/-- A write in an activation is made at the level of the name. -/
theorem assign_of_level? {level : Nat} {v : Variable ω}
    (h : Chain.level? (a.chain w) name = some level)
    (hv : Chain.variableAt? (a.chain w) level name = some v) (host : Host ω σ) (x : Float) :
    ∃ b u, assign host a w name x =
        (b, host.notify.deliver ((v.store w.cells x).1.notice? (v.store w.cells x).2) u) ∧
      b.chain u = (a.chain w).modify level (Dict.replace · name (v.store w.cells x).1) ∧
      u.cells = (v.store w.cells x).2 ∧ KeepsRest a b w u := by
  rw [Activation.chain, Chain.level?_cons] at h
  split at h
  · -- a local variable
    cases h
    have hlocal : a.locals.find? name = some v := hv
    unfold assign Scope.store?
    rw [hlocal]
    exact ⟨_, _, rfl, rfl, rfl, rfl, rfl, rfl, rfl, rfl, fun _ => rfl⟩
  · rename_i hlocal
    obtain ⟨outside, houtside, rfl⟩ := Option.map_eq_some_iff.1 h
    unfold assign Scope.store?
    rw [Dict.find?_eq_none_of_not_contains hlocal]
    rw [Activation.chain] at hv ⊢
    cases houter : a.outer with
    -- behind the local scope comes the chain of the world
    | none =>
        rw [houter] at houtside hv
        obtain ⟨u, hstore, hwrite, hstopping, hstate⟩ := World.store?_of_level? houtside hv x
        refine ⟨a, u, ?_, ?_, hwrite.cells, rfl, rfl, rfl, hstopping, hstate, fun hsome => ?_⟩
        · rw [World.assign?, hstore, hwrite.cells]
          rfl
        · rw [Activation.chain, houter, List.modify_succ_cons]
          exact congrArg (a.locals :: ·) hwrite.chain
        · rw [houter] at hsome
          cases hsome
    -- behind the local scope come the scopes that the check was given
    | some outer =>
        rw [houter, Option.getD_some] at houtside hv
        dsimp only [Option.map_none]
        rw [Chain.store?_of_level? houtside hv x]
        refine ⟨_, _, rfl, rfl, rfl, rfl, rfl, ?_, rfl, rfl, fun _ => rfl⟩
        rw [houter]
        rfl

theorem assign_of_level?_eq_none (h : Chain.level? (a.chain w) name = none) (host : Host ω σ)
    (x : Float) : assign host a w name x = (a, w) := by
  rw [Activation.chain, Chain.level?_cons] at h
  split at h
  · cases h
  · rename_i hlocal
    have houtside := Option.map_eq_none_iff.1 h
    unfold assign Scope.store?
    rw [Dict.find?_eq_none_of_not_contains hlocal]
    cases houter : a.outer with
    | none =>
        rw [houter] at houtside
        dsimp only [Option.map_none]
        rw [World.assign?, World.store?_of_level?_eq_none houtside]
        rfl
    | some outer =>
        rw [houter, Option.getD_some] at houtside
        dsimp only [Option.map_none]
        rw [Chain.store?_of_level?_eq_none houtside]

/-- In an activation a name is found and written at the first scope that has it, and then the notice
is delivered. Or it is neither found nor written. -/
def Activation.AssignsNearest (host : Host ω σ) (a : Activation ω) (w : World ω σ) (name : String)
    (x : Float) : Prop :=
  (∃ level v b u notice?, assign host a w name x = (b, host.notify.deliver notice? u) ∧
      Chain.Assigned (a.chain w) (b.chain u) w.cells u.cells name level v x notice? ∧
      AssignedAt (Chain.scopeAt (a.chain w)) (Chain.scopeAt (b.chain u)) w.cells u.cells level name v
        x ∧
      KeepsRest a b w u) ∨
    Chain.Lacks (a.chain w) w.cells name ∧ assign host a w name x = (a, w)

theorem Activation.assignsNearest (hfits : FitAll (Chain.scopeAt (a.chain w)) w.cells)
    (host : Host ω σ) (name : String) (x : Float) : AssignsNearest host a w name x := by
  cases h : Chain.level? (a.chain w) name with
  | none => exact .inr ⟨Chain.lacks_of_level? h w.cells, assign_of_level?_eq_none h host x⟩
  | some level =>
      obtain ⟨v, hv⟩ := Chain.exists_variableAt?_of_level? h
      obtain ⟨b, u, hassign, hchain, hcells, hrest⟩ := assign_of_level? h hv host x
      obtain ⟨hassigned, hat⟩ := Chain.assigned_modify hfits h hv x
      rw [← hchain, ← hcells] at hassigned hat
      exact .inl ⟨level, v, b, u, _, hassign, hcells ▸ hassigned, hat, hrest⟩

end Script

/-! ## The main statement -/

/-- From every scope of a forest, at the root of a world and in an activation, a name is read and
written at the first scope that has it, or it is neither read nor written. -/
theorem assignments_come_to_nearest {f : Forest ω} {cells : Cells} {w : World ω σ}
    {a : Script.Activation ω} (hforest : FitAll f.scope cells)
    (hroot : FitAll (Chain.scopeAt w.chain) w.cells)
    (hactivation : FitAll (Chain.scopeAt (a.chain w)) w.cells) (host : Script.Host ω σ) (i : Nat)
    (name : String) (x : Float) :
    f.AssignsNearest cells i name x ∧ w.AssignsNearest host.notify name x ∧
      Script.Activation.AssignsNearest host a w name x :=
  ⟨Forest.assignsNearest hforest i name x, World.assignsNearest hroot host.notify name x,
    Script.Activation.assignsNearest hactivation host name x⟩

/-- An integer variable bound to a cell. -/
def sharedVariable (watcher : Option Unit) : Variable Unit :=
  { kind := .integer, storage := .bound "cell", watcher }

def sharedCells : Cells :=
  ⟨[("cell", .integer 5)]⟩

/-- The inner `x` is watched, and it shares its cell with the outer `y`. The outer `x` is a number. -/
def sharedForest : Forest Unit :=
  ⟨[{ scope := ⟨[("x", .ofNumber 7.0), ("y", sharedVariable none)]⟩ },
    { parent := some 0, scope := ⟨[("x", sharedVariable (some ()))]⟩ }]⟩

/-- A world with the same scopes, which keeps the numbers that the watcher is told. -/
def sharedWorld : World Unit (List Float) :=
  { root := sharedForest.scope 1, parents := [sharedForest.scope 0], cells := sharedCells,
    state := [] }

def sharedHost : Script.Host Unit (List Float) :=
  { notify := fun _ x w => { w with state := x :: w.state } }

theorem fitAll_shared {chain : Chain Unit}
    (h : ∀ s ∈ chain, s ∈ [({} : Scope Unit), sharedForest.scope 0, sharedForest.scope 1]) :
    FitAll (Chain.scopeAt chain) sharedCells := by
  have hmade : Variable.ofCell? sharedCells "cell" = some (sharedVariable none) := rfl
  have hfits : (sharedVariable none).Fits sharedCells := Variable.fits_of_ofCell? hmade
  -- a watcher makes no difference
  have hbound (watcher : Option Unit) : (sharedVariable watcher).Fits sharedCells := hfits
  have hnumber : (Variable.ofNumber 7.0 : Variable Unit).Fits sharedCells := by
    rintro cell ⟨⟩
  refine Chain.fitAll_scopeAt fun s hs entry hentry => ?_
  rcases List.mem_cons.1 (h s hs) with rfl | hs
  · cases hentry
  rcases List.mem_cons.1 hs with rfl | hs
  · rcases List.mem_cons.1 hentry with rfl | hentry
    · exact hnumber
    · rw [List.mem_singleton.1 hentry]
      exact hbound none
  · obtain rfl := List.mem_singleton.1 hs
    rw [List.mem_singleton.1 hentry]
    exact hbound (some ())

/-- The main statement for a variable that hides another and shares its cell with a third. Five
halves are written and the watcher is told two. -/
theorem assignments_come_to_nearest_shared :
    let a : Script.Activation Unit := {}
    (FitAll sharedForest.scope sharedCells ∧
        FitAll (Chain.scopeAt sharedWorld.chain) sharedWorld.cells ∧
        FitAll (Chain.scopeAt (a.chain sharedWorld)) sharedWorld.cells) ∧
      (sharedForest.AssignsNearest sharedCells 1 "x" 2.5 ∧
        sharedWorld.AssignsNearest sharedHost.notify "x" 2.5 ∧
        Script.Activation.AssignsNearest sharedHost a sharedWorld "x" 2.5) ∧
      (sharedWorld.assign? sharedHost.notify "x" 2.5).map
          (fun u => (u.state, u.value? "x", u.value? "y", Chain.value? u.parents u.cells "x")) =
        some ([2.0], some 2.0, some 2.0, some 7.0) := by
  intro a
  have hforest : FitAll sharedForest.scope sharedCells := by
    rw [sharedForest.scope_eq_scopeAt]
    refine fitAll_shared fun s hs => ?_
    rcases List.mem_cons.1 hs with rfl | hs
    · exact .tail _ (.head _)
    · rw [List.mem_singleton.1 hs]
      exact .tail _ (.tail _ (.head _))
  have hroot : FitAll (Chain.scopeAt sharedWorld.chain) sharedWorld.cells := by
    refine fitAll_shared fun s hs => ?_
    rcases List.mem_cons.1 hs with rfl | hs
    · exact .tail _ (.tail _ (.head _))
    · rw [List.mem_singleton.1 hs]
      exact .tail _ (.head _)
  have hactivation : FitAll (Chain.scopeAt (a.chain sharedWorld)) sharedWorld.cells := by
    refine fitAll_shared fun s hs => ?_
    rcases List.mem_cons.1 hs with rfl | hs
    · exact .head _
    rcases List.mem_cons.1 hs with rfl | hs
    · exact .tail _ (.tail _ (.head _))
    · rw [List.mem_singleton.1 hs]
      exact .tail _ (.head _)
  refine ⟨⟨hforest, hroot, hactivation⟩,
    assignments_come_to_nearest hforest hroot hactivation sharedHost 1 "x" 2.5, ?_⟩
  decide +kernel

end NumScript
