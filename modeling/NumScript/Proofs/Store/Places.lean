import NumScript.Host.World

set_option autoImplicit false

/-! # Places of variables

A variable that a host can see has a *place*: the level of its scope in the chain of the root, and
its name there. A write changes the variable at one place, or the cell that this variable is bound
to, and nothing else (`World.IsWrite`). In particular it keeps the *shape* of every variable: its
kind, the cell it is bound to, its read-only flag and its watcher.

Names need not be distinct in a dictionary for any of this: a place is where the look-up goes.

Places are what statements about whole runs speak of. A name may mean different variables in the
course of a run, when a scope gets a variable that hides another; the variable at a place is the
same one throughout, since nothing is removed from the scopes of the root by a script. -/

namespace NumScript

variable {ω σ : Type}

/-! ## The shape of a variable

The fields of a variable fall into those that a write changes, which is only the number, and the
rest. A variable with a number of its own changes its number, a bound one changes nothing of itself.
-/

/-- What a write to a variable leaves as it is. -/
structure Shape (ω : Type) where
  kind : Kind
  cell? : Option String
  readonly : Bool
  watcher : Option ω

/-- A number of its own, which every script may write and nobody watches. -/
def Shape.plain : Shape ω :=
  ⟨.number, none, false, none⟩

namespace Variable

def cell? (v : Variable ω) : Option String :=
  match v.storage with
  | .owned _ => none
  | .bound cell => some cell

def shape (v : Variable ω) : Shape ω :=
  ⟨v.kind, v.cell?, v.readonly, v.watcher⟩

theorem shape_store (v : Variable ω) (cells : Cells) (x : Float) :
    (v.store cells x).1.shape = v.shape := by
  unfold store
  cases hv : v.storage with
  | owned y => simp only [shape, cell?, hv]
  | bound cell =>
      dsimp only
      split <;> rfl

/-- A write to a variable with a number of its own leaves the cells alone. -/
theorem store_of_owned {v : Variable ω} (hv : v.cell? = none) (cells : Cells) (x : Float) :
    (v.store cells x).2 = cells := by
  cases hs : v.storage with
  | owned y => simp only [store, hs]
  | bound cell => simp [cell?, hs] at hv

/-- What becomes of a variable by a write does not depend on the cells. -/
theorem store_congr (v : Variable ω) (cells cells' : Cells) (x : Float) :
    (v.store cells x).1 = (v.store cells' x).1 := by
  unfold store
  cases v.storage with
  | owned y => rfl
  | bound cell =>
      dsimp only
      split <;> split <;> rfl

/-- Nor does a number of its own. -/
theorem value_of_owned {v : Variable ω} (hv : v.cell? = none) (cells cells' : Cells) :
    v.value cells = v.value cells' := by
  unfold value
  cases hs : v.storage with
  | owned y => rfl
  | bound cell => simp [cell?, hs] at hv

/-- A write is seen by no variable that is bound to another cell or to none. -/
theorem value_store_of_ne {u v : Variable ω} (h : ∀ cell, v.cell? = some cell → u.cell? ≠ some cell)
    (cells : Cells) (x : Float) : v.value (u.store cells x).2 = v.value cells := by
  unfold cell? at h
  unfold store value
  cases hu : u.storage with
  | owned y => rfl
  | bound cell =>
      cases hv : v.storage with
      | owned y => rfl
      | bound cell' =>
          have hne : cell' ≠ cell := fun heq => h cell' (by rw [hv]) (by rw [hu, heq])
          dsimp only
          split
          · rw [Dict.find?_replace, if_neg hne]
          · rfl

end Variable

/-! ## Looking up names

A few facts on dictionaries of variables that are about no level yet: what a look-up finds after a
name was added, removed or declared. -/

theorem Dict.contains_of_find? {β : Type} {d : Dict β} {name : String} {value : β}
    (h : d.find? name = some value) : d.contains name = true := by
  rw [Dict.contains, h]
  rfl

theorem Dict.eq_of_find?_singleton {β : Type} {key name : String} {value found : β}
    (h : Dict.find? ⟨[(key, value)]⟩ name = some found) : found = value := by
  rw [Dict.find?_cons] at h
  split at h
  · exact (Option.some.inj h).symm
  · cases h

theorem Dict.find?_erase {β : Type} (d : Dict β) (name key : String) :
    (d.erase name).find? key = if key = name then none else d.find? key := by
  obtain ⟨entries⟩ := d
  induction entries with
  | nil =>
      rw [Dict.erase, List.filter_nil]
      simp [Dict.find?]
  | cons entry rest ih =>
      obtain ⟨k, v⟩ := entry
      rw [Dict.erase] at ih ⊢
      rw [List.filter_cons, Dict.find?_cons]
      by_cases hk : k = name
      · subst hk
        rw [if_neg (by simp), ih]
        by_cases hkey : key = k
        · simp [hkey]
        · simp [hkey]
      · rw [if_pos (by simpa using hk), Dict.find?_cons, ih]
        by_cases hkey : key = k
        · subst hkey
          simp [hk]
        · simp [hkey]

theorem Dict.find?_add {β : Type} {d e : Dict β} {name : String} {value : β}
    (h : d.add? name value = some e) (key : String) :
    e.find? key = (d.find? key).or (if key = name then some value else none) := by
  obtain ⟨_, hentries⟩ := Dict.add?_eq_some_iff.1 h
  rw [show e = ⟨d.entries ++ [(name, value)]⟩ from congrArg Dict.mk hentries, Dict.find?_append]

/-- Declaring a name adds a number, or leaves the variable of that name as it is. -/
theorem Scope.find?_declare (s : Scope ω) (name key : String) :
    Dict.find? (s.declare name) key =
      (Dict.find? s key).or (if key = name then some (Variable.zero .number) else none) := by
  unfold Scope.declare
  cases hadd : Dict.add? s name (Variable.zero .number) with
  | some e => exact Dict.find?_add hadd key
  | none =>
      rw [Option.getD_none]
      by_cases hkey : key = name
      · have hname : Dict.contains s name = true := by
          unfold Dict.add? at hadd
          split at hadd
          · assumption
          · cases hadd
        obtain ⟨v, hv⟩ := Option.isSome_iff_exists.1 hname
        rw [hkey, hv, Option.some_or]
      · rw [if_neg hkey, Option.or_none]

/-- A name that was declared is there. -/
theorem Scope.exists_find?_declare (s : Scope ω) (name : String) :
    ∃ v, Dict.find? (s.declare name) name = some v := by
  rw [Scope.find?_declare, if_pos rfl]
  cases Dict.find? s name with
  | none => exact ⟨_, rfl⟩
  | some v => exact ⟨v, rfl⟩

/-! ## Places in a chain

A chain is written to at one level. The other scopes are the same, and in the scope that is written
the names are. -/

def Chain.variableAt? (chain : Chain ω) (level : Nat) (name : String) : Option (Variable ω) :=
  chain[level]?.bind fun s => Dict.find? s name

namespace Chain

theorem variableAt?_modify (chain : Chain ω) (level key : Nat) (f : Scope ω → Scope ω) (name : String) :
    variableAt? (chain.modify level f) key name =
      if key = level then chain[level]?.bind fun s => Dict.find? (f s) name
      else variableAt? chain key name := by
  unfold variableAt?
  rw [List.getElem?_modify]
  by_cases h : level = key
  · subst h
    rw [if_pos rfl]
    cases chain[level]? <;> simp
  · rw [if_neg (Ne.symm h)]
    simp [h]

/-- Another variable for a name that is there keeps the names of every scope. -/
theorem names_modify_replace (chain : Chain ω) (level : Nat) (name : String) (v : Variable ω) :
    (chain.modify level (Dict.replace · name v)).map Dict.names = chain.map Dict.names := by
  refine List.ext_getElem? fun key => ?_
  rw [List.getElem?_map, List.getElem?_map, List.getElem?_modify]
  cases chain[key]? with
  | none => rfl
  | some s =>
      by_cases hkey : level = key
      · simp [hkey]
      · simp [hkey]

/-- A write is made at the place of the variable that the name means. -/
theorem store?_eq_some {chain : Chain ω} {cells : Cells} {name : String} {x : Float}
    {s : Written (Chain ω) ω} (h : store? chain cells name x = some s) :
    ∃ level v, variableAt? chain level name = some v ∧ find? chain name = some v ∧
      s.place = chain.modify level (Dict.replace · name (v.store cells x).1) ∧
      s.cells = (v.store cells x).2 ∧
      s.notice? = (v.store cells x).1.notice? (v.store cells x).2 := by
  induction chain generalizing s with
  | nil => cases h
  | cons scope outer ih =>
      rw [store?, Scope.store?] at h
      cases hv : Dict.find? scope name with
      | some v =>
          rw [hv] at h
          obtain rfl := Option.some.inj h
          refine ⟨0, v, hv, ?_, rfl, rfl, rfl⟩
          rw [find?, List.findSome?_cons, hv]
      | none =>
          rw [hv] at h
          obtain ⟨s', hs', rfl⟩ := Option.map_eq_some_iff.1 h
          obtain ⟨level, v, hplace, hfind, hchain, hcells, hnotice⟩ := ih hs'
          refine ⟨level + 1, v, hplace, ?_, ?_, hcells, hnotice⟩
          · rw [find?, List.findSome?_cons, hv]
            exact hfind
          · rw [List.modify_succ_cons, ← hchain]

end Chain

/-! ## Places in a world

The chain of a world is the root and the scopes that it falls back to, which are kept in two fields.
A write changes one of the fields and the cells. `IsWrite` says this without the distinction, so
that later proofs do not split on where the variable was. -/

namespace World

def variableAt? (w : World ω σ) (level : Nat) (name : String) : Option (Variable ω) :=
  Chain.variableAt? w.chain level name

def shape? (w : World ω σ) (level : Nat) (name : String) : Option (Shape ω) :=
  (w.variableAt? level name).map Variable.shape

/-- The number `x` was written to the variable `v` at a place. -/
structure IsWrite (w u : World ω σ) (level : Nat) (name : String) (v : Variable ω) (x : Float) :
    Prop where
  found : w.variableAt? level name = some v
  chain : u.chain = w.chain.modify level (Dict.replace · name (v.store w.cells x).1)
  cells : u.cells = (v.store w.cells x).2

/-- A write at the root is made to the variable that the name means there. -/
theorem store?_eq_some {w u : World ω σ} {name : String} {x : Float} {notice? : Option (Notice ω)}
    (h : w.store? name x = some (u, notice?)) :
    ∃ level v, w.IsWrite u level name v x ∧ Chain.find? w.chain name = some v ∧
      (w.root.contains name = true → level = 0) ∧
      notice? = (v.store w.cells x).1.notice? u.cells := by
  rw [store?, Scope.store?] at h
  cases hv : Dict.find? w.root name with
  | some v =>
      rw [hv] at h
      obtain ⟨rfl, rfl⟩ := Prod.mk.inj (Option.some.inj h)
      refine ⟨0, v, ⟨hv, rfl, rfl⟩, ?_, fun _ => rfl, rfl⟩
      rw [chain, Chain.find?, List.findSome?_cons, hv]
  | none =>
      rw [hv] at h
      obtain ⟨s, hs, heq⟩ := Option.map_eq_some_iff.1 h
      obtain ⟨rfl, rfl⟩ := Prod.mk.inj heq
      obtain ⟨level, v, hplace, hfind, hchain, hcells, hnotice⟩ := Chain.store?_eq_some hs
      refine ⟨level + 1, v, ⟨hplace, ?_, hcells⟩, ?_, fun hroot => ?_, ?_⟩
      · rw [chain, chain, List.modify_succ_cons, ← hchain]
      · rw [chain, Chain.find?, List.findSome?_cons, hv]
        exact hfind
      · rw [Dict.contains, hv] at hroot
        cases hroot
      · rw [hnotice, hcells]

def places (w : World ω σ) : List (Nat × String × Variable ω) :=
  w.chain.zipIdx.flatMap fun (s, level) => s.entries.map fun (name, v) => (level, name, v)

theorem mem_places {w : World ω σ} {level : Nat} {name : String} {v : Variable ω}
    (h : w.variableAt? level name = some v) : (level, name, v) ∈ w.places := by
  obtain ⟨s, hs, hv⟩ := Option.bind_eq_some_iff.1 h
  obtain ⟨before, after, hentries, _⟩ := List.lookup_eq_some_iff.1 hv
  have hmem : (name, v) ∈ s.entries := by
    rw [hentries]
    exact List.mem_append_right _ (.head _)
  exact List.mem_flatMap.2 ⟨(s, level), List.mem_zipIdx_iff_getElem?.2 hs,
    List.mem_map.2 ⟨(name, v), hmem, rfl⟩⟩

namespace IsWrite

variable {w u : World ω σ} {level : Nat} {name : String} {v : Variable ω} {x : Float}

/-- A write touches the variable at its place only. -/
theorem variableAt?_eq (h : w.IsWrite u level name v x) (key : Nat) (other : String) :
    u.variableAt? key other =
      if key = level ∧ other = name then some (v.store w.cells x).1
      else w.variableAt? key other := by
  have hfound := h.found
  rw [variableAt?, h.chain, Chain.variableAt?_modify]
  by_cases hkey : key = level
  · subst hkey
    rw [if_pos rfl]
    unfold variableAt? Chain.variableAt? at hfound ⊢
    cases hscope : w.chain[key]? with
    | none =>
        rw [hscope] at hfound
        cases hfound
    | some s =>
        rw [hscope] at hfound
        show (s.replace name (v.store w.cells x).1).find? other = _
        rw [Dict.find?_replace, show s.find? name = some v from hfound]
        simp
  · rw [if_neg hkey, if_neg fun hboth => hkey hboth.1]
    rfl

/-- A write keeps the names of every scope. -/
theorem names (h : w.IsWrite u level name v x) :
    u.chain.map Dict.names = w.chain.map Dict.names := by
  rw [h.chain, Chain.names_modify_replace]

/-- A write keeps the shapes of all variables. -/
theorem shape?_eq (h : w.IsWrite u level name v x) (key : Nat) (other : String) :
    u.shape? key other = w.shape? key other := by
  rw [shape?, h.variableAt?_eq]
  split
  · rename_i hplace
    obtain ⟨rfl, rfl⟩ := hplace
    rw [shape?, h.found]
    exact congrArg some (v.shape_store w.cells x)
  · rfl

end IsWrite

/-! ## New variables

Scripts add variables at the root only. What was there keeps its place, because a name is added only
where it is not taken. -/

theorem variableAt?_add {w : World ω σ} {root : Scope ω} {name : String} {v : Variable ω}
    (h : w.root.add? name v = some root) (level : Nat) (other : String) :
    ({ w with root } : World ω σ).variableAt? level other =
      (w.variableAt? level other).or (if level = 0 ∧ other = name then some v else none) := by
  cases level with
  | zero =>
      show root.find? other = (w.root.find? other).or _
      rw [Dict.find?_add h]
      simp
  | succ outer =>
      rw [if_neg fun hboth => Nat.succ_ne_zero outer hboth.1, Option.or_none]
      rfl

end World

/-! ## Notices

A notice hands the world to the host. All that can be said of it afterwards is what the host is
assumed to keep, so the lemma is about any relation on worlds. -/

/-- What the answer to any notice keeps is kept when a notice is delivered, or none. -/
theorem Notify.deliver_rel {R : World ω σ → World ω σ → Prop} (hrefl : ∀ w, R w w)
    {notify : Notify ω σ} (h : ∀ watcher x w, R w (notify watcher x w))
    (notice? : Option (Notice ω)) (w : World ω σ) : R w (notify.deliver notice? w) := by
  cases notice? with
  | none => exact hrefl w
  | some notice => exact h notice.watcher notice.value w

end NumScript
