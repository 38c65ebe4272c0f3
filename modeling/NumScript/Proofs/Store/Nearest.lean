import NumScript.Proofs.Store.Places

set_option autoImplicit false

/-! # The nearest scope that has a name

A name means the variable in the first scope of a chain that has it, for reading and for writing.
The level of this scope depends on the names in the scopes only (`Chain.level?`). With the level at
hand a look-up and a write are made at one place, and where no scope has the name nothing is found
and nothing is written.

The level separates two questions that the recursion of a look-up answers at once: which scope it
is, and what is in it. Two worlds that differ in the contents of variables have the same levels, so
a comparison of them needs no induction over the chain. -/

namespace NumScript

variable {ω σ : Type}

namespace Chain

def level? (chain : Chain ω) (name : String) : Option Nat :=
  (chain.map Dict.names).findIdx? fun names => decide (name ∈ names)

theorem level?_cons (s : Scope ω) (outer : Chain ω) (name : String) :
    level? (s :: outer) name =
      if s.contains name = true then some 0 else (level? outer name).map (· + 1) := by
  unfold level?
  rw [List.map_cons, List.findIdx?_cons]
  simp only [decide_eq_true_iff, Dict.contains_iff_mem_names]

/-- At its level there is a variable of the name. -/
theorem exists_variableAt?_of_level? {chain : Chain ω} {name : String} {level : Nat}
    (h : level? chain name = some level) : ∃ v, variableAt? chain level name = some v := by
  induction chain generalizing level with
  | nil => cases h
  | cons s outer ih =>
      rw [level?_cons] at h
      split at h
      · rename_i hs
        cases h
        exact Option.isSome_iff_exists.1 hs
      · obtain ⟨inner, hinner, rfl⟩ := Option.map_eq_some_iff.1 h
        exact ih hinner

/-- A look-up is made at this level. -/
theorem find?_eq_variableAt? (chain : Chain ω) (name : String) :
    find? chain name = (level? chain name).bind fun level => variableAt? chain level name := by
  induction chain with
  | nil => rfl
  | cons s outer ih =>
      unfold find? at ih ⊢
      rw [List.findSome?_cons, level?_cons]
      cases hs : Dict.find? s name with
      | some v =>
          rw [if_pos (Dict.contains_of_find? hs)]
          exact hs.symm
      | none =>
          have hcontains : ¬ s.contains name = true := by
            rw [Dict.contains, hs]
            exact Bool.false_ne_true
          rw [if_neg hcontains, ih, Option.bind_map]
          rfl

/-- A write is made at this level. -/
theorem store?_of_level? {chain : Chain ω} {cells : Cells} {name : String} {level : Nat}
    {v : Variable ω} (h : level? chain name = some level)
    (hv : variableAt? chain level name = some v) (x : Float) :
    store? chain cells name x =
      some ⟨chain.modify level (Dict.replace · name (v.store cells x).1), (v.store cells x).2,
        (v.store cells x).1.notice? (v.store cells x).2⟩ := by
  induction chain generalizing level with
  | nil => cases h
  | cons s outer ih =>
      rw [level?_cons] at h
      rw [store?, Scope.store?]
      split at h
      · cases h
        rw [show Dict.find? s name = some v from hv]
        rfl
      · rename_i hs
        obtain ⟨inner, hinner, rfl⟩ := Option.map_eq_some_iff.1 h
        rw [Dict.find?_eq_none_of_not_contains hs, Option.map_none]
        dsimp only
        rw [ih hinner hv, Option.map_some, List.modify_succ_cons]

theorem store?_of_level?_eq_none {chain : Chain ω} {name : String} (h : level? chain name = none)
    (cells : Cells) (x : Float) : store? chain cells name x = none := by
  induction chain with
  | nil => rfl
  | cons s outer ih =>
      rw [level?_cons] at h
      split at h
      · cases h
      · rename_i hs
        rw [store?, Scope.store?, Dict.find?_eq_none_of_not_contains hs, Option.map_none]
        dsimp only
        rw [ih (Option.map_eq_none_iff.1 h), Option.map_none]

end Chain

namespace World

/-- A write at the root is made at the level of the name. -/
theorem store?_of_level? {w : World ω σ} {name : String} {level : Nat} {v : Variable ω}
    (h : Chain.level? w.chain name = some level) (hv : w.variableAt? level name = some v)
    (x : Float) :
    ∃ u : World ω σ, w.store? name x = some (u, (v.store w.cells x).1.notice? u.cells) ∧
      w.IsWrite u level name v x ∧ u.stopping = w.stopping ∧ u.state = w.state := by
  have hfound := hv
  rw [chain, Chain.level?_cons] at h
  rw [store?, Scope.store?]
  split at h
  · cases h
    rw [show Dict.find? w.root name = some v from hv]
    exact ⟨_, rfl, ⟨hfound, rfl, rfl⟩, rfl, rfl⟩
  · rename_i hroot
    obtain ⟨inner, hinner, rfl⟩ := Option.map_eq_some_iff.1 h
    rw [Dict.find?_eq_none_of_not_contains hroot, Option.map_none]
    dsimp only
    rw [Chain.store?_of_level? hinner hv]
    refine ⟨_, rfl, ⟨hfound, ?_, rfl⟩, rfl, rfl⟩
    rw [chain, chain, List.modify_succ_cons]

theorem store?_of_level?_eq_none {w : World ω σ} {name : String}
    (h : Chain.level? w.chain name = none) (x : Float) : w.store? name x = none := by
  rw [chain, Chain.level?_cons] at h
  split at h
  · cases h
  · rename_i hroot
    rw [store?, Scope.store?, Dict.find?_eq_none_of_not_contains hroot, Option.map_none]
    dsimp only
    rw [Chain.store?_of_level?_eq_none (Option.map_eq_none_iff.1 h), Option.map_none]

end World

end NumScript
