import NumScript.Proofs.Store.Rebinding

set_option autoImplicit false

/-! # Moving variables into cells

Variables that hold their numbers themselves can be moved: each is bound to a new cell of its kind,
in which its number is. The moves are given as a list (`World.moved`). If they lead from different
places to different cells that were not in use, the two worlds are related as `World.Rebound` says
(`World.Movable.rebound`).

So the relation is not an assumption that could be empty. For every choice of variables there is a
second world, and it is computed from the first one and the list. -/

namespace NumScript

variable {ω σ : Type}

/-- A key that is there once is found. -/
theorem lookup_eq_some_iff_mem {α β : Type} [BEq α] [LawfulBEq α] {l : List (α × β)}
    (hl : (l.map Prod.fst).Nodup) {a : α} {b : β} : l.lookup a = some b ↔ (a, b) ∈ l := by
  induction l with
  | nil => simp
  | cons entry rest ih =>
      obtain ⟨key, value⟩ := entry
      rw [List.map_cons, List.nodup_cons] at hl
      rw [List.lookup_cons, List.mem_cons, Prod.mk.injEq, ← ih hl.2]
      by_cases hkey : a = key
      · subst hkey
        have hnot : ¬ rest.lookup a = some b := fun h =>
          hl.1 (List.mem_map.2 ⟨(a, b), (ih hl.2).1 h, rfl⟩)
        simp [hnot, eq_comm]
      · simp [hkey, beq_eq_false_iff_ne.2 hkey]

def Scope.housed (s : Scope ω) (home? : String → Option String) : Scope ω :=
  ⟨s.entries.map fun entry => (entry.1, entry.2.housed (home? entry.1))⟩

theorem Scope.names_housed (s : Scope ω) (home? : String → Option String) :
    Dict.names (s.housed home?) = Dict.names s := by
  unfold Dict.names Scope.housed
  rw [List.map_map]
  rfl

theorem Scope.find?_housed (s : Scope ω) (home? : String → Option String) (name : String) :
    Dict.find? (s.housed home?) name = (Dict.find? s name).map (·.housed (home? name)) := by
  obtain ⟨entries⟩ := s
  induction entries with
  | nil => rfl
  | cons entry rest ih =>
      obtain ⟨key, v⟩ := entry
      unfold Scope.housed at ih ⊢
      rw [List.map_cons, Dict.find?_cons, Dict.find?_cons]
      by_cases hkey : name = key
      · rw [if_pos hkey, if_pos hkey, hkey]
        rfl
      · rw [if_neg hkey, if_neg hkey]
        exact ih

abbrev Moves := List ((Nat × String) × String × Cell)

/-- The home of a place after the moves. -/
def Moves.home? (moves : Moves) (level : Nat) (name : String) : Option String :=
  (moves.lookup (level, name)).map Prod.fst

namespace World

def moved (w : World ω σ) (moves : Moves) : World ω σ :=
  { w with
    root := w.root.housed (moves.home? 0)
    parents := w.parents.mapIdx fun level s => s.housed (moves.home? (level + 1))
    cells := ⟨w.cells.entries ++ moves.map Prod.snd⟩ }

/-- The moves lead from different places to different new cells, and each cell is of the kind of the
variable and holds the number that the variable holds itself. -/
structure Movable (w : World ω σ) (moves : Moves) : Prop where
  places : (moves.map Prod.fst).Nodup
  cells : ((moves.map Prod.snd).map Prod.fst).Nodup
  owned : ∀ {level name cell content}, ((level, name), cell, content) ∈ moves →
    ∃ v, w.variableAt? level name = some v ∧ v.kind = content.kind ∧
      v.storage = .owned content.value
  unused : ∀ {place cell content}, (place, cell, content) ∈ moves →
    w.cells.find? cell = none ∧
      ∀ {level name v}, w.variableAt? level name = some v → v.cell? ≠ some cell

theorem chain_moved (w : World ω σ) (moves : Moves) :
    (w.moved moves).chain = w.chain.mapIdx fun level s => Scope.housed s (moves.home? level) := by
  unfold chain moved
  rw [List.mapIdx_cons]

theorem variableAt?_moved (w : World ω σ) (moves : Moves) (level : Nat) (name : String) :
    (w.moved moves).variableAt? level name =
      (w.variableAt? level name).map (·.housed (moves.home? level name)) := by
  unfold variableAt? Chain.variableAt?
  rw [chain_moved, List.getElem?_mapIdx]
  cases w.chain[level]? with
  | none => rfl
  | some s => exact s.find?_housed _ name

theorem names_moved (w : World ω σ) (moves : Moves) :
    (w.moved moves).chain.map Dict.names = w.chain.map Dict.names := by
  rw [chain_moved]
  refine List.ext_getElem? fun level => ?_
  rw [List.getElem?_map, List.getElem?_map, List.getElem?_mapIdx]
  cases w.chain[level]? with
  | none => rfl
  | some s => exact congrArg some (s.names_housed _)

namespace Movable

variable {w : World ω σ} {moves : Moves} {level : Nat} {name cell : String}

theorem home?_eq_some_iff (h : w.Movable moves) :
    moves.home? level name = some cell ↔ ∃ content, ((level, name), cell, content) ∈ moves := by
  unfold Moves.home?
  rw [Option.map_eq_some_iff]
  constructor
  · rintro ⟨⟨_, content⟩, hlookup, rfl⟩
    exact ⟨content, (lookup_eq_some_iff_mem h.places).1 hlookup⟩
  · rintro ⟨content, hmove⟩
    exact ⟨_, (lookup_eq_some_iff_mem h.places).2 hmove, rfl⟩

/-- The new cells are found where the moves say so. -/
theorem lookup_cells (h : w.Movable moves) {content : Cell} :
    (moves.map Prod.snd).lookup cell = some content ↔ ∃ place, (place, cell, content) ∈ moves := by
  rw [lookup_eq_some_iff_mem h.cells, List.mem_map]
  constructor
  · rintro ⟨⟨place, _⟩, hmove, rfl⟩
    exact ⟨place, hmove⟩
  · rintro ⟨place, hmove⟩
    exact ⟨_, hmove, rfl⟩

/-- A cell is new to one place only. -/
theorem place_eq (h : w.Movable moves) {place place' : Nat × String} {content content' : Cell}
    (hmove : (place, cell, content) ∈ moves) (hmove' : (place', cell, content') ∈ moves) :
    place = place' := by
  have hkeys : (moves.map fun move => (move.2.1, move.1)).map Prod.fst =
      (moves.map Prod.snd).map Prod.fst := by
    rw [List.map_map, List.map_map]
    rfl
  have hlookup {place : Nat × String} {content : Cell} (hmove : (place, cell, content) ∈ moves) :
      (moves.map fun move => (move.2.1, move.1)).lookup cell = some place :=
    (lookup_eq_some_iff_mem (hkeys ▸ h.cells)).2 (List.mem_map.2 ⟨_, hmove, rfl⟩)
  exact Option.some.inj ((hlookup hmove).symm.trans (hlookup hmove'))

/-- After such moves nothing else is different. -/
theorem rebound (h : w.Movable moves) : w.Rebound moves.home? (w.moved moves) where
  names := names_moved w moves
  places := variableAt?_moved w moves
  housed {level name cell} hhome := by
    obtain ⟨content, hmove⟩ := h.home?_eq_some_iff.1 hhome
    obtain ⟨v, hv, hkind, hstorage⟩ := h.owned hmove
    refine ⟨v, content.value, content, hv, hstorage, ?_, hkind.symm, rfl⟩
    have hold : w.cells.entries.lookup cell = none := (h.unused hmove).1
    show List.lookup _ (_ ++ _) = _
    rw [List.lookup_append, hold, Option.none_or, h.lookup_cells]
    exact ⟨_, hmove⟩
  fresh {level name v cell} hv hcell level' name' hhome := by
    obtain ⟨content, hmove⟩ := h.home?_eq_some_iff.1 hhome
    exact (h.unused hmove).2 hv hcell
  apart {level name level' name' cell} hhome hhome' := by
    obtain ⟨_, hmove⟩ := h.home?_eq_some_iff.1 hhome
    obtain ⟨_, hmove'⟩ := h.home?_eq_some_iff.1 hhome'
    exact Prod.mk.inj (h.place_eq hmove hmove')
  cells {cell} hcell := by
    have hnew : (moves.map Prod.snd).lookup cell = none := by
      refine Option.eq_none_iff_forall_ne_some.2 fun content hcontent => ?_
      obtain ⟨⟨level, name⟩, hmove⟩ := h.lookup_cells.1 hcontent
      exact hcell level name (h.home?_eq_some_iff.2 ⟨content, hmove⟩)
    show List.lookup _ (_ ++ _) = _
    rw [List.lookup_append, hnew, Option.or_none]
    rfl
  stopping := rfl
  state := rfl

end Movable

end World

end NumScript
