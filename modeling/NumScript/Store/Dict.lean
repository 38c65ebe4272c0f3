set_option autoImplicit false

/-! # Dictionaries in insertion order

Names with values, in the order in which the names were first put in. Every table of the library is
such a dictionary: the variables of a scope, the host's cells, the native functions and the
subroutines. Removing a name keeps the order of the others, and renaming keeps the place. -/

namespace NumScript

/-- Names with values, in insertion order. -/
structure Dict (β : Type) where
  entries : List (String × β) := []

namespace Dict

variable {β : Type}

def names (d : Dict β) : List String :=
  d.entries.map Prod.fst

def find? (d : Dict β) (name : String) : Option β :=
  d.entries.lookup name

def contains (d : Dict β) (name : String) : Bool :=
  (d.find? name).isSome

/-- A new name at the end; nothing if the name is taken. -/
def add? (d : Dict β) (name : String) (value : β) : Option (Dict β) :=
  if d.contains name then none else some ⟨d.entries ++ [(name, value)]⟩

/-- A new value for a name that is there, in its place. -/
def replace (d : Dict β) (name : String) (value : β) : Dict β :=
  ⟨d.entries.map fun entry => if entry.1 = name then (name, value) else entry⟩

/-- A value for a name: in its place if the name is there, else at the end. -/
def put (d : Dict β) (name : String) (value : β) : Dict β :=
  (d.add? name value).getD (d.replace name value)

def erase (d : Dict β) (name : String) : Dict β :=
  ⟨d.entries.filter fun entry => entry.1 != name⟩

/-! ## Places

Renaming keeps the place of an entry. The three steps it is made of, taking an entry out, putting it
in again and moving it back, are operations of their own, and that they amount to a change of one
name is a theorem about them. -/

/-- The place of a name in the order. -/
def place? (d : Dict β) (name : String) : Option Nat :=
  d.entries.findIdx? fun entry => entry.1 == name

/-- Takes a name out: the place at which it stood, its value, and all the others. -/
def takeOut? (d : Dict β) (name : String) : Option (Nat × β × Dict β) := do
  let place ← d.place? name
  let value ← d.find? name
  return (place, value, d.erase name)

/-- A value for a name as in `put`, and the place at which the name then stands. -/
def putPlaced (d : Dict β) (name : String) (value : β) : Nat × Dict β :=
  ((d.place? name).getD d.entries.length, d.put name value)

/-- The entry at one place moved to another. Those between the two make room. -/
def move (d : Dict β) (source target : Nat) : Dict β :=
  match d.entries[source]? with
  | some entry => ⟨(d.entries.eraseIdx source).insertIdx target entry⟩
  | none => d

/-- Another name for a value, in the same place. The old name must be there, and the new one must
not, unless it is the old one. The value is taken out and put in again at the end, and from there it
is moved back to its place. -/
def rename? (d : Dict β) (old new : String) : Option (Dict β) :=
  if old = new then if d.contains old then some d else none
  else if d.contains new then none
  else
    (d.takeOut? old).map fun (place, value, others) =>
      let (last, renamed) := others.putPlaced new value
      renamed.move last place

def sortedNames (d : Dict β) : List String :=
  d.names.mergeSort fun a b => a ≤ b

/-! ## What the operations do to the names and to the look-up

A dictionary is used through its names and its look-up only, so these lemmas are all that the rest
of the development knows of the list behind it. -/

theorem find?_cons (key name : String) (value : β) (rest : List (String × β)) :
    find? ⟨(key, value) :: rest⟩ name = if name = key then some value else find? ⟨rest⟩ name := by
  rw [find?, List.lookup_cons]
  by_cases h : name = key
  · simp [h]
  · simp [h, beq_eq_false_iff_ne.2 h, find?]

theorem contains_iff_mem_names {d : Dict β} {name : String} :
    d.contains name = true ↔ name ∈ d.names := by
  obtain ⟨entries⟩ := d
  induction entries with
  | nil => simp [contains, find?, names]
  | cons entry rest ih =>
    obtain ⟨key, value⟩ := entry
    rw [contains, names] at ih ⊢
    rw [find?_cons, List.map_cons, List.mem_cons, ← ih]
    by_cases h : name = key <;> simp [h]

theorem add?_eq_some_iff {d e : Dict β} {name : String} {value : β} :
    d.add? name value = some e ↔ name ∉ d.names ∧ e.entries = d.entries ++ [(name, value)] := by
  rw [← contains_iff_mem_names, add?]
  obtain ⟨entries⟩ := e
  by_cases h : d.contains name = true <;> simp [h, eq_comm]

theorem add?_of_mem {d : Dict β} {name : String} (h : name ∈ d.names) (value : β) :
    d.add? name value = none :=
  if_pos (contains_iff_mem_names.2 h)

theorem add?_of_not_mem {d : Dict β} {name : String} (h : name ∉ d.names) (value : β) :
    d.add? name value = some ⟨d.entries ++ [(name, value)]⟩ :=
  if_neg fun hcontains => h (contains_iff_mem_names.1 hcontains)

theorem find?_eq_none_of_not_contains {d : Dict β} {name : String}
    (h : ¬ d.contains name = true) : d.find? name = none := by
  rwa [contains, Bool.not_eq_true, Option.isSome_eq_false_iff, Option.isNone_iff_eq_none] at h

@[simp] theorem names_replace (d : Dict β) (name : String) (value : β) :
    (d.replace name value).names = d.names := by
  simp only [names, replace, List.map_map]
  refine List.map_congr_left fun entry _ => ?_
  by_cases h : entry.1 = name <;> simp [h]

theorem find?_replace (d : Dict β) (name key : String) (value : β) :
    (d.replace name value).find? key =
      if key = name then (d.find? name).map fun _ => value else d.find? key := by
  obtain ⟨entries⟩ := d
  induction entries with
  | nil => simp [replace, find?]
  | cons entry rest ih =>
    obtain ⟨k, v⟩ := entry
    rw [replace] at ih ⊢
    rw [List.map_cons, find?_cons k key, find?_cons k name]
    by_cases hk : k = name
    · subst hk
      rw [if_pos rfl, find?_cons, ih]
      by_cases h : key = k <;> simp [h]
    · rw [if_neg hk, find?_cons, ih]
      by_cases h : key = name
      · subst h
        simp [Ne.symm hk]
      · simp [h]

theorem find?_append (d : Dict β) (name key : String) (value : β) :
    find? ⟨d.entries ++ [(name, value)]⟩ key =
      (d.find? key).or (if key = name then some value else none) := by
  obtain ⟨entries⟩ := d
  induction entries with
  | nil => rw [List.nil_append, find?_cons]; rfl
  | cons entry rest ih =>
    obtain ⟨k, v⟩ := entry
    rw [List.cons_append, find?_cons, find?_cons, ih]
    by_cases h : key = k <;> simp [h]

theorem find?_put (d : Dict β) (name key : String) (value : β) :
    (d.put name value).find? key = if key = name then some value else d.find? key := by
  rw [put, add?]
  by_cases hname : d.contains name = true
  · obtain ⟨old, hold⟩ := Option.isSome_iff_exists.1 hname
    rw [if_pos hname, Option.getD_none, find?_replace, hold]
    rfl
  · rw [contains, Bool.not_eq_true, Option.isSome_eq_false_iff, Option.isNone_iff_eq_none] at hname
    rw [contains, hname, if_neg (by simp), Option.getD_some, find?_append]
    by_cases h : key = name
    · rw [if_pos h, if_pos h, h, hname]
      rfl
    · rw [if_neg h, if_neg h, Option.or_none]

@[simp] theorem names_erase (d : Dict β) (name : String) :
    (d.erase name).names = d.names.filter (· != name) := by
  simp only [names, erase, List.filter_map]
  rfl

end Dict

end NumScript
