import Mathlib.Data.List.Nodup
import NumScript.Store.Forest

set_option autoImplicit false

/-! # Scopes as lists of variables

What a forest of scopes is for a user who only sees the answers: a list of scopes, each with the
number of its parent and with its variables by name, in the order in which they were added. Every
operation on scopes is explained on such lists alone (`Edit.Means`, `Operation.Means`). Only one list
changes in an operation. A removed entry leaves the others in their order, a renamed one stays where
it is, and an assignment is made in the first scope with the name on the way through the parents.

The main statement is `Forest.performAll_means`. Whatever is done to scopes, one operation after the
other, the answers and the contents are those of the lists, and the lists admit no others. Since a
name never stands twice in a scope, it does not matter that a scope finds the entry of a name from
the front, nor that renaming goes by way of the end of the scope.
-/

namespace NumScript

/-! ## One entry of a dictionary

With distinct names a dictionary has at most one entry of a name. So it is split by this entry in one
way only, and what concerns the name concerns what stands at the split. -/

namespace Dict

variable {β : Type} {front back : List (String × β)} {name : String} {value : β}

theorem exists_entry {d : Dict β} (h : name ∈ d.names) :
    ∃ front value back, d.entries = front ++ (name, value) :: back := by
  obtain ⟨⟨key, value⟩, hentry, rfl⟩ := List.mem_map.1 h
  obtain ⟨front, back, hsplit⟩ := List.append_of_mem hentry
  exact ⟨front, value, back, hsplit⟩

theorem names_entry (front : List (String × β)) (name : String) (value : β)
    (back : List (String × β)) :
    names ⟨front ++ (name, value) :: back⟩ =
      front.map Prod.fst ++ name :: back.map Prod.fst := by
  simp [names]

theorem not_mem_of_nodup (h : (names ⟨front ++ (name, value) :: back⟩).Nodup) :
    name ∉ front.map Prod.fst ∧ name ∉ back.map Prod.fst := by
  rw [names_entry, List.nodup_middle, List.nodup_cons, List.mem_append, not_or] at h
  exact h.1

theorem find?_entry (h : name ∉ front.map Prod.fst) :
    find? ⟨front ++ (name, value) :: back⟩ name = some value := by
  induction front with
  | nil =>
      rw [List.nil_append, find?_cons, if_pos rfl]
  | cons entry front ih =>
      rw [List.map_cons, List.mem_cons, not_or] at h
      rw [List.cons_append, find?_cons, if_neg h.1, ih h.2]

theorem place?_eq_none {d : Dict β} (h : name ∉ d.names) : d.place? name = none := by
  rw [place?, List.findIdx?_eq_none_iff]
  intro entry hentry
  rw [beq_eq_false_iff_ne]
  rintro rfl
  exact h (List.mem_map_of_mem hentry)

theorem place?_entry (h : name ∉ front.map Prod.fst) :
    place? ⟨front ++ (name, value) :: back⟩ name = some front.length := by
  have hfront : place? ⟨front⟩ name = none := place?_eq_none h
  rw [place?] at hfront ⊢
  simp [List.findIdx?_append, List.findIdx?_cons, hfront]

theorem erase_of_not_mem {d : Dict β} (h : name ∉ d.names) : d.erase name = d := by
  rw [erase, List.filter_eq_self.2]
  intro entry hentry
  rw [bne_iff_ne]
  rintro rfl
  exact h (List.mem_map_of_mem hentry)

theorem erase_entry (h : (names ⟨front ++ (name, value) :: back⟩).Nodup) :
    erase ⟨front ++ (name, value) :: back⟩ name = ⟨front ++ back⟩ := by
  obtain ⟨hfront, hback⟩ := not_mem_of_nodup h
  have hrest : name ∉ names ⟨front ++ back⟩ := by
    rw [names, List.map_append, List.mem_append]
    exact not_or.2 ⟨hfront, hback⟩
  rw [← erase_of_not_mem hrest]
  simp [erase]

theorem replace_entry (h : (names ⟨front ++ (name, value) :: back⟩).Nodup) (fresh : β) :
    replace ⟨front ++ (name, value) :: back⟩ name fresh = ⟨front ++ (name, fresh) :: back⟩ := by
  obtain ⟨hfront, hback⟩ := not_mem_of_nodup h
  have hkeep {part : List (String × β)} (hpart : name ∉ part.map Prod.fst) :
      part.map (fun entry => if entry.1 = name then (name, fresh) else entry) = part := by
    refine (List.map_congr_left fun entry hentry => if_neg ?_).trans (List.map_id _)
    rintro rfl
    exact hpart (List.mem_map_of_mem hentry)
  rw [replace, List.map_append, List.map_cons, hkeep hfront, hkeep hback, if_pos rfl]

theorem insertIdx_length {α : Type} (front back : List α) (x : α) :
    (front ++ back).insertIdx front.length x = front ++ x :: back := by
  induction front with
  | nil => rfl
  | cons y front ih => simp [ih]

/-- An entry that was put in last comes back to any place. -/
theorem move_last (front back : List (String × β)) (entry : String × β) :
    move ⟨front ++ back ++ [entry]⟩ (front ++ back).length front.length =
      ⟨front ++ entry :: back⟩ := by
  rw [move, List.getElem?_concat_length]
  simp [List.eraseIdx_append_of_length_le, insertIdx_length]

theorem rename?_eq_none {d : Dict β} {old new : String}
    (h : old ∉ d.names ∨ (new ≠ old ∧ new ∈ d.names)) : d.rename? old new = none := by
  have hcontains {key : String} (hkey : key ∉ d.names) : ¬ d.contains key = true := by
    rwa [contains_iff_mem_names]
  by_cases hsame : old = new
  · have hold : old ∉ d.names := h.resolve_right fun hnew => hnew.1 hsame.symm
    rw [rename?, if_pos hsame, if_neg (hcontains hold)]
  · by_cases hnew : new ∈ d.names
    · rw [rename?, if_neg hsame, if_pos (contains_iff_mem_names.2 hnew)]
    · have hold : old ∉ d.names := h.resolve_right fun htaken => hnew htaken.2
      rw [rename?, if_neg hsame, if_neg (hcontains hnew), takeOut?, place?_eq_none hold]
      rfl

/-- Renaming by way of the end changes the name of one entry, wherever it stands. -/
theorem rename?_entry {new : String} (h : (names ⟨front ++ (name, value) :: back⟩).Nodup)
    (hnew : new ∉ names ⟨front ++ (name, value) :: back⟩) :
    rename? ⟨front ++ (name, value) :: back⟩ name new = some ⟨front ++ (new, value) :: back⟩ := by
  obtain ⟨hfront, -⟩ := not_mem_of_nodup h
  have hne : name ≠ new := by
    rintro rfl
    exact hnew (by simp [names_entry])
  have htaken : ¬ contains ⟨front ++ (name, value) :: back⟩ new = true := by
    rwa [contains_iff_mem_names]
  have hrest : new ∉ names ⟨front ++ back⟩ := by
    rw [names_entry, List.mem_append, List.mem_cons] at hnew
    rw [names, List.map_append, List.mem_append]
    exact fun hmem => hnew (hmem.imp_right .inr)
  have hput : put ⟨front ++ back⟩ new value = ⟨front ++ back ++ [(new, value)]⟩ := by
    rw [put, add?_of_not_mem hrest, Option.getD_some]
  -- without the old name, the new one goes to the end, and from there to the old place
  rw [rename?, if_neg hne, if_neg htaken, takeOut?, place?_entry hfront, find?_entry hfront,
    erase_entry h]
  show some (move _ _ _) = _
  rw [place?_eq_none hrest, hput, Option.getD_none, move_last]

end Dict

variable {ω : Type}

/-! ## What they mean for lists

The explanation that the operations are measured against. It is given by rules, one or two for each
operation, in terms of list concatenation: where an entry stands is written out as what is before it
and what is behind. No rule mentions a place in the order by its number, a search by recursion or
the way in which renaming is carried out. -/

abbrev Listing (ω : Type) := List (String × Variable ω)

def Listing.names (l : Listing ω) : List String :=
  l.map Prod.fst

/-- What an edit answers and makes of the list of variables of a scope. A name that is taken is not
added again, a removed entry leaves the others in their order, and a renamed one keeps its place and
its variable. -/
inductive Edit.Means : Edit ω → Listing ω → Answer ω → Listing ω → Prop
  | added {l : Listing ω} {name : String} {v : Variable ω} (h : name ∉ l.names) :
      Means (.add name v) l (.success true) (l ++ [(name, v)])
  | taken {l : Listing ω} {name : String} {v : Variable ω} (h : name ∈ l.names) :
      Means (.add name v) l (.success false) l
  | declared {l l' : Listing ω} {name : String} {answer : Answer ω}
      (h : Means (.add name (.zero .number)) l answer l') : Means (.declare name) l answer l'
  | removed {front back : Listing ω} {name : String} {v : Variable ω} :
      Means (.remove name) (front ++ (name, v) :: back) (.removed (some v)) (front ++ back)
  | absent {l : Listing ω} {name : String} (h : name ∉ l.names) :
      Means (.remove name) l (.removed none) l
  | deleted {l l' : Listing ω} {name : String} {v? : Option (Variable ω)}
      (h : Means (.remove name) l (.removed v?) l') :
      Means (.delete name) l (.success v?.isSome) l'
  | renamed {front back : Listing ω} {old new : String} {v : Variable ω}
      (h : new = old ∨ new ∉ Listing.names (front ++ (old, v) :: back)) :
      Means (.rename old new) (front ++ (old, v) :: back) (.success true)
        (front ++ (new, v) :: back)
  | notRenamed {l : Listing ω} {old new : String}
      (h : old ∉ l.names ∨ (new ≠ old ∧ new ∈ l.names)) :
      Means (.rename old new) l (.success false) l
  | cleared {l : Listing ω} : Means .clear l .cleared []

structure Sheet (ω : Type) where
  parent : Option Nat
  listing : Listing ω

structure Register (ω : Type) where
  sheets : List (Sheet ω)
  cells : Cells

/-- The search for a name from a scope on, through the parents: the first scope that has it. -/
inductive Register.Search (r : Register ω) (name : String) : Nat → Option Nat → Prop
  | here {i : Nat} {parent : Option Nat} {l : Listing ω} (hi : r.sheets[i]? = some ⟨parent, l⟩)
      (h : name ∈ l.names) : Search r name i (some i)
  | root {i : Nat} {l : Listing ω} (hi : r.sheets[i]? = some ⟨none, l⟩) (h : name ∉ l.names) :
      Search r name i none
  | outer {i parent : Nat} {l : Listing ω} {found : Option Nat}
      (hi : r.sheets[i]? = some ⟨some parent, l⟩) (h : name ∉ l.names)
      (hparent : Search r name parent found) : Search r name i found

/-- What an operation answers and makes of the scopes. An edit leaves alone the parent of its scope
and all other scopes. -/
inductive Operation.Means : Operation ω → Register ω → Answer ω → Register ω → Prop
  | new {sheets : List (Sheet ω)} {cells : Cells} :
      Means .new ⟨sheets, cells⟩ (.scope sheets.length) ⟨sheets ++ [⟨none, []⟩], cells⟩
  | child {sheets : List (Sheet ω)} {cells : Cells} {parent : Nat} :
      Means (.child parent) ⟨sheets, cells⟩ (.scope sheets.length)
        ⟨sheets ++ [⟨some parent, []⟩], cells⟩
  | edit {before after : List (Sheet ω)} {parent : Option Nat} {l l' : Listing ω} {cells : Cells}
      {e : Edit ω} {answer : Answer ω} (h : e.Means l answer l') :
      Means (.edit before.length e) ⟨before ++ ⟨parent, l⟩ :: after, cells⟩ answer
        ⟨before ++ ⟨parent, l'⟩ :: after, cells⟩
  | assigned {before after : List (Sheet ω)} {parent : Option Nat} {front back : Listing ω}
      {cells : Cells} {i : Nat} {name : String} {v : Variable ω} {x : Float}
      (h : Register.Search ⟨before ++ ⟨parent, front ++ (name, v) :: back⟩ :: after, cells⟩ name i
        (some before.length)) :
      Means (.assign i name x) ⟨before ++ ⟨parent, front ++ (name, v) :: back⟩ :: after, cells⟩
        (.assigned ((v.store cells x).1.notice? (v.store cells x).2))
        ⟨before ++ ⟨parent, front ++ (name, (v.store cells x).1) :: back⟩ :: after,
          (v.store cells x).2⟩
  | unknown {r : Register ω} {i : Nat} {name : String} {x : Float} (h : r.Search name i none) :
      Means (.assign i name x) r (.unknown ⟨name⟩) r

/-- Operations, one after the other. -/
inductive Operation.AllMean : List (Operation ω) → Register ω → List (Answer ω) → Register ω → Prop
  | nil {r : Register ω} : AllMean [] r [] r
  | cons {op : Operation ω} {more : List (Operation ω)} {r r' r'' : Register ω} {answer : Answer ω}
      {answers : List (Answer ω)} (h : op.Means r answer r') (hmore : AllMean more r' answers r'') :
      AllMean (op :: more) r (answer :: answers) r''

/-! ## Edits

For each edit the list admits one result, and it is the one of the dictionary. Both are shown by
splitting the list at the entry of the name, which is possible in one way since the names are
distinct. -/

namespace Edit

variable {e : Edit ω} {l l' : Listing ω} {answer : Answer ω}

theorem names_entry_eq (front : Listing ω) (name : String) (v : Variable ω) (back : Listing ω) :
    Listing.names (front ++ (name, v) :: back) =
      Listing.names front ++ name :: Listing.names back :=
  Dict.names_entry front name v back

/-- Names stay distinct. -/
theorem Means.nodup (h : e.Means l answer l') (hl : l.names.Nodup) : l'.names.Nodup := by
  induction h with
  | taken _ | absent _ | notRenamed _ => exact hl
  | declared _ ih | deleted _ ih => exact ih hl
  | cleared => exact List.nodup_nil
  | @added l name v h =>
      have hnames : Listing.names (l ++ [(name, v)]) = l.names ++ [name] := by
        simp [Listing.names]
      rw [hnames, ← List.concat_eq_append]
      exact hl.concat h
  | @removed front back name v =>
      rw [names_entry_eq, List.nodup_middle, List.nodup_cons] at hl
      have hnames : Listing.names (front ++ back) = front.names ++ back.names := by
        simp [Listing.names]
      rw [hnames]
      exact hl.2
  | @renamed front back old new v h =>
      rcases h with rfl | h
      · exact hl
      · rw [names_entry_eq] at hl h ⊢
        rw [List.nodup_middle, List.nodup_cons] at hl ⊢
        refine ⟨fun hmem => h ?_, hl.2⟩
        rw [List.mem_append, List.mem_cons]
        exact (List.mem_append.1 hmem).imp_right .inr

/-- Every edit means something. -/
theorem exists_means (e : Edit ω) (l : Listing ω) : ∃ answer l', e.Means l answer l' := by
  have hadd (name : String) (v : Variable ω) : ∃ answer l', Means (.add name v) l answer l' := by
    by_cases h : name ∈ l.names
    · exact ⟨_, _, .taken h⟩
    · exact ⟨_, _, .added h⟩
  have hremove (name : String) : ∃ v? l', Means (.remove name) l (.removed v?) l' := by
    by_cases h : name ∈ l.names
    · obtain ⟨front, v, back, rfl⟩ := Dict.exists_entry (d := ⟨l⟩) h
      exact ⟨_, _, .removed⟩
    · exact ⟨_, _, .absent h⟩
  cases e with
  | add name v => exact hadd name v
  | declare name =>
      obtain ⟨answer, l', h⟩ := hadd name (.zero .number)
      exact ⟨answer, l', .declared h⟩
  | remove name =>
      obtain ⟨v?, l', h⟩ := hremove name
      exact ⟨.removed v?, l', h⟩
  | delete name =>
      obtain ⟨v?, l', h⟩ := hremove name
      exact ⟨.success v?.isSome, l', .deleted h⟩
  | rename old new =>
      by_cases hnew : new ≠ old ∧ new ∈ l.names
      · exact ⟨_, _, .notRenamed (.inr hnew)⟩
      · by_cases hold : old ∈ l.names
        · obtain ⟨front, v, back, rfl⟩ := Dict.exists_entry (d := ⟨l⟩) hold
          refine ⟨_, _, .renamed ?_⟩
          rwa [not_and_or, not_not] at hnew
        · exact ⟨_, _, .notRenamed (.inl hold)⟩
  | clear => exact ⟨_, _, .cleared⟩

end Edit

/-! ## A forest and its register

The register of a forest forgets nothing, so the two can be turned into each other. Operations are
compared on the side of the register, where scopes are lists on sheets. -/

namespace Register

def forest (r : Register ω) : Forest ω :=
  ⟨r.sheets.map fun sheet => ⟨sheet.parent, ⟨sheet.listing⟩⟩⟩

/-- What operations rely on and keep: no name stands twice in a scope, and parents are older. -/
structure Sound (r : Register ω) : Prop where
  nodup : ∀ sheet ∈ r.sheets, sheet.listing.names.Nodup
  older : ∀ {i parent : Nat} {l : Listing ω}, r.sheets[i]? = some ⟨some parent, l⟩ → parent < i

variable {r : Register ω} {i : Nat} {parent : Option Nat} {l : Listing ω}

theorem scope_forest (h : r.sheets[i]? = some ⟨parent, l⟩) : r.forest.scope i = ⟨l⟩ := by
  simp [Forest.scope, forest, h]

theorem parent?_forest (h : r.sheets[i]? = some ⟨parent, l⟩) : r.forest.parent? i = parent := by
  simp [Forest.parent?, forest, h]

theorem contains_scope_forest (h : r.sheets[i]? = some ⟨parent, l⟩) (name : String) :
    (r.forest.scope i).contains name = true ↔ name ∈ l.names := by
  rw [scope_forest h]
  exact Dict.contains_iff_mem_names

theorem getElem?_entry (before after : List (Sheet ω)) (sheet : Sheet ω) :
    (before ++ sheet :: after)[before.length]? = some sheet := by
  simp

theorem getElem?_entry_of_ne {before after : List (Sheet ω)} (hi : i ≠ before.length)
    (sheet sheet' : Sheet ω) :
    (before ++ sheet :: after)[i]? = (before ++ sheet' :: after)[i]? := by
  rcases Nat.lt_or_gt_of_ne hi with hlt | hgt
  · rw [List.getElem?_append_left hlt, List.getElem?_append_left hlt]
  · rw [List.getElem?_append_right (by omega), List.getElem?_append_right (by omega)]
    obtain ⟨k, hk⟩ : ∃ k, i - before.length = k + 1 := ⟨i - before.length - 1, by omega⟩
    rw [hk, List.getElem?_cons_succ, List.getElem?_cons_succ]

theorem exists_sheet {sheets : List (Sheet ω)} {sheet : Sheet ω} (h : sheets[i]? = some sheet) :
    ∃ before after, before.length = i ∧ sheets = before ++ sheet :: after := by
  obtain ⟨hlt, hget⟩ := List.getElem?_eq_some_iff.1 h
  refine ⟨sheets.take i, sheets.drop (i + 1), ?_, ?_⟩
  · rw [List.length_take]
    omega
  · rw [← hget, List.getElem_cons_drop, List.take_append_drop]

theorem modify_entry {α : Type} (before after : List α) (x : α) (f : α → α) :
    (before ++ x :: after).modify before.length f = before ++ f x :: after := by
  induction before with
  | nil => rfl
  | cons y before ih => simp [ih]

/-- Another content for one scope is another list on one sheet. -/
theorem setScope_forest (before after : List (Sheet ω)) (parent : Option Nat) (l l' : Listing ω)
    (cells cells' : Cells) :
    (forest ⟨before ++ ⟨parent, l⟩ :: after, cells⟩).setScope before.length ⟨l'⟩ =
      forest ⟨before ++ ⟨parent, l'⟩ :: after, cells'⟩ := by
  have h := modify_entry (before.map fun sheet => (⟨sheet.parent, ⟨sheet.listing⟩⟩ : Node ω))
    (after.map fun sheet => ⟨sheet.parent, ⟨sheet.listing⟩⟩) ⟨parent, ⟨l⟩⟩
    fun node => { node with scope := ⟨l'⟩ }
  rw [List.length_map] at h
  simp only [Forest.setScope, forest, List.map_append, List.map_cons]
  exact congrArg Forest.mk h

end Register

/-- An edit of a scope in a forest is one on the list of the scope, and nothing else changes. -/
theorem Edit.Means.edit_forest {e : Edit ω} {l l' : Listing ω} {answer : Answer ω}
    (h : e.Means l answer l') (hl : l.names.Nodup) (before after : List (Sheet ω))
    (parent : Option Nat) (cells : Cells) :
    (Register.forest ⟨before ++ ⟨parent, l⟩ :: after, cells⟩).edit before.length e =
      (answer, Register.forest ⟨before ++ ⟨parent, l'⟩ :: after, cells⟩) := by
  have hscope (l : Listing ω) :
      (Register.forest ⟨before ++ ⟨parent, l⟩ :: after, cells⟩).scope before.length = ⟨l⟩ :=
    Register.scope_forest (Register.getElem?_entry before after ⟨parent, l⟩)
  have hset (l l' : Listing ω) :=
    Register.setScope_forest before after parent l l' cells cells
  induction h with
  | @added l name v h =>
      have hadd : Dict.add? ⟨l⟩ name v = some ⟨l ++ [(name, v)]⟩ := Dict.add?_of_not_mem h v
      simp only [Forest.edit, Forest.add?, hscope, hadd, Option.map_some, hset]
      rfl
  | @taken l name v h =>
      have hadd : Dict.add? ⟨l⟩ name v = none := Dict.add?_of_mem h v
      simp only [Forest.edit, Forest.add?, hscope, hadd, Option.map_none]
      rfl
  | declared _ ih => exact ih hl
  | @removed front back name v =>
      have hfind : Dict.find? ⟨front ++ (name, v) :: back⟩ name = some v :=
        Dict.find?_entry (Dict.not_mem_of_nodup hl).1
      simp only [Forest.edit, Forest.erase, hscope, hfind, Dict.erase_entry hl, hset]
  | @absent l name h =>
      have hfind : Dict.find? (⟨l⟩ : Scope ω) name = none :=
        Dict.find?_eq_none_of_not_contains fun hc => h (Dict.contains_iff_mem_names.1 hc)
      simp only [Forest.edit, Forest.erase, hscope, hfind, Dict.erase_of_not_mem h, hset]
  | @deleted l l' name v? _ ih =>
      have hedit := ih hl
      simp only [Forest.edit, hscope, Prod.mk.injEq, Answer.removed.injEq] at hedit ⊢
      exact ⟨congrArg (fun v? => Answer.success v?.isSome) hedit.1, hedit.2⟩
  | @renamed front back old new v h =>
      have hrename : Dict.rename? ⟨front ++ (old, v) :: back⟩ old new =
          some ⟨front ++ (new, v) :: back⟩ := by
        -- the same name again, or one that no entry has
        rcases h with rfl | h
        · have hcontains : Dict.contains ⟨front ++ (new, v) :: back⟩ new = true := by
            rw [Dict.contains, Dict.find?_entry (Dict.not_mem_of_nodup hl).1]
            rfl
          rw [Dict.rename?, if_pos rfl, if_pos hcontains]
        · exact Dict.rename?_entry hl h
      simp only [Forest.edit, Forest.rename?, hscope, hrename, Option.map_some, hset]
      rfl
  | @notRenamed l old new h =>
      have hrename : Dict.rename? (⟨l⟩ : Scope ω) old new = none := Dict.rename?_eq_none h
      simp only [Forest.edit, Forest.rename?, hscope, hrename, Option.map_none]
      rfl
  | @cleared l =>
      simp only [Forest.edit, Forest.clear]
      exact congrArg _ (hset l [])

/-! ## Operations

An operation that names a scope that does not exist has no meaning, and a host cannot name one: the
number of a scope is known only from the answer that made it. `AllKnown` says this of a list of
operations. From there it is an induction along the list, with soundness as the invariant. -/

namespace Register

variable {r : Register ω} {i : Nat} {name : String}

/-- The way from a scope through its parents, as the search goes it. -/
theorem home?_forest (hr : r.Sound) {found : Option Nat} (h : r.Search name i found) :
    r.forest.home? i name = found := by
  induction h with
  | here hi h =>
      have hcontains := (contains_scope_forest hi name).2 h
      rw [Forest.home?, Forest.path]
      split
      · split
        · rw [List.find?_cons, hcontains]
        · rw [List.find?_cons, hcontains]
      · rw [List.find?_cons, hcontains]
  | root hi h =>
      have hcontains := mt (contains_scope_forest hi name).1 h
      rw [Bool.not_eq_true] at hcontains
      rw [Forest.home?, Forest.path, parent?_forest hi]
      dsimp only
      rw [List.find?_cons, hcontains, List.find?_nil]
  | outer hi h _ ih =>
      have hcontains := mt (contains_scope_forest hi name).1 h
      rw [Bool.not_eq_true] at hcontains
      -- the way goes on only to a parent that is older
      rw [Forest.home?] at ih
      rw [Forest.home?, Forest.path, parent?_forest hi]
      dsimp only
      rw [if_pos (hr.older hi), List.find?_cons, hcontains, ih]

theorem exists_search (hr : r.Sound) (name : String) (hi : i < r.sheets.length) :
    ∃ found, r.Search name i found := by
  induction i using Nat.strongRecOn with
  | ind i ih =>
      have hsheet := List.getElem?_eq_getElem hi
      rcases hl : r.sheets[i] with ⟨parent, l⟩
      rw [hl] at hsheet
      by_cases hname : name ∈ l.names
      · exact ⟨_, .here hsheet hname⟩
      · cases parent with
        | none => exact ⟨_, .root hsheet hname⟩
        | some parent =>
            have holder := hr.older hsheet
            obtain ⟨found, h⟩ := ih parent holder (by omega)
            exact ⟨found, .outer hsheet hname h⟩

/-- A search that succeeds ends at a scope with the name. -/
theorem Search.exists_entry {found : Nat} (h : r.Search name i (some found)) :
    ∃ before parent front v back after, before.length = found ∧
      r.sheets = before ++ ⟨parent, front ++ (name, v) :: back⟩ :: after := by
  generalize hfound : some found = result at h
  induction h with
  | @here i parent l hi h =>
      cases hfound
      obtain ⟨front, v, back, rfl⟩ := Dict.exists_entry (d := ⟨l⟩) h
      obtain ⟨before, after, hlength, hsheets⟩ := exists_sheet hi
      exact ⟨before, parent, front, v, back, after, hlength, hsheets⟩
  | root _ _ => cases hfound
  | outer _ _ _ ih => exact ih hfound

theorem Sound.nodup_entry {before after : List (Sheet ω)} {parent : Option Nat} {l : Listing ω}
    {cells : Cells} (hr : Sound ⟨before ++ ⟨parent, l⟩ :: after, cells⟩) : l.names.Nodup :=
  hr.nodup ⟨parent, l⟩ (List.mem_append_right _ List.mem_cons_self)

/-- Another list for one scope, without a name twice, is as good. -/
theorem Sound.withListing {before after : List (Sheet ω)} {parent : Option Nat} {l l' : Listing ω}
    {cells cells' : Cells} (hr : Sound ⟨before ++ ⟨parent, l⟩ :: after, cells⟩)
    (hl : l'.names.Nodup) : Sound ⟨before ++ ⟨parent, l'⟩ :: after, cells'⟩ where
  nodup := by
    intro sheet hsheet
    rcases List.mem_append.1 hsheet with hbefore | hrest
    · exact hr.nodup sheet (List.mem_append_left _ hbefore)
    · rcases List.mem_cons.1 hrest with rfl | hafter
      · exact hl
      · exact hr.nodup sheet (List.mem_append_right _ (List.mem_cons_of_mem _ hafter))
  older := by
    intro i p l'' hi
    by_cases hwhere : i = before.length
    · subst hwhere
      rw [getElem?_entry] at hi
      cases hi
      exact hr.older (getElem?_entry before after ⟨some p, l⟩)
    · rw [getElem?_entry_of_ne hwhere ⟨parent, l'⟩ ⟨parent, l⟩] at hi
      exact hr.older hi

/-- A new scope with an older parent, or without one, is as good. -/
theorem Sound.withSheet {sheets : List (Sheet ω)} {cells : Cells} (hr : Sound ⟨sheets, cells⟩)
    {parent : Option Nat} (hparent : ∀ p, parent = some p → p < sheets.length) :
    Sound ⟨sheets ++ [⟨parent, []⟩], cells⟩ where
  nodup := by
    intro sheet hsheet
    rcases List.mem_append.1 hsheet with hold | hnew
    · exact hr.nodup sheet hold
    · rw [List.mem_singleton.1 hnew]
      exact List.nodup_nil
  older := by
    intro i p l hi
    rcases Nat.lt_or_ge i sheets.length with hold | hnew
    · rw [List.getElem?_append_left hold] at hi
      exact hr.older hi
    · rw [List.getElem?_append_right hnew, List.getElem?_singleton] at hi
      split at hi
      · cases hi
        have hp := hparent p rfl
        omega
      · cases hi

/-- A write is made where the search ends. -/
theorem store?_forest {before after : List (Sheet ω)} {parent : Option Nat} {front back : Listing ω}
    {v : Variable ω} {cells : Cells}
    (hr : Sound ⟨before ++ ⟨parent, front ++ (name, v) :: back⟩ :: after, cells⟩)
    (h : Search ⟨before ++ ⟨parent, front ++ (name, v) :: back⟩ :: after, cells⟩ name i
      (some before.length)) (x : Float) :
    (forest ⟨before ++ ⟨parent, front ++ (name, v) :: back⟩ :: after, cells⟩).store? cells i name x =
      some ⟨forest ⟨before ++ ⟨parent, front ++ (name, (v.store cells x).1) :: back⟩ :: after,
          (v.store cells x).2⟩, (v.store cells x).2,
        (v.store cells x).1.notice? (v.store cells x).2⟩ := by
  have hl := hr.nodup_entry
  rw [Forest.store?, home?_forest hr h]
  dsimp only [Option.bind_eq_bind, Option.bind_some]
  rw [scope_forest (getElem?_entry before after _), Scope.store?,
    Dict.find?_entry (Dict.not_mem_of_nodup hl).1]
  dsimp only [Option.map_some, Option.bind_some]
  rw [Dict.replace_entry hl, setScope_forest]
  rfl

theorem nodup_scope_forest (hr : r.Sound) (i : Nat) : (r.forest.scope i).names.Nodup := by
  cases hi : r.sheets[i]? with
  | none =>
      have hscope : r.forest.scope i = {} := by simp [Forest.scope, forest, hi]
      rw [hscope]
      exact List.nodup_nil
  | some sheet =>
      rw [scope_forest hi]
      exact hr.nodup sheet (List.mem_of_getElem? hi)

end Register

namespace Operation

/-- The scopes that an operation names exist. -/
def IsKnown (size : Nat) : Operation ω → Prop
  | .new => True
  | .child i | .edit i _ | .assign i _ _ => i < size

/-- How many scopes an operation makes. -/
def created : Operation ω → Nat
  | .new | .child _ => 1
  | .edit _ _ | .assign _ _ _ => 0

/-- Every operation names scopes that exist by then, if there are so many at first. -/
def AllKnown (size : Nat) : List (Operation ω) → Prop
  | [] => True
  | op :: more => op.IsKnown size ∧ AllKnown (size + op.created) more

variable {op : Operation ω} {r r' : Register ω} {answer : Answer ω}

/-- On a sound register every operation means something. -/
theorem exists_means (hr : r.Sound) (hop : op.IsKnown r.sheets.length) :
    ∃ answer r', op.Means r answer r' := by
  cases op with
  | new => exact ⟨_, _, .new⟩
  | child parent => exact ⟨_, _, .child⟩
  | edit i e =>
      obtain ⟨before, after, rfl, hsheets⟩ :=
        Register.exists_sheet (List.getElem?_eq_getElem (show i < r.sheets.length from hop))
      obtain ⟨sheets, cells⟩ := r
      generalize sheets[before.length] = sheet at hsheets
      subst hsheets
      obtain ⟨answer, l', h⟩ := e.exists_means sheet.listing
      exact ⟨_, _, .edit h⟩
  | assign i name x =>
      obtain ⟨found, h⟩ := Register.exists_search hr name hop
      cases found with
      | none => exact ⟨_, _, .unknown h⟩
      | some found =>
          obtain ⟨before, parent, front, v, back, after, rfl, hsheets⟩ := h.exists_entry
          obtain ⟨sheets, cells⟩ := r
          subst hsheets
          exact ⟨_, _, .assigned h⟩

theorem Means.length (h : op.Means r answer r') :
    r'.sheets.length = r.sheets.length + op.created := by
  cases h <;> simp [created]

theorem Means.sound (h : op.Means r answer r') (hr : r.Sound) (hop : op.IsKnown r.sheets.length) :
    r'.Sound := by
  cases h with
  | new => exact hr.withSheet fun p hp => by cases hp
  | child =>
      refine hr.withSheet fun p hp => ?_
      cases hp
      exact hop
  | edit h => exact hr.withListing (h.nodup hr.nodup_entry)
  | assigned _ =>
      have hl := hr.nodup_entry
      refine hr.withListing ?_
      rw [Edit.names_entry_eq] at hl ⊢
      exact hl
  | unknown _ => exact hr

/-- An operation on a forest is the operation on its register. -/
theorem Means.perform_forest (h : op.Means r answer r') (hr : r.Sound) :
    r.forest.perform r.cells op = (answer, r'.forest, r'.cells) := by
  cases h with
  | new => simp [Forest.perform, Forest.grow, Forest.size, Register.forest]
  | child => simp [Forest.perform, Forest.grow, Forest.size, Register.forest]
  | edit h =>
      rw [Forest.perform, h.edit_forest hr.nodup_entry]
  | assigned h =>
      rw [Forest.perform, Register.store?_forest hr h]
  | unknown h =>
      simp only [Forest.perform, Forest.store?, Register.home?_forest hr h]
      rfl

/-- Operations mean something, one after the other, and what they leave is sound. -/
theorem exists_allMean (ops : List (Operation ω)) {r : Register ω} (hr : r.Sound)
    (hops : AllKnown r.sheets.length ops) : ∃ answers r', AllMean ops r answers r' ∧ r'.Sound := by
  induction ops generalizing r with
  | nil => exact ⟨[], r, .nil, hr⟩
  | cons op more ih =>
      obtain ⟨hop, hmore⟩ := hops
      obtain ⟨answer, r', h⟩ := exists_means hr hop
      rw [← h.length] at hmore
      obtain ⟨answers, r'', hall, hr''⟩ := ih (h.sound hr hop) hmore
      exact ⟨answer :: answers, r'', .cons h hall, hr''⟩

theorem AllMean.performAll_forest {ops : List (Operation ω)} {r r' : Register ω}
    {answers : List (Answer ω)} (h : AllMean ops r answers r') (hr : r.Sound)
    (hops : AllKnown r.sheets.length ops) :
    r.forest.performAll r.cells ops = (answers, r'.forest, r'.cells) := by
  induction h with
  | nil => rfl
  | cons h _ ih =>
      obtain ⟨hop, hmore⟩ := hops
      rw [← h.length] at hmore
      rw [Forest.performAll, h.perform_forest hr]
      dsimp only
      rw [ih (h.sound hr hop) hmore]

end Operation

namespace Forest

def register (f : Forest ω) (cells : Cells) : Register ω :=
  ⟨f.nodes.map fun node => ⟨node.parent, node.scope.entries⟩, cells⟩

@[simp] theorem register_forest (r : Register ω) : r.forest.register r.cells = r := by
  obtain ⟨sheets, cells⟩ := r
  rw [register, Register.forest, List.map_map]
  exact congrArg (Register.mk · cells) (List.map_id sheets)

/-- Scopes are lists of variables with parents. Whatever is done to them, beginning with none, the
answers and the contents of all scopes are those of the lists, which admit no others, and no name
stands twice in a scope. -/
theorem performAll_means (ops : List (Operation ω)) (cells : Cells)
    (hops : Operation.AllKnown 0 ops) :
    let (answers, f, after) := performAll {} cells ops
    Operation.AllMean ops ⟨[], cells⟩ answers (f.register after) ∧
      (∀ answers' r, Operation.AllMean ops ⟨[], cells⟩ answers' r →
        answers' = answers ∧ r = f.register after) ∧
      ∀ i, (f.scope i).names.Nodup := by
  have hnone : Register.Sound (⟨[], cells⟩ : Register ω) :=
    ⟨fun _ hsheet => absurd hsheet List.not_mem_nil, fun hi => by cases hi⟩
  obtain ⟨answers, r, hall, hr⟩ := Operation.exists_allMean ops hnone hops
  have hperform := hall.performAll_forest hnone hops
  have hrun : performAll ({} : Forest ω) cells ops = (answers, r.forest, r.cells) := hperform
  rw [hrun]
  dsimp only
  rw [register_forest]
  refine ⟨hall, fun answers' r' hall' => ?_, fun i => ?_⟩
  · -- what the lists come to is what the forest comes to, and that is one thing
    have hperform' := hall'.performAll_forest hnone hops
    rw [hperform, Prod.mk.injEq, Prod.mk.injEq] at hperform'
    obtain ⟨hanswers, hforest, hcells⟩ := hperform'
    refine ⟨hanswers.symm, ?_⟩
    rw [← register_forest r', ← hforest, ← hcells, register_forest]
  · exact Register.nodup_scope_forest hr i

def shuffling : List (Operation Unit) :=
  [.new, .child 0, .edit 0 (.declare "a"), .edit 0 (.declare "b"), .edit 0 (.declare "c"),
    .edit 1 (.declare "b"), .edit 0 (.rename "a" "x"), .edit 0 (.rename "c" "z"),
    .edit 1 (.rename "b" "y"), .edit 0 (.rename "b" "z"), .assign 1 "b" 2, .edit 1 (.remove "b"),
    .edit 0 (.delete "z"), .edit 1 .clear]

/-- The main statement for these operations. -/
theorem performAll_means_shuffling :
    Operation.AllKnown 0 shuffling ∧
    let (answers, f, after) := performAll {} {} shuffling
    (f.scope 0).names = ["x", "b"] ∧ (f.scope 1).names = [] ∧ f.parent? 1 = some 0 ∧
    Operation.AllMean shuffling ⟨[], {}⟩ answers (f.register after) ∧
      (∀ answers' r, Operation.AllMean shuffling ⟨[], {}⟩ answers' r →
        answers' = answers ∧ r = f.register after) ∧
      ∀ i, (f.scope i).names.Nodup := by
  have hops : Operation.AllKnown 0 shuffling := by
    simp [shuffling, Operation.AllKnown, Operation.IsKnown, Operation.created]
  exact ⟨hops, by decide +kernel, by decide +kernel, by decide +kernel,
    performAll_means shuffling {} hops⟩

end Forest

end NumScript
