import NumScript.Proofs.Store.Assignment
import NumScript.Script.Interpreter

set_option autoImplicit false

/-! # Exported names

A name that a running script exports is withdrawn from its frame (`Withdrawn`) and arrives at the
root in one of four ways (`Arrival`). A local variable is written through to the variable that the
root has of this name, or it moves to the end of the root. Without a local variable nothing happens
if the name is visible at the root, and otherwise a number is declared there. The parents of the root
stay as they are, though a name may be visible through them.

All other variables stay where they are. They keep their numbers as well, unless they are bound to
the cell that is written through to (`export_transfers`, `export_writes_shared`). What the watcher
does when it is told the number comes after that. Once a name is visible at the root, exporting it
again changes nothing.
-/

namespace NumScript

theorem Dict.contains_erase {β : Type} (d : Dict β) (name : String) :
    (d.erase name).contains name = false := by
  rw [contains, find?_erase, if_pos rfl]
  rfl

/-- Where a name is not there, nothing is taken away. -/
theorem Dict.erase_of_not_contains {β : Type} {d : Dict β} {name : String}
    (h : d.contains name = false) : d.erase name = d := by
  have hall : ∀ entry ∈ d.entries, (entry.1 != name) = true := by
    intro entry hentry
    rw [bne_iff_ne]
    rintro rfl
    rw [contains_iff_mem_names.2 (List.mem_map_of_mem hentry)] at h
    cases h
  rw [erase, List.filter_eq_self.2 hall]

namespace Script

variable {ω σ : Type}

/-! ## What an export does

The four ways to arrive are told apart by what is there before. Which of them it is depends on the
scope of the frame, on the root and on the parents of the root, in this order. -/

/-- The activation `b` is `a` without the local variable of this name. -/
structure Withdrawn (a b : Activation ω) (name : String) : Prop where
  rest : b = { a with locals := b.locals }
  gone : b.locals.contains name = false
  names : b.locals.names = a.locals.names.filter (· != name)
  others : ∀ other, other ≠ name → b.locals.find? other = a.locals.find? other

/-- How a name that is withdrawn from a frame arrives at the root, with the notice that is due. -/
inductive Arrival (a b : Activation ω) (w u : World ω σ) (name : String) :
    Option (Notice ω) → Prop
  /-- The root has a variable of this name, and the number of the local one is written to it. Scope
  zero is that of the frame and scope one the root. -/
  | written {v r : Variable ω} : a.locals.find? name = some v → w.root.find? name = some r →
      u.value? name = some (r.kind.coerce (v.value w.cells)) →
      AssignedAt (Chain.scopeAt (b.chain w)) (Chain.scopeAt (b.chain u)) w.cells u.cells 1 name r
        (v.value w.cells) →
      Arrival a b w u name (r.watcher.map fun watcher => ⟨watcher, r.kind.coerce (v.value w.cells)⟩)
  /-- The root has none, and the local variable itself becomes its last one. -/
  | moved {v : Variable ω} : a.locals.find? name = some v → w.root.contains name = false →
      u = { w with root := ⟨w.root.entries ++ [(name, v)]⟩ } →
      u.value? name = some (v.value w.cells) → Arrival a b w u name none
  | visible : a.locals.contains name = false → Chain.contains w.chain name = true → u = w →
      Arrival a b w u name none
  | fresh : a.locals.contains name = false → Chain.contains w.chain name = false →
      u = { w with root := ⟨w.root.entries ++ [(name, .zero .number)]⟩ } →
      u.value? name = some 0.0 → Arrival a b w u name none

/-- What an export changes, up to the notice that is due. -/
structure Transferred (a b : Activation ω) (w u : World ω σ) (name : String)
    (notice? : Option (Notice ω)) : Prop where
  withdrawn : Withdrawn a b name
  arrival : Arrival a b w u name notice?
  visible : Chain.contains u.chain name = true
  parents : u.parents = w.parents
  stopping : u.stopping = w.stopping
  state : u.state = w.state

/-! ## The frame

A frame loses the one variable and keeps the others in their order. -/

section

variable {a : Activation ω} {w : World ω σ} {name : String}

theorem withdrawn_erase (a : Activation ω) (name : String) :
    Withdrawn a { a with locals := a.locals.erase name } name where
  rest := rfl
  gone := Dict.contains_erase a.locals name
  names := Dict.names_erase a.locals name
  others other h := by rw [Dict.find?_erase, if_neg h]

theorem withdrawn_self (h : a.locals.contains name = false) : Withdrawn a a name := by
  have herase := withdrawn_erase a name
  rwa [Dict.erase_of_not_contains h] at herase

/-- The variables that are left fit their cells. -/
theorem fitAll_erase {cells : Cells} (h : FitAll (Chain.scopeAt (a.chain w)) cells) :
    FitAll (Chain.scopeAt (({ a with locals := a.locals.erase name } : Activation ω).chain w))
      cells := by
  intro key other v hv
  cases key with
  | zero =>
      rw [Chain.find?_scopeAt] at hv
      change (a.locals.erase name).find? other = some v at hv
      rw [Dict.find?_erase] at hv
      split at hv
      · cases hv
      · exact h 0 other v ((Chain.find?_scopeAt ..).trans hv)
  | succ key => exact h (key + 1) other v hv

/-! ## The root

The root is written at one name, extended by one or left alone. Its parents are never touched, and
so neither is a variable that the name means in one of them. -/

theorem contains_of_value? {x : Float} (h : w.value? name = some x) :
    Chain.contains w.chain name = true := by
  obtain ⟨v, hfind, -⟩ := Option.map_eq_some_iff.1 h
  rw [Chain.find?_eq_variableAt?] at hfind
  obtain ⟨level, hlevel, -⟩ := Option.bind_eq_some_iff.1 hfind
  rw [Chain.contains_eq_isSome_level?, hlevel]
  rfl

theorem not_contains_root (h : Chain.contains w.chain name = false) :
    w.root.contains name = false := by
  rw [World.chain, Chain.contains, List.any_cons, Bool.or_eq_false_iff] at h
  exact h.1

/-- What a name means that is put at the end of the root. -/
theorem value?_append (h : w.root.contains name = false) (v : Variable ω) :
    World.value? { w with root := ⟨w.root.entries ++ [(name, v)]⟩ } name =
      some (v.value w.cells) := by
  have hnone := Dict.find?_eq_none_of_not_contains (Bool.eq_false_iff.1 h)
  rw [World.value?, Chain.value?, World.chain, Chain.find?, List.findSome?_cons, Dict.find?_append,
    hnone, if_pos rfl]
  rfl

/-- A root variable is written. Among the scopes of a frame that does not have the name this is a
write at level one. -/
theorem assigned_of_root {b : Activation ω} (houter : b.outer = none)
    (hfits : FitAll (Chain.scopeAt (b.chain w)) w.cells) (hgone : b.locals.contains name = false)
    {r : Variable ω} (hr : w.root.find? name = some r) (notify : Notify ω σ) (x : Float) :
    ∃ u, w.assign? notify name x =
        some (notify.deliver (r.watcher.map fun watcher => ⟨watcher, r.kind.coerce x⟩) u) ∧
      u.value? name = some (r.kind.coerce x) ∧
      AssignedAt (Chain.scopeAt (b.chain w)) (Chain.scopeAt (b.chain u)) w.cells u.cells 1 name r x ∧
      u.parents = w.parents ∧ u.stopping = w.stopping ∧ u.state = w.state := by
  have hchain : b.chain w = b.locals :: w.chain := by rw [Activation.chain, houter]; rfl
  have hlevel : Chain.level? (b.chain w) name = some 1 := by
    rw [hchain, Chain.level?_cons, if_neg (Bool.eq_false_iff.1 hgone), World.chain,
      Chain.level?_cons, if_pos (Dict.contains_of_find? hr)]
    rfl
  have hvariable : Chain.variableAt? (b.chain w) 1 name = some r := by rw [hchain]; exact hr
  obtain ⟨hassigned, hat⟩ := Chain.assigned_modify hfits hlevel hvariable x
  let u : World ω σ :=
    { w with root := w.root.replace name (r.store w.cells x).1, cells := (r.store w.cells x).2 }
  have hwritten : b.chain u = (b.chain w).modify 1 (Dict.replace · name (r.store w.cells x).1) := by
    rw [hchain, Activation.chain, houter]
    rfl
  rw [← hwritten] at hassigned hat
  refine ⟨u, ?_, ?_, hat, rfl, rfl, rfl⟩
  · rw [← hassigned.notice, World.assign?, World.store?, Scope.store?, hr]
    rfl
  · -- the frame does not have the name, so there it means the same as at the root
    have hvalue := hassigned.value
    have hnone := Dict.find?_eq_none_of_not_contains (Bool.eq_false_iff.1 hgone)
    rwa [Activation.chain, houter, Chain.value?, Chain.find?, List.findSome?_cons, hnone] at hvalue

end

/-! ## One name

One lemma for each way, and each leaves the notice that is due to be delivered at the end. -/

section

variable {a : Activation ω} {w : World ω σ} {name : String} {host : Host ω σ} {v : Variable ω}

theorem exportName_written (hlocal : a.locals.find? name = some v)
    (hroot : w.root.contains name = true) :
    exportName host a w name =
      ({ a with locals := a.locals.erase name },
        (w.assign? host.notify name (v.value w.cells)).getD w) := by
  unfold exportName
  rw [hlocal]
  exact if_pos hroot

theorem exportName_moved (hlocal : a.locals.find? name = some v)
    (hroot : w.root.contains name = false) :
    exportName host a w name =
      ({ a with locals := a.locals.erase name },
        { w with root := ⟨w.root.entries ++ [(name, v)]⟩ }) := by
  unfold exportName
  rw [hlocal]
  dsimp only
  rw [hroot, if_neg Bool.false_ne_true, Dict.add?, hroot, if_neg Bool.false_ne_true]
  rfl

theorem exportName_visible (hlocal : a.locals.contains name = false)
    (hvisible : Chain.contains w.chain name = true) : exportName host a w name = (a, w) := by
  unfold exportName
  rw [Dict.find?_eq_none_of_not_contains (Bool.eq_false_iff.1 hlocal)]
  dsimp only
  rw [if_pos hvisible]

theorem exportName_fresh (hlocal : a.locals.contains name = false)
    (hvisible : Chain.contains w.chain name = false) :
    exportName host a w name =
      (a, { w with root := ⟨w.root.entries ++ [(name, .zero .number)]⟩ }) := by
  have hroot := not_contains_root hvisible
  unfold exportName
  rw [Dict.find?_eq_none_of_not_contains (Bool.eq_false_iff.1 hlocal)]
  dsimp only
  rw [hvisible, if_neg Bool.false_ne_true, Scope.declare, Dict.add?, hroot,
    if_neg Bool.false_ne_true]
  rfl

/-- A name is exported: it is withdrawn from the frame and arrives at the root, and then the notice
is delivered. -/
theorem exportName_transfers (houter : a.outer = none)
    (hfits : FitAll (Chain.scopeAt (a.chain w)) w.cells) (host : Host ω σ) (name : String) :
    ∃ b u notice?, exportName host a w name = (b, host.notify.deliver notice? u) ∧
      Transferred a b w u name notice? := by
  cases hlocal : a.locals.find? name with
  | some v =>
      have hwithdrawn := withdrawn_erase a name
      cases hroot : w.root.find? name with
      -- the root has the name: its variable is written
      | some r =>
          obtain ⟨u, hassign, hvalue, hat, hparents, hstopping, hstate⟩ :=
            assigned_of_root (b := { a with locals := a.locals.erase name }) houter
              (fitAll_erase hfits) hwithdrawn.gone hroot host.notify (v.value w.cells)
          refine ⟨_, u, _, ?_, hwithdrawn, .written hlocal hroot hvalue hat,
            contains_of_value? hvalue, hparents, hstopping, hstate⟩
          rw [exportName_written hlocal (Dict.contains_of_find? hroot), hassign]
          rfl
      | none =>
          -- the variable itself moves to the root
          have hcontains : w.root.contains name = false := by rw [Dict.contains, hroot]; rfl
          have hvalue := value?_append hcontains v
          exact ⟨_, _, none, exportName_moved hlocal hcontains, hwithdrawn,
            .moved hlocal hcontains rfl hvalue, contains_of_value? hvalue, rfl, rfl, rfl⟩
  | none =>
      have hgone : a.locals.contains name = false := by rw [Dict.contains, hlocal]; rfl
      cases hvisible : Chain.contains w.chain name with
      -- nothing is done for a name that is visible at the root
      | true =>
          exact ⟨a, w, none, exportName_visible hgone hvisible, withdrawn_self hgone,
            .visible hgone hvisible rfl, hvisible, rfl, rfl, rfl⟩
      | false =>
          have hroot := not_contains_root hvisible
          have hvalue := value?_append hroot (.zero .number)
          exact ⟨a, _, none, exportName_fresh hgone hvisible, withdrawn_self hgone,
            .fresh hgone hvisible rfl hvalue, contains_of_value? hvalue, rfl, rfl, rfl⟩

end

/-! ## The statement

A second export finds no local variable, so it comes down to whether the name is visible at the root
by then. It is, unless the watcher took it away. -/

section

variable {f : Frame ω} {m : Machine ω σ} {word : List Char}

/-- A statement that exports names does so one after the other. -/
theorem declare_export (hmode : f.mode = .execute) (hword : word ≠ []) (host : Host ω σ)
    (rest : List Char) (more : List (List Char × List Char)) :
    declare host .exportVar f m ((word, rest) :: more) =
      let exported := exportName host f.toActivation m.world (String.ofList word)
      declare host .exportVar { f with toActivation := exported.1, rest }
        { m with world := exported.2 } more := by
  simp only [declare, if_neg hword, declareName]
  rw [if_pos (by rw [hmode]; rfl)]

/-- A frame whose outer scopes are those of the world exports a name. The name is withdrawn from the
frame and arrives at the root, everything else stays as it was, and then the watcher of the root
variable is told the number if it was written. Exporting the name once more changes nothing, unless
the watcher removed it. -/
theorem export_transfers (hmode : f.mode = .execute) (houter : f.outer = none)
    (hfits : FitAll (Chain.scopeAt (f.chain m.world)) m.world.cells) (hword : word ≠ [])
    (host : Host ω σ) (rest : List Char) :
    let name := String.ofList word
    ∃ b u notice?, Transferred f.toActivation b m.world u name notice? ∧
      let after := host.notify.deliver notice? u
      let f' : Frame ω := { f with toActivation := b, rest }
      let m' : Machine ω σ := { m with world := after }
      (∀ more, declare host .exportVar f m ((word, rest) :: more) =
          declare host .exportVar f' m' more) ∧
        (Chain.contains after.chain name = true →
          ∀ rest' more, declare host .exportVar f' m' ((word, rest') :: more) =
            declare host .exportVar { f' with rest := rest' } m' more) := by
  intro name
  obtain ⟨b, u, notice?, hexport, htransferred⟩ := exportName_transfers houter hfits host name
  refine ⟨b, u, notice?, htransferred, fun more => ?_, fun hvisible rest' more => ?_⟩
  · rw [declare_export hmode hword, hexport]
  · have hmode' : b.mode = .execute := by
      rw [htransferred.withdrawn.rest]
      exact hmode
    rw [declare_export hmode' hword, exportName_visible htransferred.withdrawn.gone hvisible]

end

/-- A watched integer `x` at the root, and another variable of this name behind it. -/
def watchedWorld : World Unit (List Float) where
  root := ⟨[("x", { kind := .integer, watcher := some () }), ("y", .ofNumber 1.0)]⟩
  parents := [⟨[("x", .ofNumber 7.0)]⟩]
  state := []

/-- The main statement for a number that is written through to an integer. Five halves are exported,
the root holds two and its watcher is told two. -/
theorem export_transfers_integer :
    let host : Host Unit (List Float) :=
      { notify := fun _ x w => { w with state := x :: w.state } }
    let f : Frame Unit := { locals := ⟨[("x", .ofNumber 2.5)]⟩, rest := " x;".toList }
    let m : Machine Unit (List Float) := { world := watchedWorld }
    (f.mode = .execute ∧ f.outer = none ∧
        FitAll (Chain.scopeAt (f.chain m.world)) m.world.cells) ∧
      ∃ b u notice?, Transferred f.toActivation b m.world u "x" notice? ∧
        u.value? "x" = some 2.0 ∧ (host.notify.deliver notice? u).state = [2.0] ∧
        ∀ more, declare host .exportVar f m ((['x'], [';']) :: more) =
          declare host .exportVar { f with toActivation := b, rest := [';'] }
            { m with world := host.notify.deliver notice? u } more := by
  intro host f m
  have hfits : FitAll (Chain.scopeAt (f.chain m.world)) m.world.cells := by
    refine Chain.fitAll_scopeAt fun s hs entry hentry cell hcell => ?_
    -- no variable is bound to a cell
    have howned : ∀ s ∈ f.chain m.world, ∀ entry ∈ s.entries, entry.2.cell? = none := by decide
    rw [howned s hs entry hentry] at hcell
    cases hcell
  obtain ⟨b, u, notice?, htransferred, hdeclare, -⟩ :=
    export_transfers rfl rfl hfits (List.cons_ne_nil 'x' []) host [';']
  refine ⟨⟨rfl, rfl, hfits⟩, b, u, notice?, htransferred, ?_⟩
  have htwo : Kind.integer.coerce 2.5 = 2.0 := by decide +kernel
  have hstate : u.state = [] := htransferred.state
  -- the frame has the name and so has the root, so the number was written
  cases htransferred.arrival with
  | written hlocal hroot hvalue _ =>
      cases hlocal
      cases hroot
      refine ⟨hvalue.trans (congrArg some htwo), ?_, hdeclare⟩
      have hdelivered (x : Float) : (host.notify.deliver (some ⟨(), x⟩) u).state = x :: u.state := rfl
      exact (hdelivered _).trans (by rw [hstate]; exact congrArg (fun x => [x]) htwo)
  | moved _ hroot => cases hroot
  | visible hlocal | fresh hlocal => cases hlocal

/-- What is written through to a root variable is seen by those that are bound to the same cell, and
a watcher may remove the variable, so that the name is declared anew when it is exported again. -/
theorem export_writes_shared :
    let bound (watcher : Option Unit) : Variable Unit :=
      { kind := .number, storage := .bound "cell", watcher }
    let world : World Unit Unit :=
      { root := ⟨[("x", bound (some ())), ("y", bound none)]⟩, cells := ⟨[("cell", .number 5.0)]⟩,
        state := () }
    let host : Host Unit Unit := { notify := fun _ _ w => w }
    let removing : Host Unit Unit :=
      { notify := fun _ _ w => { w with root := w.root.erase "x" } }
    let after (host : Host Unit Unit) (script : String) : World Unit Unit :=
      ((Interpreter.ofWorld host world {}).evaluate 9 script none).2.machine.world
    world.value? "y" = some 5.0 ∧
      (after host "var x; set x 2; export x;").value? "y" = some 2.0 ∧
      (after removing "var x; set x 2; export x;").value? "x" = none ∧
      (after removing "var x; set x 2; export x, x;").value? "x" = some 0.0 := by
  decide +kernel

end Script

end NumScript
