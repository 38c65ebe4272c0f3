import NumScript.Host.Recorder
import NumScript.Proofs.Script.Changes

set_option autoImplicit false

/-! # The root grows by exports only

A run never removes a variable that a host can see, never moves one and never changes its shape: its
kind, the cell it is bound to, its read-only flag and its watcher. It adds plain numbers at the end of
the root, and only for names that a statement `export` had as operands (`World.Grown`). So a name
that was only declared by `var` or `pop` is not found at the root afterwards.

Each change of a run is such a growth, and growths compose, so the statement about runs needs no
other invariant. Hosts may assign to variables at any time, but not add or remove any.
-/

namespace NumScript

variable {ω σ : Type}

namespace World

/-! ## Worlds with the same variables

A write changes numbers and nothing else, so it relates a world to one with the same variables. -/

/-- The two worlds have the same variables, up to their numbers. -/
structure SameVariables (w u : World ω σ) : Prop where
  names : u.chain.map Dict.names = w.chain.map Dict.names
  shapes : ∀ level name, u.shape? level name = w.shape? level name

theorem SameVariables.refl (w : World ω σ) : w.SameVariables w :=
  ⟨rfl, fun _ _ => rfl⟩

theorem SameVariables.trans {w u v : World ω σ} (h : w.SameVariables u) (h' : u.SameVariables v) :
    w.SameVariables v :=
  ⟨h'.names.trans h.names, fun level name => (h'.shapes level name).trans (h.shapes level name)⟩

theorem IsWrite.sameVariables {w u : World ω σ} {level : Nat} {name : String} {v : Variable ω}
    {x : Float} (h : w.IsWrite u level name v x) : w.SameVariables u :=
  ⟨h.names, h.shape?_eq⟩

theorem SameVariables.assign? {notify : Notify ω σ}
    (h : ∀ watcher x (w : World ω σ), w.SameVariables (notify watcher x w)) {w u : World ω σ}
    {name : String} {x : Float} (hu : w.assign? notify name x = some u) : w.SameVariables u := by
  obtain ⟨⟨after, notice?⟩, hstore, rfl⟩ := Option.map_eq_some_iff.1 hu
  obtain ⟨_, _, hwrite, _⟩ := World.store?_eq_some hstore
  exact hwrite.sameVariables.trans (Notify.deliver_rel .refl h notice? after)

/-! ## Growth

Growth is transitive, and this is what makes one step enough. What was added in a first part keeps
its place and its shape in a second. -/

/-- Exported names are added at the end of the root, as plain numbers, and nothing else happens to
the variables, up to their numbers. -/
structure Grown (exported : String → Prop) (added : List String) (w u : World ω σ) : Prop where
  root : u.root.names = w.root.names ++ added
  parents : u.parents.map Dict.names = w.parents.map Dict.names
  kept : ∀ level name, (w.shape? level name).isSome = true →
    u.shape? level name = w.shape? level name
  new : ∀ name ∈ added, exported name ∧ u.shape? 0 name = some .plain

variable {exported : String → Prop} {w u v : World ω σ}

theorem SameVariables.grown (h : w.SameVariables u) : Grown exported [] w u := by
  obtain ⟨hroot, hparents⟩ := List.cons.inj h.names
  refine ⟨?_, hparents, fun level name _ => h.shapes level name, fun name hname => ?_⟩
  · rw [hroot, List.append_nil]
  · cases hname

theorem Grown.trans {added added' : List String} (h : Grown exported added w u)
    (h' : Grown exported added' u v) : Grown exported (added ++ added') w v := by
  refine ⟨?_, h'.parents.trans h.parents, fun level name hsome => ?_, fun name hname => ?_⟩
  · rw [h'.root, h.root, List.append_assoc]
  · have hkept := h.kept level name hsome
    rw [h'.kept level name (by rw [hkept]; exact hsome), hkept]
  · rcases List.mem_append.1 hname with hname | hname
    · obtain ⟨hexported, hplain⟩ := h.new name hname
      refine ⟨hexported, ?_⟩
      rw [h'.kept 0 name (by rw [hplain]; rfl), hplain]
    · exact h'.new name hname

theorem grown_add {name : String} {x : Variable ω} {root : Scope ω} (hname : exported name)
    (hx : x.shape = .plain) (h : w.root.add? name x = some root) :
    Grown exported [name] w { w with root } := by
  obtain ⟨hnew, hentries⟩ := Dict.add?_eq_some_iff.1 h
  have hshape (level : Nat) (other : String) :
      ({ w with root } : World ω σ).shape? level other =
        (w.shape? level other).or (if level = 0 ∧ other = name then some .plain else none) := by
    unfold shape?
    rw [variableAt?_add h, Option.map_or]
    split
    · rw [Option.map_some, hx]
    · rfl
  refine ⟨?_, rfl, fun level other hsome => ?_, fun other hother => ?_⟩
  · show root.entries.map Prod.fst = _
    rw [hentries, List.map_append]
    rfl
  · obtain ⟨shape, hother⟩ := Option.isSome_iff_exists.1 hsome
    rw [hshape, hother, Option.some_or]
  · rcases List.mem_singleton.1 hother with rfl
    refine ⟨hname, ?_⟩
    -- the root did not have the name before
    have hnone : w.shape? 0 other = none := by
      rw [← Dict.contains_iff_mem_names, Dict.contains, Bool.not_eq_true,
        Option.isSome_eq_false_iff, Option.isNone_iff_eq_none] at hnew
      exact congrArg (Option.map Variable.shape) hnew
    rw [hshape, hnone, Option.none_or, if_pos ⟨rfl, rfl⟩]

end World

/-! ## Runs

Each of the four changes of a run is a growth. The call of a native function is one by what is asked
of the host. -/

namespace Script

/-- Native functions and watchers change variables only by assigning numbers to them. -/
structure Host.OnlyAssigns (host : Host ω σ) : Prop where
  natives : ∀ name f, Dict.find? host.bindings name = some f →
    ∀ args (w : World ω σ), w.SameVariables (f args w).2
  watchers : ∀ watcher x (w : World ω σ), w.SameVariables (host.notify watcher x w)

/-- A watcher that records leaves the variables alone. -/
theorem sameVariables_notify (watcher : Recorder.Watcher) (x : Float)
    (w : Recorder.RecordedWorld) : w.SameVariables (Recorder.notify watcher x w) :=
  ⟨rfl, fun _ _ => rfl⟩

/-- The simple native functions of a host that records assign at most. -/
theorem sameVariables_native (f : Recorder.Stock) (name : String) (args : List Float)
    (w : Recorder.RecordedWorld) : w.SameVariables (f.native name args w).2 := by
  have hnote : w.SameVariables (Recorder.note w (.called name args)) := ⟨rfl, fun _ _ => rfl⟩
  refine hnote.trans ?_
  show World.SameVariables _ (f.apply args (Recorder.note w (.called name args))).2
  generalize Recorder.note w (.called name args) = w
  cases f with
  | set key =>
      unfold Recorder.Stock.apply
      dsimp only
      split
      · rename_i u hu
        exact .assign? sameVariables_notify hu
      · exact .refl w
  | terminate => exact ⟨rfl, fun _ _ => rfl⟩
  | sum | count | first | last => exact .refl w
  | const x => exact .refl w
  | get key => exact .refl w

section

variable {host : Host ω σ} {exported handed : String → Prop} {w u : World ω σ}

theorem Change.grown (hhost : host.OnlyAssigns) (h : Change host exported handed w u) :
    ∃ added, World.Grown exported added w u := by
  cases h with
  | call args hnative => exact ⟨[], (hhost.natives _ _ hnative args w).grown⟩
  | write hwrite _ =>
      have htold := Notify.deliver_rel World.SameVariables.refl hhost.watchers
      exact ⟨[], (hwrite.sameVariables.trans (htold _ _)).grown⟩
  | add hname hplain hadd => exact ⟨_, World.grown_add hname hplain hadd⟩

theorem Changes.grown (hhost : host.OnlyAssigns) (h : Changes host exported handed w u) :
    ∃ added, World.Grown exported added w u := by
  induction h with
  | refl => exact ⟨[], (World.SameVariables.refl w).grown⟩
  | tail _ hchange ih =>
      obtain ⟨added, hgrown⟩ := ih
      obtain ⟨added', hgrown'⟩ := hchange.grown hhost
      exact ⟨added ++ added', hgrown.trans hgrown'⟩

end

/-- Whatever a script does and however its run ends, the root has its variables in the old order,
followed by plain numbers with names that the script exported, and the scopes behind it have the
names they had. All variables that were there have the shape they had. A name that the script did not
export is at the root afterwards only if it was before. -/
theorem Interpreter.evaluate_grown (i : Interpreter ω σ) (h : i.host.OnlyAssigns) (steps : Nat)
    (script : String) (params : Option (List Float)) :
    let w := i.machine.world
    let u := (i.evaluate steps script params).2.machine.world
    (∃ added, World.Grown (i.Exports steps script params) added w u) ∧
      ∀ name, ¬ i.Exports steps script params name → (name ∈ u.root.names ↔ name ∈ w.root.names) := by
  intro w u
  obtain ⟨added, hgrown⟩ := (i.evaluate_changes steps script params).grown h
  refine ⟨⟨added, hgrown.root, hgrown.parents, hgrown.kept, hgrown.new⟩, fun name hname => ?_⟩
  have hroot : u.root.names = w.root.names ++ added := hgrown.root
  rw [hroot, List.mem_append]
  exact ⟨fun hmem => hmem.resolve_right fun hadded => hname (hgrown.new name hadded).1, .inl⟩

/-- A host with a native function that assigns to the variable `a`, which scripts may not do. -/
def Interpreter.withPut : Interpreter Recorder.Watcher Recorder.Record where
  host :=
    { bindings := ⟨[("put", (Recorder.Stock.set "a").native "put")]⟩, notify := Recorder.notify }
  machine :=
    { world := { root := ⟨[("a", { readonly := true })]⟩, parents := [⟨[("b", {})]⟩], state := [] } }

theorem Interpreter.onlyAssigns_withPut : Interpreter.withPut.host.OnlyAssigns := by
  refine ⟨fun name f hf args w => ?_, sameVariables_notify⟩
  rw [Dict.eq_of_find?_singleton hf]
  exact sameVariables_native (.set "a") "put" args w

/-- The main statement for a script that exports the parameter of a subroutine, which it calls in a
loop, and a name of its own. -/
theorem Interpreter.evaluate_grown_loop :
    let i := Interpreter.withPut
    let script := "define f; pop p; export p; call put p; end; " ++
      "var l; while l < 2; set l l + 1; goto f l; done; export k; set b l; pop q;"
    let u := (i.evaluate 30 script none).2.machine.world
    u.root.names = ["a", "p", "k"] ∧ i.host.OnlyAssigns ∧
      ∃ added, World.Grown (i.Exports 30 script none) added i.machine.world u := by
  refine ⟨?_, onlyAssigns_withPut, (evaluate_grown _ onlyAssigns_withPut 30 _ none).1⟩
  decide +kernel

end Script

end NumScript
