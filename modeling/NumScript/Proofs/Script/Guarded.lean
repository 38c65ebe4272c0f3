import NumScript.Proofs.Script.Growth

set_option autoImplicit false

/-! # Read-only variables

Of the statements that write, only `set` looks at the read-only flag. Taking a parameter writes to a
local variable, which is never read-only. Exporting a name writes its local variable through to a
variable of the root with the same name, read-only or not. So a variable that is read-only is
*guarded* (`World.IsGuarded`) unless it is at the root and a local variable of its name is handed
over.

A run leaves guarded variables alone: they hold the same numbers afterwards, and their watchers were
told nothing, since the run would have gone the same way whatever they do. This is shown for hosts
that do not write to variables on their own, and where no two variables share a cell: a cell can be
written through any variable that is bound to it.
-/

namespace NumScript

variable {ω σ : Type}

namespace World

/-! ## Guarded variables

A variable can be written through its cell by another variable. Where no two variables share a cell,
a write to a variable is a write to this variable only. -/

/-- The variable at a place is read-only, and if it is at the root its name is not handed over. -/
structure IsGuarded (handed : String → Prop) (w : World ω σ) (level : Nat) (name : String)
    (v : Variable ω) : Prop where
  found : w.variableAt? level name = some v
  readonly : v.readonly = true
  kept : level = 0 → ¬ handed name

/-- A run may not write to a guarded variable. -/
theorem IsGuarded.not_writable {handed : String → Prop} {w : World ω σ} {level : Nat}
    {name : String} {v : Variable ω} (h : w.IsGuarded handed level name v) :
    ¬ (v.readonly = false ∨ level = 0 ∧ handed name) := by
  rintro (hopen | ⟨hroot, hhanded⟩)
  · rw [h.readonly] at hopen
    cases hopen
  · exact h.kept hroot hhanded

def CellsApart (w : World ω σ) : Prop :=
  ∀ level name v level' name' v' cell, w.variableAt? level name = some v →
    w.variableAt? level' name' = some v' → v.cell? = some cell → v'.cell? = some cell →
    level = level' ∧ name = name'

theorem cellsApart_of_places {w : World ω σ}
    (h : ∀ x ∈ w.places, ∀ y ∈ w.places, x.2.2.cell?.isSome = true →
      x.2.2.cell? = y.2.2.cell? → x.1 = y.1 ∧ x.2.1 = y.2.1) : w.CellsApart := by
  intro level name v level' name' v' cell hv hv' hcell hcell'
  exact h _ (mem_places hv) _ (mem_places hv') (by rw [hcell]; rfl) (hcell.trans hcell'.symm)

/-- The two worlds have the same variables, with the same numbers. -/
structure SameNumbers (w u : World ω σ) : Prop where
  chain : u.chain = w.chain
  values : ∀ level name v, w.variableAt? level name = some v → v.value u.cells = v.value w.cells

theorem SameNumbers.refl (w : World ω σ) : w.SameNumbers w :=
  ⟨rfl, fun _ _ _ _ => rfl⟩

theorem SameNumbers.variableAt?_eq {w u : World ω σ} (h : w.SameNumbers u) (level : Nat)
    (name : String) : u.variableAt? level name = w.variableAt? level name := by
  unfold variableAt?
  rw [h.chain]

theorem SameNumbers.sameVariables {w u : World ω σ} (h : w.SameNumbers u) : w.SameVariables u := by
  refine ⟨by rw [h.chain], fun level name => ?_⟩
  rw [shape?, shape?, h.variableAt?_eq]

/-! ## Variables of a world that grew

A variable that is guarded at the beginning of a run is guarded throughout, since what is added
later is plain and what was there keeps its shape. -/

theorem isSome_shape?_iff {w : World ω σ} {level : Nat} {name : String} :
    (w.shape? level name).isSome = true ↔
      ∃ names, (w.chain.map Dict.names)[level]? = some names ∧ name ∈ names := by
  unfold shape? variableAt? Chain.variableAt?
  rw [Option.isSome_map, List.getElem?_map]
  cases w.chain[level]? with
  | none => simp
  | some s =>
      rw [Option.bind_some, Option.map_some, ← Dict.contains, Dict.contains_iff_mem_names]
      simp

/-- In a world that grew, a variable has the shape that it had, or is new and plain. -/
theorem Grown.shape?_cases {exported : String → Prop} {added : List String} {w u : World ω σ}
    (h : Grown exported added w u) (level : Nat) (name : String) :
    u.shape? level name = w.shape? level name ∨ u.shape? level name = some .plain := by
  by_cases hw : (w.shape? level name).isSome = true
  · exact .inl (h.kept level name hw)
  by_cases hu : (u.shape? level name).isSome = true
  · obtain ⟨names, hnames, hname⟩ := isSome_shape?_iff.1 hu
    cases level with
    | zero =>
        obtain rfl : u.root.names = names := Option.some.inj hnames
        rw [h.root, List.mem_append] at hname
        rcases hname with hname | hname
        · exact absurd (isSome_shape?_iff.2 ⟨_, rfl, hname⟩) hw
        · exact .inr (h.new name hname).2
    | succ outer =>
        -- no name is new behind the root
        have hparents : (w.parents.map Dict.names)[outer]? = some names := by
          rw [← h.parents]
          exact hnames
        exact absurd (isSome_shape?_iff.2 ⟨names, hparents, hname⟩) hw
  · rw [Bool.not_eq_true, Option.isSome_eq_false_iff, Option.isNone_iff_eq_none] at hw hu
    exact .inl (hu.trans hw.symm)

/-- A variable of a world that grew is an old one, up to its number, or plain. -/
theorem Grown.exists_old {exported : String → Prop} {added : List String} {w u : World ω σ}
    (h : Grown exported added w u) {level : Nat} {name : String} {v : Variable ω}
    (hv : u.variableAt? level name = some v) :
    (∃ v', w.variableAt? level name = some v' ∧ v'.shape = v.shape) ∨ v.shape = .plain := by
  have hshape : u.shape? level name = some v.shape := congrArg (Option.map Variable.shape) hv
  rcases h.shape?_cases level name with hold | hplain
  · rw [hold] at hshape
    exact .inl (Option.map_eq_some_iff.1 hshape)
  · exact .inr (Option.some.inj (hshape.symm.trans hplain))

theorem Grown.cellsApart {exported : String → Prop} {added : List String} {w u : World ω σ}
    (h : Grown exported added w u) (hw : w.CellsApart) : u.CellsApart := by
  -- a variable that is bound to a cell is an old one
  have old {level : Nat} {name : String} {v : Variable ω} {cell : String}
      (hv : u.variableAt? level name = some v) (hcell : v.cell? = some cell) :
      ∃ v', w.variableAt? level name = some v' ∧ v'.cell? = some cell := by
    rcases h.exists_old hv with ⟨v', hv', hshape⟩ | hplain
    · exact ⟨v', hv', (congrArg Shape.cell? hshape).trans hcell⟩
    · have hnone : v.cell? = none := congrArg Shape.cell? hplain
      rw [hnone] at hcell
      cases hcell
  intro level name v level' name' v' cell hv hv' hcell hcell'
  obtain ⟨o, ho, hocell⟩ := old hv hcell
  obtain ⟨o', ho', hocell'⟩ := old hv' hcell'
  exact hw level name o level' name' o' cell ho ho' hocell hocell'

end World

namespace Script

/-- Native functions and watchers do not write to variables. -/
structure Host.LeavesVariables (host : Host ω σ) : Prop where
  natives : ∀ name f, Dict.find? host.bindings name = some f →
    ∀ args (w : World ω σ), w.SameNumbers (f args w).2
  watchers : ∀ watcher x (w : World ω σ), w.SameNumbers (host.notify watcher x w)

theorem Host.LeavesVariables.onlyAssigns {host : Host ω σ} (h : host.LeavesVariables) :
    host.OnlyAssigns :=
  ⟨fun name f hf args w => (h.natives name f hf args w).sameVariables,
    fun watcher x w => (h.watchers watcher x w).sameVariables⟩

/-! ## Numbers

None of the four changes writes to a guarded variable: an assignment looks at the flag, and handing
over is what the definition leaves out. -/

section

variable {host : Host ω σ} {exported handed : String → Prop} {w u : World ω σ} {level : Nat}
  {name : String} {v : Variable ω}

/-- A change leaves guarded variables alone. -/
theorem Change.guards (hhost : host.LeavesVariables) (hcells : w.CellsApart)
    (h : Change host exported handed w u) (hv : w.IsGuarded handed level name v) :
    u.variableAt? level name = some v ∧ v.value u.cells = v.value w.cells := by
  cases h with
  | call args hnative =>
      have hsame := hhost.natives _ _ hnative args w
      rw [hsame.variableAt?_eq]
      exact ⟨hv.found, hsame.values level name v hv.found⟩
  | add _ _ hadd =>
      rw [World.variableAt?_add hadd, hv.found, Option.some_or]
      exact ⟨rfl, rfl⟩
  | @write u key other target x hwrite hmay =>
      -- the write goes to another place
      have helse : ¬ (level = key ∧ name = other) := by
        rintro ⟨rfl, rfl⟩
        obtain rfl : v = target := Option.some.inj (hv.found.symm.trans hwrite.found)
        exact hv.not_writable hmay
      have hfound : u.variableAt? level name = some v := by
        rw [hwrite.variableAt?_eq, if_neg helse]
        exact hv.found
      have hvalue : v.value u.cells = v.value w.cells := by
        rw [hwrite.cells]
        refine Variable.value_store_of_ne (fun cell hcell htarget => ?_) w.cells x
        exact helse (hcells _ _ _ _ _ _ cell hv.found hwrite.found hcell htarget)
      have htold := Notify.deliver_rel World.SameNumbers.refl hhost.watchers
        ((target.store w.cells x).1.notice? u.cells) u
      rw [htold.variableAt?_eq, htold.values level name v hfound]
      exact ⟨hfound, hvalue⟩

/-- A run leaves guarded variables alone. -/
theorem Changes.guards (hhost : host.LeavesVariables) (hcells : w.CellsApart)
    (h : Changes host exported handed w u) (hv : w.IsGuarded handed level name v) :
    u.variableAt? level name = some v ∧ v.value u.cells = v.value w.cells := by
  induction h with
  | refl => exact ⟨hv.found, rfl⟩
  | tail hbefore hchange ih =>
      obtain ⟨hfound, hvalue⟩ := ih
      obtain ⟨_, hgrown⟩ := Changes.grown hhost.onlyAssigns hbefore
      obtain ⟨hfound', hvalue'⟩ :=
        hchange.guards hhost (hgrown.cellsApart hcells) ⟨hfound, hv.readonly, hv.kept⟩
      exact ⟨hfound', hvalue'.trans hvalue⟩

end

/-! ## Watchers

That a watcher was told nothing is said by exchanging it: a run with other watchers of guarded
variables would be the same. Only watchers of variables that are not guarded have to agree. -/

def Host.withNotify (host : Host ω σ) (notify : Notify ω σ) : Host ω σ :=
  { host with notify }

/-- The two ways to answer a notice agree for the watchers of all variables that are not guarded. -/
def AgreeOffGuard (handed : String → Prop) (notify notify' : Notify ω σ) (w : World ω σ) : Prop :=
  ∀ level name v watcher, w.variableAt? level name = some v → v.watcher = some watcher →
    ¬ w.IsGuarded handed level name v → notify' watcher = notify watcher

section

variable {host : Host ω σ} {notify' : Notify ω σ} {exported handed : String → Prop}
  {w u : World ω σ}

/-- New variables have no watchers. -/
theorem AgreeOffGuard.of_grown {notify : Notify ω σ} {added : List String}
    (h : AgreeOffGuard handed notify notify' w) (hgrown : World.Grown exported added w u) :
    AgreeOffGuard handed notify notify' u := by
  intro level name v watcher hv hwatcher hopen
  rcases hgrown.exists_old hv with ⟨v', hv', hshape⟩ | hplain
  · refine h level name v' watcher hv' ((congrArg Shape.watcher hshape).trans hwatcher) fun hold => ?_
    exact hopen ⟨hv, (congrArg Shape.readonly hshape).symm.trans hold.readonly, hold.kept⟩
  · have hnone : v.watcher = none := congrArg Shape.watcher hplain
    rw [hnone] at hwatcher
    cases hwatcher

/-- A write that may be made tells only watchers on which the two agree. -/
theorem assign?_eq_of_agree {notify : Notify ω σ} (h : AgreeOffGuard handed notify notify' w)
    {name : String} {x : Float}
    (hwrite : ∀ level v, Chain.find? w.chain name = some v →
      (w.root.contains name = true → level = 0) → v.readonly = false ∨ level = 0 ∧ handed name) :
    w.assign? notify' name x = w.assign? notify name x := by
  unfold World.assign?
  cases hstore : w.store? name x with
  | none => rfl
  | some written =>
      obtain ⟨u, notice?⟩ := written
      obtain ⟨level, v, hiswrite, hfind, hlevel, rfl⟩ := World.store?_eq_some hstore
      have hopen : ¬ w.IsGuarded handed level name v :=
        fun hguard => hguard.not_writable (hwrite level v hfind hlevel)
      have hkept : (v.store w.cells x).1.watcher = v.watcher :=
        congrArg Shape.watcher (v.shape_store w.cells x)
      simp only [Option.map_some, Variable.notice?, hkept]
      cases hwatcher : v.watcher with
      | none => rfl
      | some watcher =>
          simp only [Option.map_some, Notify.deliver]
          rw [h level name v watcher hiswrite.found hwatcher hopen]

theorem exportName_withNotify (h : AgreeOffGuard handed host.notify notify' w) {a : Activation ω}
    {name : String} (hlocal : a.locals.contains name = true → handed name) :
    exportName (host.withNotify notify') a w name = exportName host a w name := by
  unfold exportName
  cases hv : Dict.find? a.locals name with
  | none => rfl
  | some v =>
      dsimp only
      split
      · rename_i hroot
        rw [show (host.withNotify notify').notify = notify' from rfl,
          assign?_eq_of_agree h fun level u _ hlevel => .inr ⟨hlevel hroot, ?_⟩]
        exact hlocal (Dict.contains_of_find? hv)
      · rfl

theorem popName_withNotify {a : Activation ω} (ha : a.IsRunning) (name : String) :
    popName (host.withNotify notify') a w name = popName host a w name := by
  unfold popName
  dsimp only
  split
  · rfl
  · rfl
  · rename_i x params _
    have hrunning := ha.declare_params name (some params)
    obtain ⟨v, hv⟩ := Scope.exists_find?_declare a.locals name
    rw [assign_of_local hrunning hv, assign_of_local hrunning hv]

theorem declareName_withNotify (h : AgreeOffGuard handed host.notify notify' w) {a : Activation ω}
    (ha : a.IsRunning) {sort : Declaration} {name : String}
    (hlocal : sort = .exportVar → a.locals.contains name = true → handed name) :
    declareName (host.withNotify notify') sort a w name = declareName host sort a w name := by
  unfold declareName
  cases sort with
  | var => rfl
  | exportVar => rw [exportName_withNotify h (hlocal rfl)]
  | pop => rw [popName_withNotify ha]

theorem declare_withNotify (hhost : host.OnlyAssigns) {sort : Declaration}
    {names : List (List Char × List Char)} {f : Frame ω} {m : Machine ω σ}
    (h : AgreeOffGuard handed host.notify notify' m.world) (hf : f.IsRunning)
    (hexport : sort = .exportVar → ∀ name ∈ declaredNames names,
      exported name ∧ (f.locals.contains name = true → handed name)) :
    declare (host.withNotify notify') sort f m names = declare host sort f m names := by
  induction names generalizing f m with
  | nil => rfl
  | cons read more ih =>
      obtain ⟨word, rest⟩ := read
      unfold declare
      dsimp only
      split
      · rfl
      rename_i hword
      rw [declaredNames_cons rest hword more] at hexport
      rw [declareName_withNotify h hf fun hsort => (hexport hsort _ (.head _)).2]
      split
      · rename_i a world hok
        obtain ⟨hrunning, hchanges, hkeys⟩ :=
          declareName_changes hf (fun hsort => hexport hsort _ (.head _)) hok
        obtain ⟨_, hgrown⟩ := hchanges.grown hhost
        refine @ih { toActivation := a, rest, jumps := f.jumps } { m with world }
          (h.of_grown hgrown) hrunning fun hsort name hname => ?_
        obtain ⟨hexported, hlocal⟩ := hexport hsort name (.tail _ hname)
        exact ⟨hexported, fun hkey => hlocal (hkeys hsort name hkey)⟩
      · rfl

/-! ## Runs for other watchers

An induction over the steps of both runs at once. Wherever a notice is delivered, its variable is
not guarded, so the two hosts answer it in the same way. -/

variable {callee callee' : Frame ω → Machine ω σ → Outcome ω σ} {depth : Nat} {f f' : Frame ω}
  {m m' : Machine ω σ}

def AgreeOnCalled (host : Host ω σ) (callee callee' : Frame ω → Machine ω σ → Outcome ω σ)
    (depth : Nat) (M : Moment ω σ) : Prop :=
  ∀ N, called? host depth M.frame M.machine = some N →
    callee' N.frame N.machine = callee N.frame N.machine

theorem invoke_withNotify {name body : String} {args : List Float}
    (hreq : request host f m = .ok (.invoke name body args, f', m'))
    (hcalled : AgreeOnCalled host callee callee' depth ⟨f, m⟩) :
    invoke (host.withNotify notify') callee' depth m' name body args =
      invoke host callee depth m' name body args := by
  unfold invoke
  rw [show (host.withNotify notify').maxDepth = host.maxDepth from rfl]
  split
  · rfl
  rename_i hdepth
  unfold enter
  dsimp only
  split
  · rfl
  rename_i hbody
  rw [hcalled _ (called?_of_invoke hreq hdepth hbody)]

theorem perform_withNotify (hhost : host.OnlyAssigns)
    (h : AgreeOffGuard handed host.notify notify' m.world) (hf : f.IsRunning) {a : Action}
    (hreq : request host f m = .ok (a, f', m'))
    (hwithin : Moment.Within host exported handed ⟨f, m⟩) (hchecks : AgreeOnChecks callee callee')
    (hcalled : AgreeOnCalled host callee callee' depth ⟨f, m⟩) :
    perform (host.withNotify notify') callee' depth f' m' a =
      perform host callee depth f' m' a := by
  obtain ⟨hact, hm, _⟩ := statement_of_request hreq
  have hf' : f'.IsRunning := hact ▸ hf
  rw [← hm.world_eq] at h
  -- a notice is due for assignments and exports only
  cases a with
  | pass => rfl
  | jump j => rfl
  | call name args => rfl
  | assign name x =>
      have hassign : assign (host.withNotify notify') f'.toActivation m'.world name x =
          assign host f'.toActivation m'.world name x := by
        cases hlocal : Dict.find? f'.locals name with
        | some v => rw [assign_of_local hf' hlocal, assign_of_local hf' hlocal]
        | none =>
            rw [assign_of_not_local hf' hlocal, assign_of_not_local hf' hlocal]
            rw [hact] at hlocal
            rw [show (host.withNotify notify').notify = notify' from rfl, assign?_eq_of_agree h]
            intro level v hfind _
            rw [hm.world_eq] at hfind
            exact .inl (writable_of_request hf hreq hlocal hfind)
      simp only [perform, hassign]
  | invoke name body args => simp only [perform, invoke_withNotify hreq hcalled]
  | declare sort names =>
      have hexport := hwithin.declare hreq
      rw [← hact] at hexport
      exact declare_withNotify hhost h hf' hexport
  | define name body =>
      have hbody : checkBody callee' f' m' body = checkBody callee f' m' body := by
        unfold checkBody
        dsimp only
        rw [hchecks.enter _ m' rfl]
      simp only [perform, hbody]
  | finish result => cases result <;> rfl

theorem step_withNotify (hhost : host.OnlyAssigns)
    (h : AgreeOffGuard handed host.notify notify' m.world) (hf : f.IsRunning)
    (hwithin : Moment.Within host exported handed ⟨f, m⟩) (hchecks : AgreeOnChecks callee callee')
    (hcalled : AgreeOnCalled host callee callee' depth ⟨f, m⟩) :
    step (host.withNotify notify') callee' depth f m = step host callee depth f m := by
  -- a statement asks for the same whatever the watchers are
  have hsame : request (host.withNotify notify') f m = request host f m := rfl
  rw [step_eq, step_eq, hsame]
  cases hreq : request host f m with
  | ok asked =>
      obtain ⟨a, f', m'⟩ := asked
      exact perform_withNotify hhost h hf hreq hwithin hchecks hcalled
  | error o => rfl

end

/-- A run goes the same way whatever the watchers of guarded variables do. -/
theorem run_withNotify {host : Host ω σ} {notify' : Notify ω σ}
    {exported handed : String → Prop} (hhost : host.OnlyAssigns) {steps depth : Nat} {f : Frame ω}
    {m : Machine ω σ} (h : AgreeOffGuard handed host.notify notify' m.world) (hf : f.IsRunning)
    (hwithin : ∀ M ∈ moments host steps depth f m, M.Within host exported handed) :
    run (host.withNotify notify') steps depth f m = run host steps depth f m := by
  induction steps generalizing depth f m with
  | zero => rfl
  | succ steps ih =>
      have hfirst := hwithin _ (mem_moments_self host steps depth f m)
      -- a subroutine begins in the same world, so the two hosts agree there, too
      have hcalled : AgreeOnCalled host (run host steps (depth + 1))
          (run (host.withNotify notify') steps (depth + 1)) depth ⟨f, m⟩ := by
        intro N hN
        refine ih ?_ (isRunning_of_called hN) fun M hM => hwithin M (mem_moments_of_called hN hM)
        rw [world_of_called hN]
        exact h
      have hnames : host.SameNames (host.withNotify notify') := fun _ => rfl
      have hchecks := run_eq_of_validate hnames steps (depth + 1)
      rw [run, run, step_withNotify hhost h hf hfirst hchecks hcalled]
      -- what this step adds has no watchers, so they still agree behind it
      have hstep := step_changes hf hfirst (run_validate host steps (depth + 1)) fun N hN =>
        run_changes (isRunning_of_called hN) fun M hM => hwithin M (mem_moments_of_called hN hM)
      cases hs : step host (run host steps (depth + 1)) depth f m with
      | next f' m' =>
          rw [hs] at hstep
          obtain ⟨_, hgrown⟩ := hstep.2.grown hhost
          exact ih (h.of_grown hgrown) hstep.1 fun M hM => hwithin M (mem_moments_of_next hs hM)
      | stop o => rfl

/-! ## The main statement

Both parts in one statement, for any variable that is read-only before the run. -/

/-- The run of a script goes the same way, too. -/
theorem Interpreter.evaluate_withNotify (i : Interpreter ω σ) (hhost : i.host.OnlyAssigns)
    (steps : Nat) (script : String) (params : Option (List Float)) {notify' : Notify ω σ}
    (h : AgreeOffGuard (i.HandsOver steps script params) i.host.notify notify' i.machine.world) :
    let j : Interpreter ω σ := { i with host := i.host.withNotify notify' }
    j.evaluate steps script params =
      ((i.evaluate steps script params).1,
        { (i.evaluate steps script params).2 with host := j.host }) := by
  intro j
  let machine : Machine ω σ :=
    { i.machine with world := { i.machine.world with stopping := false }, lastReturn := none }
  have henter : enter (run j.host steps 0) { rest := script.toList, params } machine =
      enter (run i.host steps 0) { rest := script.toList, params } machine := by
    unfold enter
    split
    · rfl
    rename_i htext
    -- to forget a request to stop changes no variable
    have hsame : World.Grown (i.Exports steps script params) [] i.machine.world machine.world :=
      World.SameVariables.grown ⟨rfl, fun _ _ => rfl⟩
    exact @run_withNotify _ _ i.host notify' _ _ hhost steps 0
      { rest := skipGap script.toList, params } machine (h.of_grown hsame)
      (Activation.isRunning_fresh params) (i.within_moments htext)
  show j.conclude script.toList _ _ _ = _
  rw [henter]
  rfl

/-- Whatever a script does and however its run ends, a variable that was read-only holds the number
that it held, unless it is at the root and the script handed over a local variable of its name. Nor
was its watcher told anything: the run and all that comes of it would be the same if such watchers
did something else. -/
theorem Interpreter.evaluate_guarded (i : Interpreter ω σ) (hhost : i.host.LeavesVariables)
    (hcells : i.machine.world.CellsApart) (steps : Nat) (script : String)
    (params : Option (List Float)) :
    let handed := i.HandsOver steps script params
    let w := i.machine.world
    let after := i.evaluate steps script params
    let u := after.2.machine.world
    (∀ level name v, w.IsGuarded handed level name v →
      u.variableAt? level name = some v ∧ v.value u.cells = v.value w.cells) ∧
    ∀ notify', AgreeOffGuard handed i.host.notify notify' w →
      let j : Interpreter ω σ := { i with host := i.host.withNotify notify' }
      j.evaluate steps script params = (after.1, { after.2 with host := j.host }) := by
  intro handed w after u
  constructor
  · intro level name v hv
    have hchanges : Changes i.host _ handed { w with stopping := false } u :=
      i.evaluate_changes steps script params
    exact @Changes.guards _ _ _ _ _ { w with stopping := false } u level name v hhost hcells hchanges
      ⟨hv.found, hv.readonly, hv.kept⟩
  · intro notify' h
    exact i.evaluate_withNotify hhost.onlyAssigns steps script params h

/-- An interpreter with a read-only variable `k` in a cell, a variable `n` that scripts may write,
and a read-only variable `p` behind the root. -/
def Interpreter.withReadonly : Interpreter Recorder.Watcher Recorder.Record where
  host :=
    { bindings := ⟨[("sum", Recorder.Stock.sum.native "sum")]⟩, notify := Recorder.notify }
  machine :=
    { world :=
        { root := ⟨[("k", { storage := .bound "c", readonly := true, watcher := some ⟨"k", none⟩ }),
            ("n", { watcher := some ⟨"n", none⟩ })]⟩
          parents := [⟨[("p", { storage := .owned 7.0, readonly := true })]⟩]
          cells := ⟨[("c", .number 3.0)]⟩
          state := [] } }

theorem Interpreter.leavesVariables_withReadonly :
    Interpreter.withReadonly.host.LeavesVariables := by
  refine ⟨fun name f hf args w => ?_, fun watcher x w => ⟨rfl, fun _ _ _ _ => rfl⟩⟩
  rw [Dict.eq_of_find?_singleton hf]
  exact ⟨rfl, fun _ _ _ _ => rfl⟩

theorem Interpreter.cellsApart_withReadonly : Interpreter.withReadonly.machine.world.CellsApart :=
  World.cellsApart_of_places (by decide)

def shadowing : String :=
  "define f; pop k; set n k; end; goto f 5; var p; export p; set n n + k; set k 1;"

/-- Watchers that record, but for the one of `k`, which takes all variables away. -/
def takingAway : Notify Recorder.Watcher Recorder.Record :=
  fun watcher x w => if watcher.tag = "k" then { w with root := {} } else Recorder.notify watcher x w

/-- The main statement for a script that shadows both read-only variables. -/
theorem Interpreter.evaluate_guarded_readonly :
    let i := Interpreter.withReadonly
    let after := i.evaluate 20 shadowing none
    let u := after.2.machine.world
    after.1 = .failed (.readOnly "k") ∧
      (∃ k, u.variableAt? 0 "k" = some k ∧ k.readonly = true ∧ k.value u.cells = 3.0) ∧
      (∃ p, u.variableAt? 1 "p" = some p ∧ p.readonly = true ∧ p.value u.cells = 7.0) ∧
      let j := { i with host := i.host.withNotify takingAway }
      (j.evaluate 20 shadowing none).2.machine = after.2.machine := by
  have hend : (withReadonly.evaluate 20 shadowing none).1 = .failed (.readOnly "k") := by
    decide +kernel
  have hfree : ¬ withReadonly.HandsOver 20 shadowing none "k" := by decide +kernel
  obtain ⟨hkeep, hsame⟩ := evaluate_guarded withReadonly leavesVariables_withReadonly
    cellsApart_withReadonly 20 shadowing none
  obtain ⟨hk, hkvalue⟩ := hkeep 0 "k" _ ⟨rfl, rfl, fun _ => hfree⟩
  obtain ⟨hp, hpvalue⟩ := hkeep 1 "p" _ ⟨rfl, rfl, fun h => absurd h (by decide)⟩
  have hagree : AgreeOffGuard (withReadonly.HandsOver 20 shadowing none) withReadonly.host.notify
      takingAway withReadonly.machine.world := by
    intro level name v watcher hv hwatcher hopen
    rcases List.mem_cons.1 (World.mem_places hv) with hplace | hplace
    · cases hplace
      exact absurd ⟨rfl, rfl, fun _ => hfree⟩ hopen
    rcases List.mem_cons.1 hplace with hplace | hplace
    · cases hplace
      cases hwatcher
      rfl
    rcases List.mem_singleton.1 hplace with hplace
    cases hplace
    cases hwatcher
  have hmachine := congrArg (fun o => o.2.machine) (hsame takingAway hagree)
  exact ⟨hend, ⟨_, hk, rfl, hkvalue⟩, ⟨_, hp, rfl, hpvalue⟩, hmachine⟩

/-- Handing over a local variable writes to a read-only variable of the root, and tells its watcher.
-/
theorem Interpreter.exists_evaluate_readonly_ne :
    let i := Interpreter.withReadonly
    let w := i.machine.world
    let after := i.evaluate 10 "var k; set k 5; export k;" none
    let u := after.2.machine.world
    i.host.LeavesVariables ∧ w.CellsApart ∧ after.1 = .finished ∧
      ∃ k, w.variableAt? 0 "k" = some k ∧ k.readonly = true ∧ k.value w.cells = 3.0 ∧
        k.value u.cells = 5.0 ∧
        (u.state.filterMap fun
          | .changed tag x _ => some (tag, x)
          | .called _ _ => none) = [("k", 5.0)] := by
  refine ⟨leavesVariables_withReadonly, cellsApart_withReadonly, ?_, _, rfl, rfl, rfl, ?_, ?_⟩
  all_goals decide +kernel

end Script

end NumScript
