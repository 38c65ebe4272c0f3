import Mathlib.Logic.Relation
import NumScript.Proofs.Script.Moments
import NumScript.Proofs.Store.Places

set_option autoImplicit false

/-! # How a run changes the world

Four things can happen to the world while a script runs: a native function is called, a variable that
is not read-only is assigned, a local variable is handed over to a variable of the root with the same
name, and a new number is added to the root (`Change`). The last two happen only to names that are
exported. A run is a sequence of such changes (`run_changes`), whatever is executed in which order
and in which subroutine, and wherever the run stops.

For this the local variables must not get in the way: they are numbers of their own, which nobody
watches, so a write to one of them is not seen in the world.

The relation is the one interface between the interpreter and statements about variables. To show
that something holds after every run it is enough to show that each of the four changes keeps it,
and no statement, block or subroutine comes up in such a proof.
-/

namespace NumScript.Script

variable {ω σ : Type}

/-! ## Changes

A relation between worlds, with the names that a run may export as parameters. It keeps no record of
the order in which statements were executed, which no statement about the result needs. -/

/-- One change of the world, where the names `exported` may be exported, and the names `handed` may
be handed over from a local variable. -/
inductive Change (host : Host ω σ) (exported handed : String → Prop) :
    World ω σ → World ω σ → Prop where
  | call {w : World ω σ} {name : String} {f : Native ω σ} (args : List Float) :
      Dict.find? host.bindings name = some f → Change host exported handed w (f args w).2
  | write {w u : World ω σ} {level : Nat} {name : String} {v : Variable ω} {x : Float} :
      w.IsWrite u level name v x → v.readonly = false ∨ level = 0 ∧ handed name →
      Change host exported handed w
        (host.notify.deliver ((v.store w.cells x).1.notice? u.cells) u)
  | add {w : World ω σ} {root : Scope ω} {name : String} {v : Variable ω} : exported name →
      v.shape = .plain → w.root.add? name v = some root →
      Change host exported handed w { w with root }

abbrev Changes (host : Host ω σ) (exported handed : String → Prop) :
    World ω σ → World ω σ → Prop :=
  Relation.ReflTransGen (Change host exported handed)

/-- An activation that executes, with plain local variables. -/
structure Activation.IsRunning (a : Activation ω) : Prop where
  execute : a.mode = .execute
  outer : a.outer = none
  plain : ∀ name v, a.locals.find? name = some v → v.shape = .plain

/-- A step of a run that begins in the world `w` and only makes such changes. -/
def Step.Changes (host : Host ω σ) (exported handed : String → Prop) (w : World ω σ) :
    Step ω σ → Prop
  | .next f m => f.IsRunning ∧ Script.Changes host exported handed w m.world
  | .stop o => Script.Changes host exported handed w o.machine.world

/-- The statement of a moment exports only names that may be. -/
def Moment.Within (host : Host ω σ) (exported handed : String → Prop) (M : Moment ω σ) : Prop :=
  ∀ name ∈ M.exports host,
    exported name ∧ (M.frame.locals.contains name = true → handed name)

/-! ## Writes and declarations

An activation that executes has plain local variables: `var` and `pop` make no others, and what an
export takes away is gone. So a write to a local variable has no notice and touches no cell. -/

/-- Without local variables nothing is in the way. -/
theorem Activation.isRunning_fresh (params : Option (List Float)) :
    ({ params } : Activation ω).IsRunning := by
  refine ⟨rfl, rfl, fun name v h => ?_⟩
  cases h

namespace Activation.IsRunning

variable {a : Activation ω} {name : String}

theorem of_locals (h : a.IsRunning) {locals : Scope ω}
    (hlocals : ∀ key v, locals.find? key = some v → v.shape = .plain) :
    ({ a with locals } : Activation ω).IsRunning :=
  ⟨h.execute, h.outer, hlocals⟩

theorem replace (h : a.IsRunning) {v : Variable ω} (hv : v.shape = .plain) :
    ({ a with locals := a.locals.replace name v } : Activation ω).IsRunning := by
  refine h.of_locals fun key u hu => ?_
  rw [Dict.find?_replace] at hu
  split at hu
  · obtain ⟨_, _, rfl⟩ := Option.map_eq_some_iff.1 hu
    exact hv
  · exact h.plain key u hu

theorem erase (h : a.IsRunning) :
    ({ a with locals := a.locals.erase name } : Activation ω).IsRunning := by
  refine h.of_locals fun key u hu => ?_
  rw [Dict.find?_erase] at hu
  split at hu
  · cases hu
  · exact h.plain key u hu

theorem declare (h : a.IsRunning) :
    ({ a with locals := a.locals.declare name } : Activation ω).IsRunning := by
  refine h.of_locals fun key u hu => ?_
  rw [Scope.find?_declare] at hu
  cases hkey : Dict.find? a.locals key with
  | some v =>
      rw [hkey, Option.some_or] at hu
      exact h.plain key u (hkey.trans hu)
  | none =>
      rw [hkey, Option.none_or] at hu
      split at hu
      · cases hu
        rfl
      · cases hu

theorem declare_params (h : a.IsRunning) (name : String) (params : Option (List Float)) :
    ({ a with locals := a.locals.declare name, params } : Activation ω).IsRunning :=
  ⟨h.execute, h.outer, h.declare.plain⟩

end Activation.IsRunning

section

variable {host : Host ω σ} {exported handed : String → Prop} {a a' : Activation ω}
  {w w' : World ω σ} {name : String} {x : Float}

/-- A write to a local variable is not seen outside. -/
theorem assign_of_local (h : a.IsRunning) {v : Variable ω} (hv : a.locals.find? name = some v) :
    assign host a w name x =
      ({ a with locals := a.locals.replace name (v.store w.cells x).1 }, w) := by
  have hshape := h.plain name v hv
  have hcells : (v.store w.cells x).2 = w.cells :=
    Variable.store_of_owned (congrArg Shape.cell? hshape) w.cells x
  have hwatcher : (v.store w.cells x).1.watcher = none :=
    congrArg Shape.watcher ((v.shape_store w.cells x).trans hshape)
  unfold assign Scope.store?
  rw [hv]
  dsimp only [Option.map_some]
  rw [hcells, Variable.notice?, hwatcher]
  rfl

theorem assign_of_not_local (h : a.IsRunning) (hname : a.locals.find? name = none) :
    assign host a w name x = (a, (w.assign? host.notify name x).getD w) := by
  unfold assign Scope.store?
  rw [hname, h.outer]
  rfl

/-- A write at the root is a change if it may be made. -/
theorem changes_assign? (hwrite : ∀ level v, Chain.find? w.chain name = some v →
      (w.root.contains name = true → level = 0) → v.readonly = false ∨ level = 0 ∧ handed name) :
    Changes host exported handed w ((w.assign? host.notify name x).getD w) := by
  unfold World.assign?
  cases hstore : w.store? name x with
  | none => exact .refl
  | some written =>
      obtain ⟨u, notice?⟩ := written
      obtain ⟨level, v, hiswrite, hfind, hlevel, rfl⟩ := World.store?_eq_some hstore
      exact .single (.write hiswrite (hwrite level v hfind hlevel))

theorem changes_add {v : Variable ω} (hname : exported name) (hv : v.shape = .plain) :
    Changes host exported handed w { w with root := (w.root.add? name v).getD w.root } := by
  cases hadd : w.root.add? name v with
  | none => exact .refl
  | some root => exact .single (.add hname hv hadd)

/-- Exporting a name hands over its local variable, or adds a number to the root. -/
theorem exportName_changes (h : a.IsRunning) (hname : exported name)
    (hlocal : a.locals.contains name = true → handed name) :
    (exportName host a w name).1.IsRunning ∧
      Changes host exported handed w (exportName host a w name).2 ∧
      ∀ key, (exportName host a w name).1.locals.contains key = true →
        a.locals.contains key = true := by
  unfold exportName
  cases hv : Dict.find? a.locals name with
  | some v =>
      have herase (key : String) (hkey : (a.locals.erase name).contains key = true) :
          a.locals.contains key = true := by
        rw [Dict.contains, Dict.find?_erase] at hkey
        split at hkey
        · cases hkey
        · exact hkey
      dsimp only
      split
      · rename_i hroot
        refine ⟨h.erase, changes_assign? fun level u _ hlevel => .inr ⟨hlevel hroot, ?_⟩, herase⟩
        exact hlocal (Dict.contains_of_find? hv)
      · exact ⟨h.erase, changes_add hname (h.plain name v hv), herase⟩
  | none =>
      refine ⟨h, ?_, fun _ hkey => hkey⟩
      dsimp only
      split
      · exact .refl
      · exact changes_add hname rfl

/-- Taking a parameter changes local variables only. -/
theorem popName_running (h : a.IsRunning) (hpop : popName host a w name = .ok (a', w')) :
    a'.IsRunning ∧ w' = w := by
  unfold popName at hpop
  dsimp only at hpop
  split at hpop
  · cases hpop
    exact ⟨h.declare, rfl⟩
  · cases hpop
  · rename_i y params _
    have hrunning := h.declare_params name (some params)
    -- the name was declared right before, so the write finds it among the local variables
    obtain ⟨v, hv⟩ := Scope.exists_find?_declare a.locals name
    rw [assign_of_local hrunning hv] at hpop
    cases hpop
    exact ⟨hrunning.replace ((v.shape_store w.cells y).trans (hrunning.plain name v hv)), rfl⟩

theorem declareName_changes (h : a.IsRunning) {sort : Declaration}
    (hexport : sort = .exportVar →
      exported name ∧ (a.locals.contains name = true → handed name))
    (hok : declareName host sort a w name = .ok (a', w')) :
    a'.IsRunning ∧ Changes host exported handed w w' ∧
      (sort = .exportVar → ∀ key, a'.locals.contains key = true →
        a.locals.contains key = true) := by
  unfold declareName at hok
  rw [if_pos (by rw [h.execute]; rfl)] at hok
  cases sort with
  | var =>
      cases hok
      exact ⟨h.declare, .refl, fun hsort => by cases hsort⟩
  | exportVar =>
      obtain ⟨hname, hlocal⟩ := hexport rfl
      have hchanges := @exportName_changes _ _ host _ _ _ w _ h hname hlocal
      rw [Except.ok.inj hok] at hchanges
      exact ⟨hchanges.1, hchanges.2.1, fun _ => hchanges.2.2⟩
  | pop =>
      obtain ⟨hrunning, rfl⟩ := popName_running h hok
      exact ⟨hrunning, .refl, fun hsort => by cases hsort⟩

end

/-! ## A statement

Each action makes at most one of the changes. Only a list of names makes one after the other, and a
subroutine those of its own run. -/

section

variable {host : Host ω σ} {exported handed : String → Prop} {w : World ω σ} {f : Frame ω}
  {m : Machine ω σ}

theorem Frame.finishStatement_changes (hf : f.IsRunning)
    (h : Changes host exported handed w m.world) :
    (f.finishStatement m).Changes host exported handed w := by
  unfold Frame.finishStatement
  split
  · exact ⟨hf, h⟩
  · exact h

theorem declare_changes {sort : Declaration} {names : List (List Char × List Char)}
    (hf : f.IsRunning) (h : Changes host exported handed w m.world)
    (hexport : sort = .exportVar → ∀ name ∈ declaredNames names,
      exported name ∧ (f.locals.contains name = true → handed name)) :
    (declare host sort f m names).Changes host exported handed w := by
  induction names generalizing f m with
  | nil => exact Frame.finishStatement_changes hf h
  | cons read more ih =>
      obtain ⟨word, rest⟩ := read
      unfold declare
      dsimp only
      split
      · exact h
      rename_i hword
      rw [declaredNames_cons rest hword more] at hexport
      split
      · rename_i a world hok
        obtain ⟨hrunning, hchanges, hkeys⟩ :=
          declareName_changes hf (fun hsort => hexport hsort _ (.head _)) hok
        refine @ih { toActivation := a, rest, jumps := f.jumps } { m with world } hrunning
          (h.trans hchanges) fun hsort name hname => ?_
        -- what is local after an export was local before
        obtain ⟨hexported, hlocal⟩ := hexport hsort name (.tail _ hname)
        exact ⟨hexported, fun hkey => hlocal (hkeys hsort name hkey)⟩
      · exact h

/-- The subroutine that is called next only makes such changes. -/
def CalledChanges (host : Host ω σ) (exported handed : String → Prop)
    (callee : Frame ω → Machine ω σ → Outcome ω σ) (depth : Nat) (M : Moment ω σ) : Prop :=
  ∀ N, called? host depth M.frame M.machine = some N →
    Changes host exported handed N.machine.world (callee N.frame N.machine).machine.world

section

variable {callee : Frame ω → Machine ω σ → Outcome ω σ} {depth : Nat} {f' : Frame ω}
  {m' : Machine ω σ}

theorem invoke_changes {name body : String} {args : List Float}
    (hreq : request host f m = .ok (.invoke name body args, f', m'))
    (hcalled : CalledChanges host exported handed callee depth ⟨f, m⟩) :
    Changes host exported handed m'.world (invoke host callee depth m' name body args).2.world := by
  unfold invoke
  split
  · exact .refl
  rename_i hdepth
  unfold enter
  split
  · exact .refl
  rename_i hbody
  exact hcalled _ (called?_of_invoke hreq hdepth hbody)

/-- If a name that is assigned is not local, its variable is not read-only. -/
theorem writable_of_request {name : String} {x : Float} (hf : f.IsRunning)
    (hreq : request host f m = .ok (.assign name x, f', m'))
    (hlocal : Dict.find? f.locals name = none) {v : Variable ω}
    (hfind : Chain.find? m.world.chain name = some v) : v.readonly = false := by
  have hmode : f.mode.enforcesReadonly = true := by
    rw [hf.execute]
    rfl
  obtain ⟨_, _, start, k, p, q, hread⟩ := statement_of_request hreq
  -- the reader looked the same variable up
  obtain ⟨u, hu, hreadonly⟩ := writable_of_statement hmode hread
  have hchain : Chain.find? (f.view host m).chain name = Chain.find? m.world.chain name := by
    show Chain.find? (f.locals :: f.outer.getD m.world.chain) name = _
    rw [hf.outer, Chain.find?, List.findSome?_cons, hlocal]
    rfl
  rw [hchain, hfind] at hu
  rw [Option.some.inj hu, hreadonly]

theorem Moment.Within.declare {sort : Declaration} {names : List (List Char × List Char)}
    (h : Moment.Within host exported handed ⟨f, m⟩)
    (hreq : request host f m = .ok (.declare sort names, f', m')) (hsort : sort = .exportVar) :
    ∀ name ∈ declaredNames names,
      exported name ∧ (f.locals.contains name = true → handed name) := by
  intro name hname
  refine h name ?_
  unfold Moment.exports
  rw [hreq, hsort]
  exact hname

/-- An assignment writes to a local variable, or to one that is not read-only. -/
theorem assign_changes {name : String} {x : Float} (hf : f.IsRunning)
    (hreq : request host f m = .ok (.assign name x, f', m')) :
    (perform host callee depth f' m' (.assign name x)).Changes host exported handed m.world := by
  obtain ⟨hact, hm, _⟩ := statement_of_request hreq
  have hf' : f'.IsRunning := hact ▸ hf
  simp only [perform, hm.world_eq]
  cases hlocal : Dict.find? f'.locals name with
  | some v =>
      rw [assign_of_local hf' hlocal]
      have hshape := (v.shape_store m.world.cells x).trans (hf'.plain name v hlocal)
      exact Frame.finishStatement_changes (hf'.replace hshape) .refl
  | none =>
      rw [assign_of_not_local hf' hlocal]
      rw [hact] at hlocal
      exact Frame.finishStatement_changes hf' (changes_assign? fun level v hfind _ =>
        .inl (writable_of_request hf hreq hlocal hfind))

theorem perform_changes {a : Action} (hf : f.IsRunning)
    (hreq : request host f m = .ok (a, f', m'))
    (hwithin : Moment.Within host exported handed ⟨f, m⟩) (hquiet : Harmless callee)
    (hcalled : CalledChanges host exported handed callee depth ⟨f, m⟩) :
    (perform host callee depth f' m' a).Changes host exported handed m.world := by
  obtain ⟨hact, hm, _⟩ := statement_of_request hreq
  have hf' : f'.IsRunning := hact ▸ hf
  have hsame : Changes host exported handed m.world m'.world := by
    rw [hm.world_eq]
  -- only calls, assignments and declarations touch the world
  cases a with
  | pass => exact Frame.finishStatement_changes hf' hsame
  | jump j =>
      exact @Frame.finishStatement_changes _ _ _ _ _ _ { f' with jumps := j :: f'.jumps } _ hf' hsame
  | assign name x => exact assign_changes hf hreq
  | call name args =>
      simp only [perform, Bindings.call]
      cases hnative : Dict.find? host.bindings name with
      | none => exact hsame
      | some native =>
          exact Frame.finishStatement_changes hf' (hsame.tail (.call args hnative))
  | invoke name body args =>
      have hchanges := hsame.trans (invoke_changes hreq hcalled)
      simp only [perform]
      rcases hi : invoke host callee depth m' name body args with ⟨ending, m''⟩
      rw [hi] at hchanges
      cases ending with
      | finished => exact Frame.finishStatement_changes hf' hchanges
      | failed _ | outOfSteps => exact hchanges
  | declare sort names =>
      refine declare_changes hf' hsame ?_
      rw [hact]
      exact hwithin.declare hreq
  | define name body =>
      -- the check of a body leaves the world as it was
      have hbody := (checkBody_sameWorld hquiet f' m' body).world_eq
      simp only [perform]
      rcases hcheck : checkBody callee f' m' body with ⟨ending, m''⟩
      rw [hcheck] at hbody
      have hsame' : Changes host exported handed m.world m''.world := by
        rw [show m''.world = m'.world from hbody]
        exact hsame
      cases ending with
      | finished =>
          refine Frame.finishStatement_changes hf' ?_
          split
          · exact hsame'
          · exact hsame'
      | failed _ | outOfSteps => exact hsame'
  | finish result =>
      cases result with
      | none => exact hsame
      | some x => exact hsame

theorem step_changes (hf : f.IsRunning) (hwithin : Moment.Within host exported handed ⟨f, m⟩)
    (hquiet : Harmless callee)
    (hcalled : CalledChanges host exported handed callee depth ⟨f, m⟩) :
    (step host callee depth f m).Changes host exported handed m.world := by
  rw [step_eq]
  cases hreq : request host f m with
  | ok asked =>
      obtain ⟨a, f', m'⟩ := asked
      exact perform_changes hf hreq hwithin hquiet hcalled
  | error o =>
      show Changes host exported handed m.world o.machine.world
      rw [(sameWorld_of_request_error hreq).world_eq]

end

end

/-! ## A run

The changes of a run are those of its moments, one after the other. The names that it exports are
those that its moments export. -/

theorem mem_moments_self (host : Host ω σ) (steps depth : Nat) (f : Frame ω) (m : Machine ω σ) :
    ⟨f, m⟩ ∈ moments host (steps + 1) depth f m := by
  rw [moments]
  exact .head _

theorem mem_moments_of_called {host : Host ω σ} {depth : Nat} {f : Frame ω} {m : Machine ω σ}
    {N M : Moment ω σ} (h : called? host depth f m = some N) {steps : Nat}
    (hM : M ∈ moments host steps (depth + 1) N.frame N.machine) :
    M ∈ moments host (steps + 1) depth f m := by
  rw [moments, h]
  exact .tail _ (List.mem_append_left _ hM)

theorem mem_moments_of_next {host : Host ω σ} {steps depth : Nat} {f f' : Frame ω}
    {m m' : Machine ω σ} {M : Moment ω σ}
    (h : step host (run host steps (depth + 1)) depth f m = .next f' m')
    (hM : M ∈ moments host steps depth f' m') : M ∈ moments host (steps + 1) depth f m := by
  rw [moments, h]
  exact .tail _ (List.mem_append_right _ hM)

theorem isRunning_of_called {host : Host ω σ} {depth : Nat} {f : Frame ω} {m : Machine ω σ}
    {N : Moment ω σ} (h : called? host depth f m = some N) : N.frame.IsRunning := by
  unfold called? at h
  split at h
  · split at h
    · cases h
    · cases h
      exact Activation.isRunning_fresh _
  · cases h

theorem world_of_called {host : Host ω σ} {depth : Nat} {f : Frame ω} {m : Machine ω σ}
    {N : Moment ω σ} (h : called? host depth f m = some N) : N.machine.world = m.world := by
  unfold called? at h
  split at h
  · rename_i hreq
    split at h
    · cases h
    · cases h
      exact (statement_of_request hreq).2.1.world_eq
  · cases h

/-- A run only makes changes, and it exports and hands over only what its moments say. -/
theorem run_changes {host : Host ω σ} {exported handed : String → Prop} {steps depth : Nat}
    {f : Frame ω} {m : Machine ω σ} (hf : f.IsRunning)
    (h : ∀ M ∈ moments host steps depth f m, M.Within host exported handed) :
    Changes host exported handed m.world (run host steps depth f m).machine.world := by
  induction steps generalizing depth f m with
  | zero => exact .refl
  | succ steps ih =>
      -- the moments of the subroutine are moments of the run
      have hcalled : CalledChanges host exported handed (run host steps (depth + 1)) depth ⟨f, m⟩ :=
        fun N hN => ih (isRunning_of_called hN) fun M hM => h M (mem_moments_of_called hN hM)
      have hstep := step_changes hf (h _ (mem_moments_self host steps depth f m))
        (run_validate host steps (depth + 1)) hcalled
      rw [run]
      cases hs : step host (run host steps (depth + 1)) depth f m with
      | next f' m' =>
          rw [hs] at hstep
          exact hstep.2.trans (ih hstep.1 fun M hM => h M (mem_moments_of_next hs hM))
      | stop o =>
          rw [hs] at hstep
          exact hstep

/-- The moments of a script export what the script exports. -/
theorem Interpreter.within_moments (i : Interpreter ω σ) {steps : Nat} {script : String}
    {params : Option (List Float)} (htext : skipGap script.toList ≠ []) :
    ∀ M ∈ Script.moments i.host steps 0 { rest := skipGap script.toList, params }
        { i.machine with world := { i.machine.world with stopping := false }, lastReturn := none },
      M.Within i.host (i.Exports steps script params) (i.HandsOver steps script params) := by
  intro M hM name hname
  have hmem : M ∈ i.moments steps script params := by
    unfold moments
    rw [if_neg htext]
    exact hM
  exact ⟨⟨M, hmem, hname⟩, fun hlocal => ⟨M, hmem, hname, hlocal⟩⟩

/-- So does the run of a script, of which the world only forgets a request to stop at first. -/
theorem Interpreter.evaluate_changes (i : Interpreter ω σ) (steps : Nat) (script : String)
    (params : Option (List Float)) :
    Changes i.host (i.Exports steps script params) (i.HandsOver steps script params)
      { i.machine.world with stopping := false }
      (i.evaluate steps script params).2.machine.world := by
  unfold evaluate
  dsimp only [conclude]
  unfold enter
  split
  · exact .refl
  rename_i htext
  exact @run_changes _ _ i.host _ _ steps 0 { rest := skipGap script.toList, params }
    { i.machine with world := { i.machine.world with stopping := false }, lastReturn := none }
    (Activation.isRunning_fresh params) (i.within_moments htext)

end NumScript.Script
