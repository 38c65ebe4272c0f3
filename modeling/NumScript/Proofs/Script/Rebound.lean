import NumScript.Host.Recorder
import NumScript.Proofs.Script.Likeness
import NumScript.Proofs.Store.Moving

set_option autoImplicit false

/-! # Scripts and variables in cells

A script cannot tell whether a variable holds its number itself or is bound to a cell of its own.
The relation between worlds of which the second has moved some variables into cells is a likeness
(`likeness_rebound`), if the host does not tell them apart either: its functions and its watchers
answer alike in worlds so related and lead to worlds so related. This holds of functions that depend
on their arguments only, with watchers that only watch (`Host.indifferent_of_arguments`).

So after a script has run, every variable has the same number, the same integer, the same truth
value and the same rendering in both worlds, and the host was told the same
(`Interpreter.evaluate_rebound`). From any world one gets to such a world by moving variables into
new cells (`World.Movable.rebound`).
-/

namespace NumScript

variable {ω σ : Type}

namespace Script

/-! ## Hosts that cannot tell

A host sees the world when it is called, cells included, and could find out which variables have
moved. A script is not to blame for that. So hosts are asked to answer alike. -/

/-- The host does not tell the variables in these homes from ones that hold their numbers
themselves. -/
structure Host.Indifferent (host : Host ω σ) (homes : Nat → String → Option String) : Prop where
  native : ∀ {w w' : World ω σ} {name native}, w.Rebound homes w' →
    Dict.find? host.bindings name = some native → ∀ args,
      (native args w).1 = (native args w').1 ∧ (native args w).2.Rebound homes (native args w').2
  notify : ∀ {w w' : World ω σ}, w.Rebound homes w' → ∀ watcher x,
    (host.notify watcher x w).Rebound homes (host.notify watcher x w')

/-- Writes by name keep worlds related, if the watchers do. -/
theorem rebound_assign? {homes : Nat → String → Option String} {notify : Notify ω σ}
    (hnotify : ∀ {w w' : World ω σ}, w.Rebound homes w' → ∀ watcher x,
      (notify watcher x w).Rebound homes (notify watcher x w'))
    {w w' : World ω σ} (h : w.Rebound homes w') (name : String) (x : Float) :
    (w.assign? notify name x = none ∧ w'.assign? notify name x = none) ∨
      ∃ u u', w.assign? notify name x = some u ∧ w'.assign? notify name x = some u' ∧
        u.Rebound homes u' := by
  unfold World.assign?
  cases hlevel : Chain.level? w.chain name with
  | none =>
      have hlevel' := (h.level?_eq name).trans hlevel
      rw [World.store?_of_level?_eq_none hlevel, World.store?_of_level?_eq_none hlevel']
      exact .inl ⟨rfl, rfl⟩
  | some level =>
      have hlevel' := (h.level?_eq name).trans hlevel
      obtain ⟨v, hv⟩ := Chain.exists_variableAt?_of_level? hlevel
      have hv' : w'.variableAt? level name = some (v.housed (homes level name)) := by
        rw [h.places, show w.variableAt? level name = some v from hv]
        rfl
      obtain ⟨u, hstore, hwrite, hstopping, hstate⟩ := World.store?_of_level? hlevel hv x
      obtain ⟨u', hstore', hwrite', hstopping', hstate'⟩ := World.store?_of_level? hlevel' hv' x
      have hu : u.Rebound homes u' := h.write hwrite hwrite'
        (by rw [hstopping', hstopping, h.stopping]) (by rw [hstate', hstate, h.state])
      -- the variable as it is after the write
      have hafter : u.variableAt? level name = some (v.store w.cells x).1 := by
        rw [hwrite.variableAt?_eq, if_pos ⟨rfl, rfl⟩]
      have hnotice := hu.notice?_eq hafter
      rw [← v.store_housed _ w.cells w'.cells] at hnotice
      rw [hstore, hstore', hnotice]
      refine .inr ⟨_, _, rfl, rfl, ?_⟩
      dsimp only
      cases (v.store w.cells x).1.notice? u.cells with
      | none => exact hu
      | some notice => exact hnotify hu notice.watcher notice.value

/-- To scripts the move of variables into cells is a likeness. -/
theorem likeness_rebound {host : Host ω σ} {homes : Nat → String → Option String}
    (hhost : host.Indifferent homes) : Likeness host fun w w' => w.Rebound homes w' where
  stopping h := h.stopping.symm
  sight h := ⟨fun name => (h.value?_eq name).symm, fun name => (h.readonly_eq name).symm⟩
  root h name := by
    rw [Bool.eq_iff_iff, Dict.contains_iff_mem_names, Dict.contains_iff_mem_names, h.root_names]
  call h hnative args := hhost.native h hnative args
  assign h name x := by
    rcases rebound_assign? hhost.notify h name x with ⟨hnone, hnone'⟩ | ⟨u, u', hu, hu', hrebound⟩
    · rw [hnone, hnone']
      exact h
    · rw [hu, hu']
      exact hrebound
  add h name _ hv := h.add (congrArg Shape.cell? hv) name

/-! ## Functions of arguments

What is asked of a host is not empty. Functions that depend on their arguments only, and watchers
that only watch, cannot tell whatever the homes are. -/

/-- The native function depends on its arguments only. What it does to the state of the host may
depend on this state too, and it may ask the script to stop. -/
def DependsOnArguments (native : Native ω σ) : Prop :=
  ∃ (value : List Float → Float) (stops : List Float → Bool) (state : List Float → σ → σ),
    ∀ args w, native args w =
      (value args, { w with stopping := w.stopping || stops args, state := state args w.state })

/-- The watchers look at the number that they are told and at the values of variables, and write
none. -/
def OnlyWatches (notify : Notify ω σ) : Prop :=
  ∃ (stops : ω → Float → (String → Option Float) → Bool)
    (state : ω → Float → (String → Option Float) → σ → σ),
    ∀ watcher x w, notify watcher x w =
      { w with
        stopping := w.stopping || stops watcher x w.value?
        state := state watcher x w.value? w.state }

/-- A host with such functions and watchers is indifferent, whichever variables move. -/
theorem Host.indifferent_of_arguments {host : Host ω σ}
    (hnative : ∀ name native, Dict.find? host.bindings name = some native →
      DependsOnArguments native) (hnotify : OnlyWatches host.notify)
    (homes : Nat → String → Option String) : host.Indifferent homes where
  native {w w' name native} h hfind args := by
    obtain ⟨value, stops, state, hact⟩ := hnative name native hfind
    rw [hact, hact, h.stopping, h.state]
    exact ⟨rfl, h.withState rfl rfl⟩
  notify {w w'} h watcher x := by
    obtain ⟨stops, state, hact⟩ := hnotify
    rw [hact, hact, h.stopping, h.state, show w'.value? = w.value? from funext h.value?_eq]
    exact h.withState rfl rfl

/-! ## Scripts

The four ways to read a variable are compared after the run, for every variable that was there. -/

def readings (v : Variable ω) (cells : Cells) : Float × Int32 × Bool × String :=
  (v.value cells, v.toInt cells, v.toBool cells, v.render cells)

theorem readings_eq {homes : Nat → String → Option String} {w w' : World ω σ}
    (h : w.Rebound homes w') (level : Nat) (name : String) :
    (w'.variableAt? level name).map (readings · w'.cells) =
      (w.variableAt? level name).map (readings · w.cells) := by
  rw [h.places]
  cases hv : w.variableAt? level name with
  | none => rfl
  | some v =>
      have hvalue := h.value_eq hv
      refine congrArg some ?_
      show readings (v.housed (homes level name)) w'.cells = readings v w.cells
      unfold readings Variable.render Variable.toInt Variable.toBool
      rw [hvalue, v.kind_housed]

namespace Interpreter

/-- Variables in cells of their own do as well as variables that hold their numbers themselves. In
both worlds a script ends in the same way, with the same report and the same last result, defines
the same subroutines and tells the host the same; the variables are the same afterwards, but for
those that have moved, and everything that can be read off them is the same. -/
theorem evaluate_rebound (i : Interpreter ω σ) {homes : Nat → String → Option String}
    {world : World ω σ} (hhost : i.host.Indifferent homes)
    (hworld : i.machine.world.Rebound homes world) (steps : Nat) (script : String)
    (params : Option (List Float)) :
    let j := { i with machine := { i.machine with world } }
    let o := i.evaluate steps script params
    let o' := j.evaluate steps script params
    let w := o.2.machine.world
    let w' := o'.2.machine.world
    o'.1 = o.1 ∧ o'.2.lastError = o.2.lastError ∧ o'.2.lastPosition = o.2.lastPosition ∧
    o'.2.machine.lastReturn = o.2.machine.lastReturn ∧
    o'.2.machine.functions = o.2.machine.functions ∧
    w'.state = w.state ∧ w.Rebound homes w' ∧
    ∀ level name, (w'.variableAt? level name).map (readings · w'.cells) =
      (w.variableAt? level name).map (readings · w.cells) := by
  intro j
  have hbegun : World.Rebound homes { i.machine.world with stopping := false }
      { j.machine.world with stopping := false } :=
    hworld.withState rfl hworld.state
  obtain ⟨hending, herror, hposition, hmachine⟩ := evaluate_alike (i := i) (j := j)
    (likeness_rebound hhost) rfl hbegun rfl steps script params
  exact ⟨hending, herror, hposition, hmachine.lastReturn.symm, hmachine.functions.symm,
    hmachine.world.state, hmachine.world, readings_eq hmachine.world⟩

/-- A host that records, with variables of every kind that hold their numbers themselves and are
watched, and with one behind the root that scripts may not write. -/
def withOwned : Interpreter Recorder.Watcher Recorder.Record where
  host :=
    { bindings := ⟨[("total", Recorder.Stock.sum.native "total")]⟩, notify := Recorder.notify }
  machine :=
    { world :=
        { root :=
            ⟨[("b", { kind := .boolean, storage := .owned 1.0, watcher := some ⟨"b", some "n"⟩ }),
              ("n", { kind := .integer, storage := .owned 3.0, watcher := some ⟨"n", some "x"⟩ }),
              ("x", { storage := .owned 0.5, watcher := some ⟨"x", none⟩ })]⟩
          parents := [⟨[("p", { storage := .owned 7.0, readonly := true })]⟩]
          state := [] } }

def movesOfOwned : Moves :=
  [((0, "b"), "cb", .boolean true), ((0, "n"), "cn", .integer 3), ((0, "x"), "cx", .number 0.5),
    ((1, "p"), "cp", .number 7.0)]

theorem indifferent_withOwned : withOwned.host.Indifferent movesOfOwned.home? := by
  refine Host.indifferent_of_arguments (fun name native hnative => ?_) ?_ _
  · rw [Dict.eq_of_find?_singleton hnative]
    refine ⟨fun args => args.foldl (· + ·) 0.0, fun _ => false,
      fun args record => .called "total" args :: record, fun args w => ?_⟩
    rw [Bool.or_false]
    rfl
  · refine ⟨fun _ _ _ => false, fun watcher x see record => watcher.event x see :: record,
      fun watcher x w => ?_⟩
    rw [Bool.or_false]
    rfl

theorem movable_withOwned : withOwned.machine.world.Movable movesOfOwned where
  places := by decide
  cells := by decide
  owned {level name cell content} hmove := by
    simp only [movesOfOwned, List.mem_cons, Prod.mk.injEq, List.not_mem_nil, or_false] at hmove
    rcases hmove with ⟨⟨rfl, rfl⟩, rfl, rfl⟩ | ⟨⟨rfl, rfl⟩, rfl, rfl⟩ | ⟨⟨rfl, rfl⟩, rfl, rfl⟩ |
      ⟨⟨rfl, rfl⟩, rfl, rfl⟩
    · exact ⟨_, rfl, rfl, rfl⟩
    · exact ⟨_, rfl, rfl, by decide +kernel⟩
    · exact ⟨_, rfl, rfl, rfl⟩
    · exact ⟨_, rfl, rfl, rfl⟩
  unused {place cell content} _ := by
    refine ⟨rfl, fun {level name v} hv hcell => ?_⟩
    have hnone : ∀ place ∈ withOwned.machine.world.places, place.2.2.cell? = none := by decide
    rw [hnone _ (World.mem_places hv)] at hcell
    cases hcell

def changeful : String :=
  "set x return; set n x; set b x; define f; pop n; set n n * 2; export n; end; goto f 1.75; " ++
    "call total n, p; set x return * 3000000000; set n x; set b n > 3;"

/-- The main statement for this script. One call and seven writes were recorded, and the integer
stopped at the largest one. -/
theorem evaluate_rebound_changeful :
    let i := withOwned
    let j := { i with machine := { i.machine with world := i.machine.world.moved movesOfOwned } }
    let o := i.evaluate 40 changeful none
    let o' := j.evaluate 40 changeful none
    i.host.Indifferent movesOfOwned.home? ∧ i.machine.world.Movable movesOfOwned ∧
    o'.1 = .finished ∧ o'.2.machine.world.state = o.2.machine.world.state ∧
    o.2.machine.world.state.length = 8 ∧
    (o'.2.machine.world.variableAt? 0 "n").map (readings · o'.2.machine.world.cells) =
      (o.2.machine.world.variableAt? 0 "n").map (readings · o.2.machine.world.cells) ∧
    o.2.machine.world.value? "n" = some 2147483647.0 := by
  have hrun : (withOwned.evaluate 40 changeful none).1 = .finished ∧
      (withOwned.evaluate 40 changeful none).2.machine.world.state.length = 8 ∧
      (withOwned.evaluate 40 changeful none).2.machine.world.value? "n" = some 2147483647.0 := by
    decide +kernel
  obtain ⟨hsame, _, _, _, _, hstate, _, hreadings⟩ :=
    evaluate_rebound withOwned indifferent_withOwned movable_withOwned.rebound 40 changeful none
  dsimp only at hsame hstate hreadings ⊢
  exact ⟨indifferent_withOwned, movable_withOwned, hsame.trans hrun.1, hstate, hrun.2.1,
    hreadings 0 "n", hrun.2.2⟩

end Interpreter

end Script

end NumScript
