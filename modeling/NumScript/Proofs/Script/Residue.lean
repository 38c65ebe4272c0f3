import NumScript.Proofs.Script.Likeness

set_option autoImplicit false

/-! # What a run leaves behind

An interpreter keeps more between two runs than its variables and subroutines: the last result, the
last error and where it happened, a request to stop, and the outcome of the last expression. No run
depends on these. A run forgets the last result and the request before it begins, it replaces the
report at its end, and it never looks at the outcome of an earlier expression. So a script does the
same after any history, whether the run before was finished, failed deep inside a subroutine or was
stopped (`Interpreter.evaluate_sameSetup`), and so does a check.
-/

namespace NumScript.Script

variable {ω σ : Type}

/-- No script tells a world from itself. -/
theorem likeness_eq (host : Host ω σ) : Likeness host Eq where
  stopping h := by rw [h]
  sight h := by
    rw [h]
    exact ⟨fun _ => rfl, fun _ => rfl⟩
  root h name := by rw [h]
  call h _ args := by
    rw [h]
    exact ⟨rfl, rfl⟩
  assign h name x := by rw [h]
  add h name _ _ := by rw [h]

/-- Machines in the same world differ at most in the outcome of the last expression. -/
theorem Machine.Alike.sameWorld {m m' : Machine ω σ} (h : m.Alike Eq m') : m.SameWorld m' := by
  obtain ⟨world, functions, lastReturn, retained⟩ := m
  obtain ⟨world', functions', lastReturn', retained'⟩ := m'
  obtain ⟨rfl, rfl, rfl⟩ := h
  exact ⟨retained', rfl⟩

namespace Interpreter

/-- Two interpreters of one host with the same variables, cells and subroutines, and with the same
state of the host. In everything that earlier runs left behind they may differ. -/
structure SameSetup (i j : Interpreter ω σ) : Prop where
  host : j.host = i.host
  world : ∃ stopping, j.machine.world = { i.machine.world with stopping }
  functions : j.machine.functions = i.machine.functions

/-- Checks of one text for two such interpreters end alike, whatever calls are under way. -/
theorem check_sameSetup {i j : Interpreter ω σ} (h : i.SameSetup j) (text : List Char)
    (chain : Option (Chain ω)) (depth : Nat) :
    let o := enter (run j.host (text.length + 1) depth)
      { rest := text, mode := .validate, outer := chain } { j.machine with lastReturn := none }
    o.ending = (i.check text chain).ending ∧ o.left = (i.check text chain).left := by
  obtain ⟨hhost, ⟨stopping, hworld⟩, hfunctions⟩ := h
  rw [hhost]
  have hsame : CheckedAlike { rest := text, mode := .validate, outer := chain }
      { i.machine with lastReturn := none } chain { j.machine with lastReturn := none } := by
    refine ⟨rfl, fun name v hv => ?_, ?_, rfl, hfunctions.symm⟩
    · cases hv
    · show Chain.SameSight (chain.getD i.machine.world.chain) _
        (chain.getD j.machine.world.chain) j.machine.world.cells
      rw [hworld]
      exact ⟨fun _ => rfl, fun _ => rfl⟩
  have halike := (run_checksAlike i.host (text.length + 1) 0 depth).enter _ _ _ _ hsame
  exact ⟨halike.1.symm, halike.2.symm⟩

/-- A check leaves the machine as it is, but for the last result, which it forgets, and the outcome
of the last expression. -/
theorem machine_check (i : Interpreter ω σ) (text : List Char) (chain : Option (Chain ω)) :
    ({ i.machine with lastReturn := none } : Machine ω σ).SameWorld (i.check text chain).machine :=
  ((run_validate i.host (text.length + 1) 0).enter
    { rest := text, mode := .validate, outer := chain } { i.machine with lastReturn := none } rfl).1

/-- What earlier runs left behind has no influence. For two interpreters that differ in nothing
else, a script gives the same result and the same report, and leaves the same world, the same
subroutines and the same last result; only the outcome of the last expression is kept where there
was no expression. A check gives the same too, and leaves a request to stop as it is, whatever
calls are under way. -/
theorem evaluate_sameSetup {i j : Interpreter ω σ} (h : i.SameSetup j) (steps : Nat)
    (script : String) (params : Option (List Float)) (chain : Option (Chain ω)) :
    (∃ retained,
      let (ending, after) := i.evaluate steps script params
      j.evaluate steps script params =
        (ending, { after with machine := { after.machine with retained } })) ∧
    (∃ retained,
      let (ending, after) := i.validate script chain
      let world := { after.machine.world with stopping := j.machine.world.stopping }
      j.validate script chain =
        (ending, { after with machine := { after.machine with world, retained } })) ∧
    ∀ depth,
      let text := script.toList
      let o := enter (run j.host (text.length + 1) depth)
        { rest := text, mode := .validate, outer := chain } { j.machine with lastReturn := none }
      o.ending = (i.check text chain).ending ∧ o.left = (i.check text chain).left := by
  have hcheck := check_sameSetup h script.toList chain
  obtain ⟨hhost, ⟨stopping, hworld⟩, hfunctions⟩ := h
  refine ⟨?_, ?_, hcheck⟩
  · obtain ⟨hending, herror, hposition, hmachine⟩ := evaluate_alike (i := i) (j := j)
      (likeness_eq i.host) hhost (by rw [hworld]) hfunctions.symm steps script params
    obtain ⟨retained, hmachine⟩ := hmachine.sameWorld
    refine ⟨retained, Prod.ext hending ?_⟩
    show Interpreter.mk j.host (j.evaluate steps script params).2.machine
      (j.evaluate steps script params).2.lastError
      (j.evaluate steps script params).2.lastPosition = _
    rw [hhost, hmachine, herror, hposition]
    rfl
  · obtain ⟨r, hr⟩ := i.machine_check script.toList chain
    obtain ⟨retained, hretained⟩ := j.machine_check script.toList chain
    obtain ⟨hending, hleft⟩ := hcheck 0
    refine ⟨retained, ?_⟩
    unfold validate conclude
    dsimp only
    rw [show (j.check script.toList chain).ending = _ from hending,
      show (j.check script.toList chain).left = _ from hleft, hr, hretained, hhost, hworld,
      hfunctions]

/-- The interpreter after a run that was stopped behind a division by zero, and is asked to stop
once more. -/
def troubled (i : Interpreter ω σ) : Interpreter ω σ :=
  { i with
    machine :=
      { i.machine with
        world := { i.machine.world with stopping := true }
        lastReturn := some 5.0
        retained := some (.error .divisionByZero) }
    lastError := some .terminated
    lastPosition := 7 }

theorem sameSetup_troubled (i : Interpreter ω σ) : i.SameSetup i.troubled :=
  ⟨rfl, ⟨true, rfl⟩, rfl⟩

def resultful : String :=
  "if return > 4; exit; fi; define f; return x + 1; end; goto f; set x return * 2;"

/-- The main statement for this script, which doubles the result of a subroutine. -/
theorem evaluate_sameSetup_troubled :
    let i := withX 1.0
    let o := i.troubled.evaluate 20 resultful none
    i.SameSetup i.troubled ∧ o.1 = .finished ∧
      o.2.machine.world.value? "x" = some 4.0 ∧ o.2.machine.lastReturn = some 2.0 ∧
      (i.troubled.validate resultful none).1 = .finished := by
  have hplain : ((withX 1.0).evaluate 20 resultful none).1 = .finished ∧
      ((withX 1.0).evaluate 20 resultful none).2.machine.world.value? "x" = some 4.0 ∧
      ((withX 1.0).evaluate 20 resultful none).2.machine.lastReturn = some 2.0 ∧
      ((withX 1.0).validate resultful none).1 = .finished := by
    decide +kernel
  obtain ⟨⟨retained, hrun⟩, ⟨retained', hcheck⟩, -⟩ :=
    evaluate_sameSetup (withX 1.0).sameSetup_troubled 20 resultful none none
  dsimp only at hrun hcheck ⊢
  rw [hrun, hcheck]
  exact ⟨sameSetup_troubled _, hplain⟩

end Interpreter

end NumScript.Script
