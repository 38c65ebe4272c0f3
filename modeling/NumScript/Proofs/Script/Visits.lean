import NumScript.Proofs.Script.Anatomy

set_option autoImplicit false

/-! # The visits of a run

A *visit* is a moment of a run together with the calls that are under way at that moment, the latest
first: for each of them the moment at which its subroutine was called. So the frames that are active
are listed, not only counted.

A run with its visits is put together from five pieces (`Ran`): it has no steps left, or its next
statement calls no subroutine and the run stops or goes on, or the statement calls one, which has
visits of its own, and then the run stops or goes on. What is shown of whole runs is shown by
induction on these pieces.

## How to use it

`ran_run` turns a run into its pieces, once, and every later statement is an induction on `Ran` with
five cases. The cases have the step, the run of the subroutine and the run of what follows as parts,
each with its own hypothesis, and the outcome of each part is a variable. So no proof has to unfold
a run or its fuel again.
-/

namespace NumScript.Script

variable {ω σ : Type}

structure Visit (ω σ : Type) extends Moment ω σ where
  callers : List (Moment ω σ)

/-- The visits of a run in the order of time, where the calls `callers` are under way. -/
def visits (host : Host ω σ) :
    (steps : Nat) → List (Moment ω σ) → Frame ω → Machine ω σ → List (Visit ω σ)
  | 0, _, _, _ => []
  | steps + 1, callers, f, m =>
    let inside :=
      match called? host callers.length f m with
      | some M => visits host steps (⟨f, m⟩ :: callers) M.frame M.machine
      | none => []
    let later :=
      match step host (run host steps (callers.length + 1)) callers.length f m with
      | .next f m => visits host steps callers f m
      | .stop _ => []
    ⟨⟨f, m⟩, callers⟩ :: (inside ++ later)

/-- The visits are the moments of the run. -/
theorem map_toMoment_visits (host : Host ω σ) (steps : Nat) (callers : List (Moment ω σ))
    (f : Frame ω) (m : Machine ω σ) :
    (visits host steps callers f m).map Visit.toMoment = moments host steps callers.length f m := by
  induction steps generalizing callers f m with
  | zero => rfl
  | succ steps ih =>
      simp only [visits, moments, List.map_cons, List.map_append]
      congr 2
      · cases called? host callers.length f m with
        | none => rfl
        | some M => exact ih (⟨f, m⟩ :: callers) M.frame M.machine
      · cases step host (run host steps (callers.length + 1)) callers.length f m with
        | next f' m' => exact ih callers f' m'
        | stop o => rfl

/-! ## The pieces of a run

The five pieces are the cases of one step, with the run of a subroutine as a part of the run. Each
says how the visits of the parts make up the visits of the whole, in order. -/

/-- `Ran host steps callers f m vs o`: the run of the frame `f` from the machine `m`, with so many
steps and these calls under way, has the visits `vs` and the outcome `o`. -/
inductive Ran (host : Host ω σ) : Nat → List (Moment ω σ) → Frame ω → Machine ω σ →
    List (Visit ω σ) → Outcome ω σ → Prop
  | outOfSteps {callers : List (Moment ω σ)} {f : Frame ω} {m : Machine ω σ} : f.IsRunning →
      Ran host 0 callers f m [] ⟨.outOfSteps, Text.byteSize f.rest, m, f.outer⟩
  | stop {steps : Nat} {callers : List (Moment ω σ)} {f : Frame ω} {m : Machine ω σ}
      {o : Outcome ω σ} : f.IsRunning → called? host callers.length f m = none →
      step host (run host steps (callers.length + 1)) callers.length f m = .stop o →
      Ran host (steps + 1) callers f m [⟨⟨f, m⟩, callers⟩] o
  | next {steps : Nat} {callers : List (Moment ω σ)} {f f' : Frame ω} {m m' : Machine ω σ}
      {later : List (Visit ω σ)} {o : Outcome ω σ} :
      f.IsRunning → called? host callers.length f m = none →
      step host (run host steps (callers.length + 1)) callers.length f m = .next f' m' →
      Ran host steps callers f' m' later o →
      Ran host (steps + 1) callers f m (⟨⟨f, m⟩, callers⟩ :: later) o
  | callStop {steps : Nat} {callers : List (Moment ω σ)} {f f₁ : Frame ω} {m : Machine ω σ}
      {N : Moment ω σ} {inside : List (Visit ω σ)} {o o' : Outcome ω σ} :
      f.IsRunning → called? host callers.length f m = some N →
      (∀ callee, step host callee callers.length f m = f₁.resume (callee N.frame N.machine)) →
      Ran host steps (⟨f, m⟩ :: callers) N.frame N.machine inside o' → f₁.resume o' = .stop o →
      Ran host (steps + 1) callers f m (⟨⟨f, m⟩, callers⟩ :: inside) o
  | callNext {steps : Nat} {callers : List (Moment ω σ)} {f f₁ f' : Frame ω}
      {m m' : Machine ω σ} {N : Moment ω σ} {inside later : List (Visit ω σ)} {o o' : Outcome ω σ} :
      f.IsRunning → called? host callers.length f m = some N →
      (∀ callee, step host callee callers.length f m = f₁.resume (callee N.frame N.machine)) →
      Ran host steps (⟨f, m⟩ :: callers) N.frame N.machine inside o' →
      f₁.resume o' = .next f' m' → Ran host steps callers f' m' later o →
      Ran host (steps + 1) callers f m (⟨⟨f, m⟩, callers⟩ :: (inside ++ later)) o

section

variable {host : Host ω σ} {steps : Nat} {callers : List (Moment ω σ)} {f f' : Frame ω}
  {m m' : Machine ω σ}

theorem visits_of_not_called (h : called? host callers.length f m = none) :
    visits host (steps + 1) callers f m =
      ⟨⟨f, m⟩, callers⟩ ::
        match step host (run host steps (callers.length + 1)) callers.length f m with
        | .next f m => visits host steps callers f m
        | .stop _ => [] := by
  rw [visits, h]
  rfl

/-- The run of a running frame is put together from these pieces. -/
theorem ran_run (hf : f.IsRunning) :
    Ran host steps callers f m (visits host steps callers f m)
      (run host steps callers.length f m) := by
  induction steps generalizing callers f m with
  | zero => exact .outOfSteps hf
  | succ steps ih =>
      rw [run]
      cases hcalled : called? host callers.length f m with
      | none =>
          rw [visits_of_not_called hcalled]
          cases hstep : step host (run host steps (callers.length + 1)) callers.length f m with
          | stop o => exact .stop hf hcalled hstep
          | next f' m' => exact .next hf hcalled hstep (ih (isRunning_of_step hf hstep))
      | some N =>
          obtain ⟨_, _, _, f₁, _, _, _, hresume⟩ := step_of_called hcalled
          have hinside := @ih (⟨f, m⟩ :: callers) N.frame N.machine (isRunning_of_called hcalled)
          rw [visits, hcalled]
          cases hstep : step host (run host steps (callers.length + 1)) callers.length f m with
          | stop o =>
              rw [List.append_nil]
              exact .callStop hf hcalled hresume hinside ((hresume _).symm.trans hstep)
          | next f' m' =>
              exact .callNext hf hcalled hresume hinside ((hresume _).symm.trans hstep)
                (ih (isRunning_of_step hf hstep))

namespace Ran

variable {vs : List (Visit ω σ)} {o : Outcome ω σ}

/-- The outcome is that of the run. -/
theorem outcome_eq (h : Ran host steps callers f m vs o) :
    o = run host steps callers.length f m := by
  induction h with
  | outOfSteps _ => rfl
  | stop _ _ hstep => rw [run, hstep]
  | next _ _ hstep _ ih =>
      rw [run, hstep]
      exact ih
  | callStop _ _ hresume _ hstop ih =>
      rw [run, hresume, ← List.length_cons, ← ih, hstop]
  | callNext _ _ hresume _ hnext _ ihinside ihlater =>
      rw [run, hresume, ← List.length_cons, ← ihinside, hnext]
      exact ihlater

end Ran

end

/-! ## The visits of a script

A script is run as a frame that is active on its own. Only a text without a statement has no frame.
-/

namespace Interpreter

def begun (i : Interpreter ω σ) : Machine ω σ :=
  { i.machine with world := { i.machine.world with stopping := false }, lastReturn := none }

/-- The visits of a run of a script. -/
def visits (i : Interpreter ω σ) (steps : Nat) (script : String) (params : Option (List Float)) :
    List (Visit ω σ) :=
  if skipGap script.toList = [] then []
  else Script.visits i.host steps [] { rest := skipGap script.toList, params } i.begun

variable (i : Interpreter ω σ) (steps : Nat) {script : String} (params : Option (List Float))

theorem map_toMoment_visits :
    (i.visits steps script params).map Visit.toMoment = i.moments steps script params := by
  unfold visits moments
  split
  · rfl
  · exact Script.map_toMoment_visits _ _ _ _ _

/-- A blank script fails at once. -/
theorem evaluate_of_blank (htext : skipGap script.toList = []) :
    i.evaluate steps script params =
      i.conclude script.toList (.failed .emptyScript) 0 i.begun := by
  unfold evaluate enter
  dsimp only
  rw [htext]
  rfl

/-- The run of any other script is the run of a frame. -/
theorem evaluate_of_not_blank (htext : skipGap script.toList ≠ []) :
    let o := run i.host steps 0 { rest := skipGap script.toList, params } i.begun
    i.evaluate steps script params = i.conclude script.toList o.ending o.left o.machine := by
  unfold evaluate enter
  dsimp only
  split
  · rename_i heq
    exact absurd heq htext
  · rfl

/-- And it is put together from its visits. -/
theorem ran_evaluate (htext : skipGap script.toList ≠ []) :
    Ran i.host steps [] { rest := skipGap script.toList, params } i.begun
      (i.visits steps script params)
      (run i.host steps 0 { rest := skipGap script.toList, params } i.begun) := by
  unfold visits
  rw [if_neg htext]
  exact ran_run (Activation.isRunning_fresh params)

end Interpreter

end NumScript.Script
