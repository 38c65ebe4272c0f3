import NumScript.Script.Run

set_option autoImplicit false

/-! # More steps

A run that ended within some number of steps ends the same way within any greater number. A step
asks for the outcome of another frame at most once, so a step that knows more outcomes (`Extends`)
differs from one that knows less only where the latter ran out of steps. -/

namespace NumScript.Script

variable {ω σ : Type}

/-- `later` gives every outcome that `earlier` gives, and perhaps more. -/
def Extends (earlier later : Frame ω → Machine ω σ → Outcome ω σ) : Prop :=
  ∀ f m, (earlier f m).ending ≠ .outOfSteps → later f m = earlier f m

/-- Whether a step stopped for want of steps. -/
def Step.RanOut : Step ω σ → Prop
  | .next _ _ => False
  | .stop o => o.ending = .outOfSteps

theorem enter_of_extends {earlier later : Frame ω → Machine ω σ → Outcome ω σ}
    (h : Extends earlier later) : Extends (enter earlier) (enter later) := by
  intro f m hend
  unfold enter at *
  split at hend
  · rfl
  · exact h _ _ hend

theorem invoke_of_extends {host : Host ω σ} {earlier later : Frame ω → Machine ω σ → Outcome ω σ}
    (h : Extends earlier later) {depth : Nat} {m : Machine ω σ} {name body : String}
    {args : List Float} (hend : (invoke host earlier depth m name body args).1 ≠ .outOfSteps) :
    invoke host later depth m name body args = invoke host earlier depth m name body args := by
  unfold invoke at *
  split
  · rfl
  · rename_i hdepth
    simp only [hdepth, if_false] at hend
    rw [enter_of_extends h _ _ hend]

theorem checkBody_of_extends {earlier later : Frame ω → Machine ω σ → Outcome ω σ}
    (h : Extends earlier later) {f : Frame ω} {m : Machine ω σ} {body : String}
    (hend : (checkBody earlier f m body).1 ≠ .outOfSteps) :
    checkBody later f m body = checkBody earlier f m body := by
  unfold checkBody at *
  dsimp only at *
  rw [enter_of_extends h _ _ hend]

theorem perform_of_extends {host : Host ω σ} {earlier later : Frame ω → Machine ω σ → Outcome ω σ}
    (h : Extends earlier later) {depth : Nat} {f : Frame ω} {m : Machine ω σ} {action : Action}
    (hend : ¬ (perform host earlier depth f m action).RanOut) :
    perform host later depth f m action = perform host earlier depth f m action := by
  cases action with
  | invoke name body args =>
    have hi := @invoke_of_extends _ _ host _ _ h depth m name body args
    simp only [perform] at *
    rcases he : invoke host earlier depth m name body args with ⟨ending, after⟩
    rw [he] at hi hend
    -- only the third ending is ruled out, the other two know the subroutine's outcome
    cases ending with
    | finished => rw [hi (by simp)]
    | failed e => rw [hi (by simp)]
    | outOfSteps => simp [Frame.stop, Step.RanOut] at hend
  | define name body =>
    have hi := @checkBody_of_extends _ _ _ _ h f m body
    simp only [perform] at *
    rcases he : checkBody earlier f m body with ⟨ending, after⟩
    rw [he] at hi hend
    cases ending with
    | finished => rw [hi (by simp)]
    | failed e => rw [hi (by simp)]
    | outOfSteps => simp [Frame.stop, Step.RanOut] at hend
  | finish result => cases result <;> rfl
  | _ => rfl

theorem dispatch_of_extends {host : Host ω σ}
    {earlier later : Frame ω → Machine ω σ → Outcome ω σ} (h : Extends earlier later)
    {depth : Nat} {f : Frame ω} {m : Machine ω σ}
    (hend : ¬ (dispatch host earlier depth f m).RanOut) :
    dispatch host later depth f m = dispatch host earlier depth f m := by
  unfold dispatch at *
  rcases hl : readLeading (skipGap f.rest) with ⟨leading, rest⟩
  simp only [hl] at hend ⊢
  cases leading with
  | nothing => rfl
  | unknown word => rfl
  | keyword k =>
    dsimp only at hend ⊢
    split
    · rfl
    · rename_i action p hr
      simp only [hr] at hend
      exact perform_of_extends h hend

theorem step_of_extends {host : Host ω σ} {earlier later : Frame ω → Machine ω σ → Outcome ω σ}
    (h : Extends earlier later) {depth : Nat} {f : Frame ω} {m : Machine ω σ}
    (hend : ¬ (step host earlier depth f m).RanOut) :
    step host later depth f m = step host earlier depth f m := by
  unfold step at *
  split
  · rfl
  · rename_i hstop
    simp only [hstop] at hend
    rcases hj : f.takeJump with ⟨after, point⟩
    simp only [hj] at hend ⊢
    cases point with
    | inside text => rfl
    | before rest => exact dispatch_of_extends h (by simpa using hend)

theorem run_extends_succ (host : Host ω σ) (steps depth : Nat) :
    Extends (run host steps depth) (run host (steps + 1) depth) := by
  induction steps generalizing depth with
  | zero =>
    intro f m hend
    exact absurd rfl hend
  | succ steps ih =>
    intro f m hend
    have hs := @step_of_extends _ _ host _ _ (ih (depth + 1)) depth f m
    rw [run] at hend ⊢
    rw [run]
    -- if the step ran out of steps so did the run, and there is nothing to show
    by_cases hr : (step host (run host steps (depth + 1)) depth f m).RanOut
    · cases hstep : step host (run host steps (depth + 1)) depth f m with
      | next f' m' =>
        rw [hstep] at hr
        exact hr.elim
      | stop o =>
        rw [hstep] at hend hr
        exact absurd hr hend
    · rw [hs hr]
      cases hstep : step host (run host steps (depth + 1)) depth f m with
      | next f' m' =>
        rw [hstep] at hend
        exact ih depth f' m' hend
      | stop o => rfl

/-- A run that ended keeps its outcome when it is given more steps. -/
theorem run_eq_of_le {host : Host ω σ} {steps more depth : Nat} {f : Frame ω} {m : Machine ω σ}
    (hle : steps ≤ more) (hend : (run host steps depth f m).ending ≠ .outOfSteps) :
    run host more depth f m = run host steps depth f m := by
  induction hle with
  | refl => rfl
  | step _ ih =>
    rw [← ih]
    exact run_extends_succ host _ depth f m (by rwa [ih])

end NumScript.Script
