import NumScript.Proofs.Script.Changes
import NumScript.Proofs.Script.Soundness

set_option autoImplicit false

/-! # The anatomy of a step

What one step of a running frame comes to, with the part that a subroutine has in it kept apart
(`step_anatomy`). Either the run stops before the statement, or the statement asks for something. If
it calls a subroutine, the call is refused, or the subroutine runs and the statement ends as it does
(`Frame.resume`). If it defines one, the body is checked. Every other request is met by the
statement on its own, whatever subroutines there are (`Action.IsOwn`).

Two errors say something of a run and not of a text: the host asked the script to stop, or too many
subroutines are active (`Error.IsOfRun`). Reading a statement never gives one of them, and neither
does a check or an action of a statement's own. So each arises at one place of a step only.

## How to use it

`step_anatomy` is split on with `cases`, after the step was generalized. Each case names the request
and what became of it, and the lemmas above say what its ending and its world are. What is left of
the run in such a proof is at most the subroutine that was called.
-/

namespace NumScript.Script

variable {ω σ : Type}

/-! ## The errors of a run

The two errors are told apart from all others because of what they say of the text: nothing. Every
reader gives errors of its own, and none of these is among them. -/

def Error.IsOfRun : Error → Prop
  | terminated => True
  | tooDeep _ _ => True
  | _ => False

def Ending.IsOfText (ending : Ending) : Prop :=
  ∀ e, ending = .failed e → ¬ e.IsOfRun

def Step.IsOfText : Step ω σ → Prop
  | .next _ _ => True
  | .stop o => o.ending.IsOfText

theorem not_isOfRun_of_value {v : View ω} {mode : Mode} {text : List Char} {e : Error}
    (h : v.value mode text = .error e) : ¬ e.IsOfRun := by
  unfold View.value at h
  grind [Error.IsOfRun]

theorem not_isOfRun_of_values {v : View ω} {mode : Mode} {texts : List (List Char)}
    {retained : Expr.Retained} {e : Error} (h : (v.values mode retained texts).1 = .error e) :
    ¬ e.IsOfRun := by
  induction texts generalizing retained with
  | nil => cases h
  | cons text more ih =>
      unfold View.values at h
      grind [not_isOfRun_of_value]

section

variable {v : View ω} {mode : Mode} {start : List Char} {p q : Progress} {e : Error}

theorem not_isOfRun_of_param (h : Reader.param v mode p = .error e q) : ¬ e.IsOfRun := by
  rw [Reader.param_eq] at h
  grind [not_isOfRun_of_value]

theorem not_isOfRun_of_arguments (h : Reader.arguments v mode p = .error e q) : ¬ e.IsOfRun := by
  obtain ⟨rest, heq⟩ := Reader.arguments_eq v mode p
  rw [heq] at h
  grind [not_isOfRun_of_values]

/-- Reading a statement never gives an error of a run. -/
theorem not_isOfRun_of_statement {k : Keyword}
    (h : Reader.statement v mode start k p = .error e q) : ¬ e.IsOfRun := by
  cases k with
  | set =>
      change Reader.assignment v mode p = _ at h
      rw [Reader.assignment_eq] at h
      grind [not_isOfRun_of_param, Error.IsOfRun]
  | call =>
      change Reader.nativeCall v mode p = _ at h
      rw [Reader.nativeCall_eq] at h
      grind [not_isOfRun_of_arguments, Error.IsOfRun]
  | goto =>
      change Reader.subroutineCall v mode p = _ at h
      rw [Reader.subroutineCall_eq] at h
      grind [not_isOfRun_of_arguments, Error.IsOfRun]
  | var | exportVar | pop =>
      simp only [Reader.statement, Reader.declaration_eq] at h
      grind [Error.IsOfRun]
  | ifBlock =>
      change Reader.conditional v mode p = _ at h
      rw [Reader.conditional_eq] at h
      grind [not_isOfRun_of_param, Error.IsOfRun]
  | whileBlock =>
      change Reader.loop v mode start p = _ at h
      rw [Reader.loop_eq] at h
      grind [not_isOfRun_of_param, Error.IsOfRun]
  | define =>
      change Reader.definition p = _ at h
      rw [Reader.definition_eq] at h
      grind [Error.IsOfRun]
  | returnValue =>
      change Reader.result v mode p = _ at h
      rw [Reader.result_eq] at h
      grind [not_isOfRun_of_param, Error.IsOfRun]
  | exit | elseBranch | fi | done | endDefine => cases h

end

theorem Ending.isOfText_finished : Ending.finished.IsOfText := by
  intro e h
  cases h

theorem Ending.isOfText_outOfSteps : Ending.outOfSteps.IsOfText := by
  intro e h
  cases h

theorem Ending.isOfText_failed {e : Error} (h : ¬ e.IsOfRun) : (Ending.failed e).IsOfText := by
  rintro _ ⟨⟩
  exact h

/-! ## Before a statement

A request to stop is looked for before anything is read, and it is the only thing that can stop a
run there with an error of a run. -/

section

variable {host : Host ω σ} {f f' : Frame ω} {m m' : Machine ω σ} {a : Action} {o : Outcome ω σ}

/-- Without a request to stop, a run that stops before a statement does so for a reason in the text.
-/
theorem isOfText_of_request_error
    (hs : ¬ (f.mode.observesTermination && m.world.stopping) = true)
    (h : request host f m = .error o) : o.ending.IsOfText := by
  unfold request at h
  rw [if_neg hs] at h
  rcases hjump : f.takeJump with ⟨start, point⟩
  rw [hjump] at h
  cases point with
  | inside text =>
      cases h
      exact Ending.isOfText_failed id
  | before rest =>
      dsimp only at h
      split at h
      · cases h
        dsimp only
        split
        · exact Ending.isOfText_finished
        · exact Ending.isOfText_failed id
      · cases h
        exact Ending.isOfText_failed id
      · split at h
        · rename_i hread
          cases h
          exact Ending.isOfText_failed (not_isOfRun_of_statement hread)
        · cases h

/-- A running frame looks whether the host asked to stop. -/
theorem observed_of_isRunning (hf : f.IsRunning) (hs : m.world.stopping = true) :
    (f.mode.observesTermination && m.world.stopping) = true := by
  rw [hf.execute, hs]
  rfl

/-- A running frame that finds a request to stop does nothing else. -/
theorem request_of_stopping (hf : f.IsRunning) (hs : m.world.stopping = true) :
    request host f m = .error ⟨.failed .terminated, Text.byteSize f.rest, m, f.outer⟩ := by
  unfold request
  rw [if_pos (observed_of_isRunning hf hs)]

/-! ## A statement

The actions of a statement's own are those for which the way to run subroutines does not matter. The
lemma that says so lets all others be about the same step with different subroutines. -/

/-- The statement does what it asks for on its own: it runs no subroutine and checks none. -/
def Action.IsOwn : Action → Prop
  | .invoke _ _ _ => False
  | .define _ _ => False
  | _ => True

theorem Frame.finishStatement_isOfText (f : Frame ω) (m : Machine ω σ) :
    (f.finishStatement m).IsOfText := by
  unfold Frame.finishStatement
  split
  · trivial
  · exact Ending.isOfText_failed id

theorem declare_isOfText (host : Host ω σ) (sort : Declaration) (f : Frame ω) (m : Machine ω σ)
    (names : List (List Char × List Char)) : (declare host sort f m names).IsOfText := by
  induction names generalizing f m with
  | nil => exact f.finishStatement_isOfText m
  | cons read more ih =>
      obtain ⟨word, rest⟩ := read
      unfold declare
      dsimp only
      split
      · exact Ending.isOfText_failed id
      · split
        · exact ih _ _
        · rename_i e he
          rw [declareName_error he]
          exact Ending.isOfText_failed id

section

variable {callee : Frame ω → Machine ω σ → Outcome ω σ} {depth : Nat}

/-- What a statement does on its own does not depend on subroutines. -/
theorem perform_eq_of_isOwn (ha : a.IsOwn) (callee' : Frame ω → Machine ω σ → Outcome ω σ)
    (depth' : Nat) : perform host callee depth f m a = perform host callee' depth' f m a := by
  cases a with
  | invoke _ _ _ | define _ _ => exact ha.elim
  | finish result => cases result <;> rfl
  | pass | jump _ | assign _ _ | call _ _ | declare _ _ => rfl

theorem perform_isOfText (ha : a.IsOwn) : (perform host callee depth f m a).IsOfText := by
  cases a with
  | invoke _ _ _ | define _ _ => exact ha.elim
  | pass => exact f.finishStatement_isOfText m
  | jump j => exact Frame.finishStatement_isOfText { f with jumps := j :: f.jumps } m
  | assign name x => exact Frame.finishStatement_isOfText _ _
  | call name args =>
      simp only [perform]
      split
      · exact Frame.finishStatement_isOfText _ _
      · exact Ending.isOfText_failed id
  | declare sort names => exact declare_isOfText host sort f m names
  | finish result => cases result <;> exact Ending.isOfText_finished

end

end

/-! ## Checks

A check of a body is a run with another mode. It looks for no request to stop and calls nothing, so
neither of the two errors can arise in it. -/

/-- A way to run frames under which checks end for a reason in the text. -/
def ChecksText (callee : Frame ω → Machine ω σ → Outcome ω σ) : Prop :=
  ∀ (f : Frame ω) (m : Machine ω σ), f.mode = .validate → (callee f m).ending.IsOfText

section

variable {host : Host ω σ} {callee : Frame ω → Machine ω σ → Outcome ω σ} (hc : ChecksText callee)

include hc

theorem checkBody_isOfText (f : Frame ω) (m : Machine ω σ) (body : String) :
    (checkBody callee f m body).1.IsOfText := by
  unfold checkBody enter
  dsimp only
  split
  · exact Ending.isOfText_failed id
  · exact hc _ m rfl

theorem perform_define_isOfText (depth : Nat) (f : Frame ω) (m : Machine ω σ) (name body : String) :
    (perform host callee depth f m (.define name body)).IsOfText := by
  have hbody := checkBody_isOfText hc f m body
  simp only [perform]
  rcases hcheck : checkBody callee f m body with ⟨ending, m'⟩
  rw [hcheck] at hbody
  cases ending with
  | finished => exact Frame.finishStatement_isOfText _ _
  | failed _ | outOfSteps => exact hbody

theorem step_check_isOfText (depth : Nat) {f : Frame ω} (hf : f.mode = .validate)
    (m : Machine ω σ) : (step host callee depth f m).IsOfText := by
  rw [step_eq]
  cases hreq : request host f m with
  | error o => exact isOfText_of_request_error (not_observed_of_validate hf m) hreq
  | ok asked =>
      obtain ⟨a, f', m'⟩ := asked
      obtain ⟨_, _, _, _, _, _, hread⟩ := statement_of_request hreq
      rw [hf] at hread
      have ha := quiet_of_asks (asks_of_statement hread)
      cases a with
      | define name body => exact perform_define_isOfText hc depth f' m' name body
      | pass | declare _ _ => exact perform_isOfText trivial
      | assign _ _ | call _ _ | invoke _ _ _ | jump _ | finish _ => exact ha.elim

end

/-- A check never ends with an error of a run. -/
theorem run_checksText (host : Host ω σ) (steps depth : Nat) :
    ChecksText (run host steps depth) := by
  induction steps generalizing depth with
  | zero =>
      intro f m _
      exact Ending.isOfText_outOfSteps
  | succ steps ih =>
      intro f m hf
      have hstep : (step host (run host steps (depth + 1)) depth f m).IsOfText :=
        step_check_isOfText (ih (depth + 1)) depth hf m
      have hquiet := @step_validate _ _ host _ (run_validate host steps (depth + 1)) f hf depth m
      rw [run]
      cases hs : step host (run host steps (depth + 1)) depth f m with
      | next f' m' =>
          rw [hs] at hquiet
          exact ih depth f' m' (hquiet.1.trans hf)
      | stop o =>
          rw [hs] at hstep
          exact hstep

/-! ## Subroutines

What becomes of a caller is decided by the ending of its subroutine. It goes on behind the call, and
the only error that it adds of its own is a missing terminator. -/

/-- The statement that called a subroutine goes on when it is done, or stops as it did. -/
def Frame.resume (f : Frame ω) (o : Outcome ω σ) : Step ω σ :=
  match o.ending with
  | .finished => f.finishStatement o.machine
  | ending => f.stop o.machine ending

def Step.machine : Step ω σ → Machine ω σ
  | .next _ m => m
  | .stop o => o.machine

section

variable {f f' : Frame ω} {m m' : Machine ω σ} {o o' : Outcome ω σ}

theorem Frame.machine_finishStatement (f : Frame ω) (m : Machine ω σ) :
    (f.finishStatement m).machine = m := by
  unfold Frame.finishStatement
  split <;> rfl

theorem Frame.machine_resume (f : Frame ω) (o : Outcome ω σ) :
    (f.resume o).machine = o.machine := by
  unfold Frame.resume
  split
  · exact f.machine_finishStatement o.machine
  · rfl

/-- After a statement was performed, the only error is a missing terminator. -/
theorem ending_of_finishStatement (h : f.finishStatement m = .stop o) :
    o.ending = .failed .expectedTerminator := by
  unfold Frame.finishStatement at h
  split at h
  · cases h
  · cases h
    rfl

theorem machine_of_resume_stop (h : f.resume o' = .stop o) : o.machine = o'.machine := by
  rw [← f.machine_resume o', h]
  rfl

/-- A caller stops as its subroutine did. -/
theorem resume_of_not_finished (f : Frame ω) (h : o'.ending ≠ .finished) :
    f.resume o' = f.stop o'.machine o'.ending := by
  unfold Frame.resume
  split
  · rename_i hend
    exact absurd hend h
  · rfl

/-- A caller that stops, and not for want of a terminator, stops as its subroutine did. -/
theorem ending_of_resume_stop (h : f.resume o' = .stop o)
    (hend : o.ending ≠ .failed .expectedTerminator) :
    o'.ending ≠ .finished ∧ o'.ending = o.ending := by
  unfold Frame.resume at h
  split at h
  · exact absurd (ending_of_finishStatement h) hend
  · rename_i hne
    cases h
    exact ⟨hne, rfl⟩

/-- A caller goes on only after a subroutine that finished. -/
theorem finished_of_resume_next (h : f.resume o' = .next f' m') :
    o'.ending = .finished ∧ m' = o'.machine := by
  have hm : (f.resume o').machine = m' := by
    rw [h]
    rfl
  refine ⟨?_, by rw [← hm, f.machine_resume]⟩
  unfold Frame.resume at h
  split at h
  · assumption
  · cases h

end

/-! ## The ways to stop

A run stops with an error, at the end of its text or with one of two statements. Which of these it
is can be read off the action. -/

section

variable {host : Host ω σ} {callee : Frame ω → Machine ω σ → Outcome ω σ} {depth : Nat}
  {f : Frame ω} {m : Machine ω σ} {o : Outcome ω σ}

/-- Declaring names stops only where that fails. -/
theorem exists_failed_of_declare {sort : Declaration} {names : List (List Char × List Char)}
    (h : declare host sort f m names = .stop o) : ∃ e, o.ending = .failed e := by
  induction names generalizing f m with
  | nil => exact ⟨_, ending_of_finishStatement h⟩
  | cons read more ih =>
      unfold declare at h
      dsimp only at h
      split at h
      · cases h
        exact ⟨_, rfl⟩
      · split at h
        · exact ih h
        · cases h
          exact ⟨_, rfl⟩

/-- A statement of its own that stops a run fails, or finishes it and leaves the machine but for the
last result. -/
theorem perform_stop_of_isOwn {a : Action} (ha : a.IsOwn)
    (h : perform host callee depth f m a = .stop o) :
    (∃ e, o.ending = .failed e) ∨ o.ending = .finished ∧ o.machine.world = m.world := by
  cases a with
  | invoke _ _ _ | define _ _ => exact ha.elim
  | pass | jump _ | assign _ _ => exact .inl ⟨_, ending_of_finishStatement h⟩
  | call name args =>
      simp only [perform] at h
      split at h
      · exact .inl ⟨_, ending_of_finishStatement h⟩
      · cases h
        exact .inl ⟨_, rfl⟩
  | declare sort names => exact .inl (exists_failed_of_declare h)
  | finish result =>
      cases result <;>
      · cases h
        exact .inr ⟨rfl, rfl⟩

end

/-! ## A step

All cases in one type, so that proofs about runs split on it and find the parts of the step named.
-/

inductive Anatomy (host : Host ω σ) (callee : Frame ω → Machine ω σ → Outcome ω σ) (depth : Nat)
    (f : Frame ω) (m : Machine ω σ) : Step ω σ → Prop
  | stopped {o : Outcome ω σ} :
      request host f m = .error o → Anatomy host callee depth f m (.stop o)
  | tooDeep {name body : String} {args : List Float} {f' : Frame ω} {m' : Machine ω σ} :
      request host f m = .ok (.invoke name body args, f', m') → host.maxDepth ≤ depth →
      called? host depth f m = none →
      Anatomy host callee depth f m (f'.stop m' (.failed (.tooDeep name host.maxDepth)))
  | blank {name body : String} {args : List Float} {f' : Frame ω} {m' : Machine ω σ} :
      request host f m = .ok (.invoke name body args, f', m') → depth < host.maxDepth →
      called? host depth f m = none →
      Anatomy host callee depth f m
        (f'.stop { m' with lastReturn := none } (.failed .emptyScript))
  | called {name body : String} {args : List Float} {f' : Frame ω} {m' : Machine ω σ}
      {N : Moment ω σ} :
      request host f m = .ok (.invoke name body args, f', m') → depth < host.maxDepth →
      called? host depth f m = some N →
      Anatomy host callee depth f m (f'.resume (callee N.frame N.machine))
  | checked {name body : String} {f' : Frame ω} {m' : Machine ω σ} :
      request host f m = .ok (.define name body, f', m') → called? host depth f m = none →
      Anatomy host callee depth f m (perform host callee depth f' m' (.define name body))
  | own {a : Action} {f' : Frame ω} {m' : Machine ω σ} :
      request host f m = .ok (a, f', m') → a.IsOwn → called? host depth f m = none →
      Anatomy host callee depth f m (perform host callee depth f' m' a)

section

variable {host : Host ω σ} {callee : Frame ω → Machine ω σ → Outcome ω σ} {depth : Nat}
  {f f' : Frame ω} {m m' : Machine ω σ}

theorem perform_invoke_eq (name body : String) (args : List Float) :
    perform host callee depth f m (.invoke name body args) =
      if host.maxDepth ≤ depth then f.stop m (.failed (.tooDeep name host.maxDepth))
      else f.resume (enter callee { rest := body.toList, params := some args }
        { m with lastReturn := none }) := by
  by_cases hdepth : host.maxDepth ≤ depth
  · simp only [perform, invoke, if_pos hdepth]
  · simp only [perform, invoke, if_neg hdepth, Frame.resume]
    generalize enter callee _ _ = o
    obtain ⟨ending, left, m', outer⟩ := o
    cases ending <;> rfl

/-- A statement that calls a subroutine ends as the subroutine lets it. -/
theorem step_of_called {N : Moment ω σ} (h : called? host depth f m = some N) :
    ∃ name body args f₁ m₁, request host f m = .ok (.invoke name body args, f₁, m₁) ∧
      depth < host.maxDepth ∧
      ∀ callee, step host callee depth f m = f₁.resume (callee N.frame N.machine) := by
  unfold called? at h
  split at h
  · rename_i name body args f₁ m₁ hreq
    split at h
    · cases h
    rename_i hopen
    obtain ⟨hdepth, hbody⟩ := not_or.1 hopen
    cases h
    refine ⟨name, body, args, f₁, m₁, hreq, by omega, fun callee => ?_⟩
    rw [step_eq, hreq]
    dsimp only
    rw [perform_invoke_eq, if_neg hdepth]
    unfold enter
    dsimp only
    split
    · rename_i heq
      exact absurd heq hbody
    · rfl
  · cases h

/-- A step is one of these. -/
theorem step_anatomy (host : Host ω σ) (callee : Frame ω → Machine ω σ → Outcome ω σ) (depth : Nat)
    (f : Frame ω) (m : Machine ω σ) :
    Anatomy host callee depth f m (step host callee depth f m) := by
  cases hcalled : called? host depth f m with
  | some N =>
      obtain ⟨name, body, args, f₁, m₁, hreq, hdepth, hstep⟩ := step_of_called hcalled
      rw [hstep]
      exact .called hreq hdepth hcalled
  | none =>
      rw [step_eq]
      cases hreq : request host f m with
      | error o => exact .stopped hreq
      | ok asked =>
          obtain ⟨a, f', m'⟩ := asked
          cases a with
          | define name body => exact .checked hreq hcalled
          | invoke name body args =>
              dsimp only
              rw [perform_invoke_eq]
              split
              · rename_i hdepth
                exact .tooDeep hreq hdepth hcalled
              rename_i hdepth
              -- the subroutine is not called, so its body is blank
              have hbody : skipGap body.toList = [] := Decidable.byContradiction fun hbody => by
                rw [called?_of_invoke hreq hdepth hbody] at hcalled
                cases hcalled
              unfold enter
              dsimp only
              rw [hbody]
              exact .blank hreq (by omega) hcalled
          | pass | jump _ | assign _ _ | call _ _ | declare _ _ | finish _ =>
              exact .own hreq trivial hcalled

/-- A running frame that goes on still runs. -/
theorem isRunning_of_step {steps : Nat} (hf : f.IsRunning)
    (h : step host (run host steps (depth + 1)) depth f m = .next f' m') : f'.IsRunning := by
  have hall (M : Moment ω σ) : M.Within host (fun _ => True) fun _ => True :=
    fun _ _ => ⟨trivial, fun _ => trivial⟩
  have hcalled : CalledChanges host (fun _ => True) (fun _ => True) (run host steps (depth + 1))
      depth ⟨f, m⟩ :=
    fun N hN => run_changes (isRunning_of_called hN) fun M _ => hall M
  have hstep := step_changes hf (hall _) (run_validate host steps (depth + 1)) hcalled
  rw [h] at hstep
  exact hstep.1

end

end NumScript.Script
