import NumScript.Proofs.Script.Visits
import NumScript.Host.Recorder
import NumScript.Script.Steps

set_option autoImplicit false

/-! # Requests to stop

A host may ask the running script to stop while one of its functions is called or one of its
watchers is told a number. The request is looked at before each statement, and nowhere else. It is
not lost all the same: the only ways in which a run finishes are the end of its text and the
statements `return` and `exit`. The end of a text is found where the next statement is due, after
the look. The two statements change nothing in the world.

So a run that was asked to stop performs no further statement (`Ran.refused`) and does not finish
(`Ran.heeded`). It fails as the statement does during which it was asked, if this one does fail, and
else it says that it was asked. A caller that finds its subroutine stopped stops in the same way.

## Which moment raised a request

A request is a flag of the world, and while a subroutine runs the statement that called it is under
way as well. If the flag is up afterwards, it is the subroutine's statement that raised it. `Raises`
therefore asks for the flag whatever a subroutine would do, which only the statement itself can
cause.
-/

namespace NumScript.Script

variable {ω σ : Type}

/-! ## Raising a request

Which moment raised a request, and whether its statement failed, is said without regard to
subroutines. So a caller does not raise the request of its subroutine once more. -/

/-- During the statement of a moment the host asks to stop. It does so in answer to the statement
itself, and not to a subroutine: the request is there whatever a subroutine would do. -/
def Moment.Raises (host : Host ω σ) (M : Moment ω σ) : Prop :=
  M.machine.world.stopping = false ∧
    ∀ callee depth, (step host callee depth M.frame M.machine).machine.world.stopping = true

/-- The statement of a moment fails with an error, whatever a subroutine would do. -/
def Moment.Fails (host : Host ω σ) (M : Moment ω σ) (e : Error) : Prop :=
  ∀ callee depth, ∃ o, step host callee depth M.frame M.machine = .stop o ∧ o.ending = .failed e

def Moment.IsRefused (host : Host ω σ) (M : Moment ω σ) : Prop :=
  ∃ o, request host M.frame M.machine = .error o ∧ o.ending = .failed .terminated

/-- The outcome of a run during which the moment `M` raised a request. -/
def Outcome.Heeds (host : Host ω σ) (M : Moment ω σ) (o : Outcome ω σ) : Prop :=
  o.machine.world.stopping = true ∧
    ((∃ e, e ≠ .terminated ∧ M.Fails host e ∧ o.ending = .failed e) ∨
      (¬ ∃ e, M.Fails host e) ∧ (o.ending = .failed .terminated ∨ o.ending = .outOfSteps))

/-! ## Definitions

A definition runs a check, which may look like a subroutine but has no effects. -/

section

variable {host : Host ω σ} {callee : Frame ω → Machine ω σ → Outcome ω σ} {depth : Nat}
  {f : Frame ω} {m : Machine ω σ} {o : Outcome ω σ}

/-- Defining a subroutine leaves the world as it is. -/
theorem world_of_define (hquiet : Harmless callee) (name body : String) :
    (perform host callee depth f m (.define name body)).machine.world = m.world := by
  have hbody := (checkBody_sameWorld hquiet f m body).world_eq
  simp only [perform]
  rcases hcheck : checkBody callee f m body with ⟨ending, m'⟩
  rw [hcheck] at hbody
  cases ending with
  | finished =>
      dsimp only
      rw [Frame.machine_finishStatement]
      split <;> exact hbody
  | failed _ | outOfSteps => exact hbody

end

/-! ## The statement that raises a request

What a step can do to the world, sorted by whether a subroutine was called. A request that appears
in a step without a call was raised by its statement. -/

section

variable {host : Host ω σ} {callee : Frame ω → Machine ω σ → Outcome ω σ} {depth steps : Nat}
  {f f' : Frame ω} {m m' : Machine ω σ} {o : Outcome ω σ}

/-- A step leaves the world as it is, unless the statement acts on its own or a subroutine does not
leave it so. -/
theorem world_of_step (hquiet : Harmless callee)
    (hcalled : ∀ N, called? host depth f m = some N →
      (callee N.frame N.machine).machine.world = N.machine.world) :
    (step host callee depth f m).machine.world = m.world ∨
      ∃ a f' m', request host f m = .ok (a, f', m') ∧ a.IsOwn := by
  have hanatomy := step_anatomy host callee depth f m
  generalize step host callee depth f m = s at hanatomy ⊢
  cases hanatomy with
  | stopped hreq => exact .inl (sameWorld_of_request_error hreq).world_eq
  | tooDeep hreq _ _ | blank hreq _ _ => exact .inl (statement_of_request hreq).2.1.world_eq
  | called _ _ hN =>
      rw [Frame.machine_resume, hcalled _ hN]
      exact .inl (world_of_called hN)
  | checked hreq _ =>
      rw [world_of_define hquiet]
      exact .inl (statement_of_request hreq).2.1.world_eq
  | own hreq ha _ => exact .inr ⟨_, _, _, hreq, ha⟩

/-- What a statement does on its own is the whole step, whatever subroutines there are. -/
theorem step_of_isOwn {a : Action} (hreq : request host f m = .ok (a, f', m')) (ha : a.IsOwn)
    (callee callee' : Frame ω → Machine ω σ → Outcome ω σ) (depth depth' : Nat) :
    step host callee depth f m = perform host callee' depth' f' m' a := by
  rw [step_eq, hreq]
  exact perform_eq_of_isOwn ha callee' depth'

/-- A request is raised by a statement that acts on its own. -/
theorem exists_own_of_raises (h : Moment.Raises host ⟨f, m⟩) :
    ∃ a f' m', request host f m = .ok (a, f', m') ∧ a.IsOwn := by
  obtain ⟨hopen, hraised⟩ := h
  -- a subroutine without steps does nothing, so it is not the subroutine that asks
  rcases world_of_step (run_validate host 0 0) fun _ _ => rfl with hworld | hown
  · have hidle : m.world.stopping = true := hworld ▸ hraised (run host 0 0) 0
    rw [show m.world.stopping = false from hopen] at hidle
    cases hidle
  · exact hown

/-- A statement that calls a subroutine raises no request itself. -/
theorem called?_of_raises (h : Moment.Raises host ⟨f, m⟩) : called? host depth f m = none := by
  obtain ⟨a, f', m', hreq, ha⟩ := exists_own_of_raises h
  cases hcalled : called? host depth f m with
  | none => rfl
  | some N =>
      obtain ⟨_, _, _, _, _, hreq', _⟩ := step_of_called hcalled
      rw [hreq] at hreq'
      cases hreq'
      exact ha.elim

/-- If the request is there after a step and not before, and no subroutine was called, then the
statement raised it. -/
theorem raises_of_step (hopen : m.world.stopping = false)
    (hcalled : called? host depth f m = none) (hquiet : Harmless callee)
    (hraised : (step host callee depth f m).machine.world.stopping = true) :
    Moment.Raises host ⟨f, m⟩ := by
  refine ⟨hopen, fun callee' depth' => ?_⟩
  have hnone (N : Moment ω σ) (hN : called? host depth f m = some N) :
      (callee N.frame N.machine).machine.world = N.machine.world := by
    rw [hcalled] at hN
    cases hN
  rcases world_of_step hquiet hnone with hworld | ⟨a, f', m', hreq, ha⟩
  · rw [hworld, hopen] at hraised
    cases hraised
  · rw [step_of_isOwn hreq ha callee callee depth depth] at hraised
    rw [step_of_isOwn hreq ha callee' callee depth' depth]
    exact hraised

/-- A statement that raises a request and stops the run fails. -/
theorem heeds_of_raises_stop (hraises : Moment.Raises host ⟨f, m⟩)
    (hstep : step host callee depth f m = .stop o) : o.Heeds host ⟨f, m⟩ := by
  obtain ⟨a, f', m', hreq, ha⟩ := exists_own_of_raises hraises
  have hstopping : o.machine.world.stopping = true := by
    have h := hraises.2 callee depth
    rwa [hstep] at h
  have hstop (callee' : Frame ω → Machine ω σ → Outcome ω σ) (depth' : Nat) :
      step host callee' depth' f m = .stop o := by
    rw [← hstep, step_of_isOwn hreq ha callee callee depth depth]
    exact step_of_isOwn hreq ha callee' callee depth' depth
  have hperform := (step_of_isOwn hreq ha callee callee depth depth).symm.trans hstep
  rcases perform_stop_of_isOwn ha hperform with ⟨e, he⟩ | ⟨_, hworld⟩
  · have hne : e ≠ .terminated := by
      rintro rfl
      have htext := @perform_isOfText _ _ host f' m' a callee depth ha
      rw [hperform] at htext
      exact htext _ he trivial
    exact ⟨hstopping, .inl ⟨e, hne, fun callee' depth' => ⟨o, hstop callee' depth', he⟩, he⟩⟩
  · have hopen : m.world.stopping = false := hraises.1
    rw [hworld, (statement_of_request hreq).2.1.world_eq, hopen] at hstopping
    cases hstopping

/-- A step that stops a run without a subroutine either found a request to stop and says so, or
found none and says something else. In the second case it fails unless it leaves the world as it is. -/
theorem stop_cases (hf : f.IsRunning) (hN : called? host depth f m = none)
    (htext : ChecksText callee) (hquiet : Harmless callee)
    (hstep : step host callee depth f m = .stop o) :
    m.world.stopping = true ∧ o.ending = .failed .terminated ∧ o.machine.world = m.world ∨
      m.world.stopping = false ∧ o.ending ≠ .failed .terminated ∧
        (o.ending.error? = none → o.machine.world = m.world) := by
  cases hs : m.world.stopping with
  | true =>
      rw [step_of_stopping (observed_of_isRunning hf hs)] at hstep
      cases hstep
      exact .inl ⟨rfl, rfl, rfl⟩
  | false =>
      have hopen : ¬ (f.mode.observesTermination && m.world.stopping) = true := by
        rw [hs, Bool.and_false]
        exact Bool.false_ne_true
      -- without a request the run stops for what the step does, and each way is looked at by
      -- itself
      have hanatomy := step_anatomy host callee depth f m
      generalize heq : step host callee depth f m = s at hanatomy
      rw [hstep] at heq
      cases hanatomy with
      | stopped hreq =>
          cases heq
          exact .inr ⟨rfl, fun hend => isOfText_of_request_error hopen hreq _ hend trivial,
            fun _ => (sameWorld_of_request_error hreq).world_eq⟩
      | tooDeep _ _ _ | blank _ _ _ =>
          cases heq
          exact .inr ⟨rfl, fun hend => (by cases hend), fun hend => by cases hend⟩
      | called _ _ hsome =>
          rw [hN] at hsome
          cases hsome
      | @checked name body f' m' hreq _ =>
          have hendtext := @perform_define_isOfText _ _ host _ htext depth f' m' name body
          have hworld := @world_of_define _ _ host _ depth f' m' hquiet name body
          rw [← heq] at hendtext hworld
          exact .inr ⟨rfl, fun hend => hendtext _ hend trivial,
            fun _ => hworld.trans (statement_of_request hreq).2.1.world_eq⟩
      | @own a f' m' hreq ha _ =>
          have hendtext := @perform_isOfText _ _ host f' m' a callee depth ha
          rw [← heq] at hendtext
          refine .inr ⟨rfl, fun hend => hendtext _ hend trivial, fun hnone => ?_⟩
          rcases perform_stop_of_isOwn ha heq.symm with ⟨e, he⟩ | ⟨_, hworld⟩
          · rw [he] at hnone
            cases hnone
          · exact hworld.trans (statement_of_request hreq).2.1.world_eq

/-- A statement after which the run goes on does not fail. -/
theorem not_fails_of_next (hstep : step host callee depth f m = .next f' m') :
    ¬ ∃ e, Moment.Fails host ⟨f, m⟩ e := by
  rintro ⟨e, hfails⟩
  obtain ⟨o, ho, _⟩ := hfails callee depth
  rw [show step host callee depth f m = .stop o from ho] at hstep
  cases hstep

end

/-! ## Runs

Inductions over the pieces of a run. A request that was raised stays, because no statement is
performed behind it that could take it back. So every later moment is refused, and the refusal is
handed up through the callers. -/

section

variable {host : Host ω σ} {f : Frame ω} {m : Machine ω σ} {M : Moment ω σ} {o o' : Outcome ω σ}

theorem called?_of_stopping (hf : f.IsRunning) (hs : m.world.stopping = true) (depth : Nat) :
    called? host depth f m = none := by
  unfold called?
  rw [request_of_stopping hf hs]

theorem Outcome.Heeds.not_finished (h : o.Heeds host M) : o.ending ≠ .finished := by
  obtain ⟨-, ⟨e, -, -, hend⟩ | ⟨-, hend | hend⟩⟩ := h <;>
  · rw [hend]
    exact Ending.noConfusion

/-- What a subroutine heeds its caller heeds. -/
theorem Outcome.Heeds.resume (h : o'.Heeds host M) (hstop : f.resume o' = .stop o) :
    o.Heeds host M := by
  rw [resume_of_not_finished f h.not_finished] at hstop
  cases hstop
  exact h

end

namespace Ran

variable {host : Host ω σ} {steps : Nat} {callers : List (Moment ω σ)} {f : Frame ω}
  {m : Machine ω σ} {vs : List (Visit ω σ)} {o : Outcome ω σ}

/-- A run that was asked to stop before it began performs no statement. -/
theorem of_stopping (h : Ran host steps callers f m vs o) (hs : m.world.stopping = true) :
    (∀ V ∈ vs, V.IsRefused host) ∧ o.machine = m ∧
      (o.ending = .failed .terminated ∨ o.ending = .outOfSteps) := by
  cases h with
  | outOfSteps _ => exact ⟨List.forall_mem_nil _, rfl, .inr rfl⟩
  | stop hf _ hstep =>
      rw [step_of_stopping (observed_of_isRunning hf hs)] at hstep
      cases hstep
      exact ⟨List.forall_mem_singleton.2 ⟨_, request_of_stopping hf hs, rfl⟩, rfl, .inl rfl⟩
  | next hf _ hstep _ =>
      rw [step_of_stopping (observed_of_isRunning hf hs)] at hstep
      cases hstep
  | callStop hf hN _ _ _ =>
      rw [called?_of_stopping hf hs] at hN
      cases hN
  | callNext hf hN _ _ _ _ =>
      rw [called?_of_stopping hf hs] at hN
      cases hN

/-- A run heeds every request that is raised in it. -/
theorem heeded (h : Ran host steps callers f m vs o) :
    ∀ V ∈ vs, V.Raises host → o.Heeds host V.toMoment := by
  induction h with
  | outOfSteps _ => exact List.forall_mem_nil _
  | stop _ _ hstep =>
      exact List.forall_mem_singleton.2 fun hraises => heeds_of_raises_stop hraises hstep
  | @next steps callers _ _ _ _ _ _ _ _ hstep hlater ih =>
      refine List.forall_mem_cons.2 ⟨fun hraises => ?_, ih⟩
      have hs := hraises.2 (run host steps (callers.length + 1)) callers.length
      rw [hstep] at hs
      obtain ⟨-, hmachine, hend⟩ := hlater.of_stopping hs
      exact ⟨by rw [hmachine]; exact hs, .inr ⟨not_fails_of_next hstep, hend⟩⟩
  | callStop _ hN _ _ hstop ih =>
      refine List.forall_mem_cons.2 ⟨fun hraises => ?_, fun V hV hraises =>
        (ih V hV hraises).resume hstop⟩
      rw [called?_of_raises hraises] at hN
      cases hN
  | callNext _ hN _ _ hnext _ ihinside ihlater =>
      refine List.forall_mem_cons.2 ⟨fun hraises => ?_, List.forall_mem_append.2
        ⟨fun V hV hraises => ?_, ihlater⟩⟩
      · rw [called?_of_raises hraises] at hN
        cases hN
      · exact absurd (finished_of_resume_next hnext).1 (ihinside V hV hraises).not_finished

/-- Once a request was raised, no statement is performed any more. -/
theorem refused (h : Ran host steps callers f m vs o) :
    vs.Pairwise fun V W => V.Raises host → W.IsRefused host := by
  induction h with
  | outOfSteps _ => exact .nil
  | stop _ _ _ => exact List.pairwise_singleton _ _
  | @next steps callers _ _ _ _ _ _ _ _ hstep hlater ih =>
      refine List.pairwise_cons.2 ⟨fun W hW hraises => ?_, ih⟩
      have hs := hraises.2 (run host steps (callers.length + 1)) callers.length
      rw [hstep] at hs
      exact (hlater.of_stopping hs).1 W hW
  | callStop _ hN _ _ _ ih =>
      refine List.pairwise_cons.2 ⟨fun W _ hraises => ?_, ih⟩
      rw [called?_of_raises hraises] at hN
      cases hN
  | callNext _ hN _ hinside hnext _ ihinside ihlater =>
      refine List.pairwise_cons.2 ⟨fun W _ hraises => ?_, List.pairwise_append.2
        ⟨ihinside, ihlater, fun V hV W _ hraises => ?_⟩⟩
      · rw [called?_of_raises hraises] at hN
        cases hN
      · exact absurd (finished_of_resume_next hnext).1 (hinside.heeded V hV hraises).not_finished

/-- A request that is there at the end and was not at the beginning was raised at some moment. -/
theorem exists_raises (h : Ran host steps callers f m vs o) (hopen : m.world.stopping = false)
    (hraised : o.machine.world.stopping = true) : ∃ V ∈ vs, V.Raises host := by
  induction h with
  | outOfSteps _ =>
      rw [hopen] at hraised
      cases hraised
  -- without a call the statement raised the request itself
  | @stop steps callers _ _ _ _ hN hstep =>
      refine ⟨_, .head _,
        raises_of_step hopen hN (run_validate host steps (callers.length + 1)) ?_⟩
      rw [hstep]
      exact hraised
  | @next steps callers _ _ _ m' _ _ _ hN hstep _ ih =>
      cases hs : m'.world.stopping with
      | true =>
          refine ⟨_, .head _,
            raises_of_step hopen hN (run_validate host steps (callers.length + 1)) ?_⟩
          rw [hstep]
          exact hs
      | false =>
          obtain ⟨V, hV, hraises⟩ := ih hs hraised
          exact ⟨V, .tail _ hV, hraises⟩
  -- the caller leaves the world as its subroutine did
  | callStop _ hN _ _ hstop ih =>
      rw [← world_of_called hN] at hopen
      rw [machine_of_resume_stop hstop] at hraised
      obtain ⟨V, hV, hraises⟩ := ih hopen hraised
      exact ⟨V, .tail _ hV, hraises⟩
  | @callNext _ _ _ _ _ _ m' _ _ _ _ _ _ hN _ _ hnext _ ihinside ihlater =>
      rw [← world_of_called hN] at hopen
      cases hs : m'.world.stopping with
      | true =>
          obtain ⟨V, hV, hraises⟩ := ihinside hopen ((finished_of_resume_next hnext).2 ▸ hs)
          exact ⟨V, .tail _ (List.mem_append_left _ hV), hraises⟩
      | false =>
          obtain ⟨V, hV, hraises⟩ := ihlater hs hraised
          exact ⟨V, .tail _ (List.mem_append_right _ hV), hraises⟩

/-- A run that finished was not asked to stop. -/
theorem not_stopping_of_finished (h : Ran host steps callers f m vs o)
    (hend : o.ending = .finished) : o.machine.world.stopping = false := by
  induction h with
  | outOfSteps _ => cases hend
  | @stop steps callers _ _ _ hf hN hstep =>
      rcases stop_cases hf hN (run_checksText host steps _) (run_validate host steps _) hstep with
        ⟨_, hend', _⟩ | ⟨hopen, _, hworld⟩
      · rw [hend] at hend'
        cases hend'
      · rw [hworld (by rw [hend]; rfl), hopen]
  | next _ _ _ _ ih => exact ih hend
  | callStop _ _ _ _ hstop _ =>
      obtain ⟨hne, heq⟩ := ending_of_resume_stop hstop (by rw [hend]; intro h; cases h)
      exact absurd (heq.trans hend) hne
  | callNext _ _ _ _ _ _ _ ih => exact ih hend

/-- A run that says so was asked to stop. -/
theorem stopping_of_terminated (h : Ran host steps callers f m vs o)
    (hend : o.ending = .failed .terminated) : o.machine.world.stopping = true := by
  induction h with
  | outOfSteps _ => cases hend
  | @stop steps callers _ _ _ hf hN hstep =>
      rcases stop_cases hf hN (run_checksText host steps _) (run_validate host steps _) hstep with
        ⟨hs, _, hworld⟩ | ⟨_, hne, _⟩
      · rw [hworld, hs]
      · exact absurd hend hne
  | next _ _ _ _ ih => exact ih hend
  | callStop _ _ _ _ hstop ih =>
      obtain ⟨-, heq⟩ := ending_of_resume_stop hstop (by rw [hend]; intro h; cases h)
      rw [machine_of_resume_stop hstop]
      exact ih (heq.trans hend)
  | callNext _ _ _ _ _ _ _ ih => exact ih hend

/-- With one more step, a run that was asked to stop and ran out of steps says so. -/
theorem run_succ_of_stopping (h : Ran host steps callers f m vs o) (hend : o.ending = .outOfSteps)
    (hs : o.machine.world.stopping = true) :
    (run host (steps + 1) callers.length f m).ending = .failed .terminated := by
  induction h with
  -- the step that was missing is the one that looks for the request
  | outOfSteps hf =>
      rw [run, step_of_stopping (observed_of_isRunning hf hs)]
      rfl
  | @stop steps callers _ _ _ hf hN hstep =>
      rcases stop_cases hf hN (run_checksText host steps _) (run_validate host steps _) hstep with
        ⟨_, hend', _⟩ | ⟨hopen, _, hworld⟩
      · rw [hend] at hend'
        cases hend'
      · rw [hworld (by rw [hend]; rfl), hopen] at hs
        cases hs
  | next _ _ hstep _ ih =>
      rw [run, step_of_extends (run_extends_succ host _ _) (by rw [hstep]; exact id), hstep]
      exact ih hend hs
  | callStop _ _ hresume _ hstop ih =>
      have hmachine := machine_of_resume_stop hstop
      obtain ⟨-, heq⟩ := ending_of_resume_stop hstop (by rw [hend]; intro h; cases h)
      have hinside := ih (heq.trans hend) (hmachine ▸ hs)
      rw [List.length_cons] at hinside
      rw [run, hresume, resume_of_not_finished _ (by rw [hinside]; exact Ending.noConfusion)]
      exact hinside
  -- the subroutine finished, so one step more changes nothing in it
  | callNext _ _ hresume hinside hnext _ _ ih =>
      have hfinished := (finished_of_resume_next hnext).1
      rw [hinside.outcome_eq, List.length_cons] at hnext hfinished
      rw [run, hresume, run_eq_of_le (Nat.le_succ _) (by rw [hfinished]; exact Ending.noConfusion),
        hnext]
      exact ih hend hs

end Ran

/-! ## Scripts

A script forgets an old request at first. All else is the statement about runs for the frame of the
script. -/

namespace Interpreter

/-- Requests to stop are heeded. Once the statement of a moment raised one, every later moment is
refused, in whichever frame it is. The script then fails as that statement did, and if it did not
fail, says that it was asked to stop; with too few steps it takes one more to say so. The request is
there at the end exactly if some moment raised it. So it is not there when the script finished, and
it is there when the script says that it was asked to stop. A request from before makes no
difference. -/
theorem evaluate_heeds (i : Interpreter ω σ) (steps : Nat) (script : String)
    (params : Option (List Float)) :
    ((i.moments steps script params).Pairwise fun M N => M.Raises i.host → N.IsRefused i.host) ∧
    (∀ M ∈ i.moments steps script params, M.Raises i.host →
      (∃ e, e ≠ .terminated ∧ M.Fails i.host e ∧
        (i.evaluate steps script params).1 = .failed e) ∨
      (¬ ∃ e, M.Fails i.host e) ∧
        ((i.evaluate steps script params).1 = .failed .terminated ∨
          (i.evaluate steps script params).1 = .outOfSteps ∧
            (i.evaluate (steps + 1) script params).1 = .failed .terminated)) ∧
    ((i.evaluate steps script params).2.machine.world.stopping = true ↔
      ∃ M ∈ i.moments steps script params, M.Raises i.host) ∧
    ((i.evaluate steps script params).1 = .finished →
      (i.evaluate steps script params).2.machine.world.stopping = false) ∧
    ((i.evaluate steps script params).1 = .failed .terminated →
      (i.evaluate steps script params).2.machine.world.stopping = true) ∧
    ∀ stopping,
      let world := { i.machine.world with stopping }
      { i with machine := { i.machine with world } }.evaluate steps script params =
        i.evaluate steps script params := by
  by_cases htext : skipGap script.toList = []
  · -- a blank script has no moments
    have hmoments : i.moments steps script params = [] := if_pos htext
    rw [hmoments, evaluate_of_blank i steps params htext]
    refine ⟨.nil, List.forall_mem_nil _, ?_, ?_, ?_,
      fun _ => evaluate_of_blank i steps params htext⟩
    · refine ⟨fun h => ?_, fun ⟨M, hM, _⟩ => ?_⟩
      · cases h
      · cases hM
    · intro h
      cases h
    · intro h
      cases h
  · have hran := i.ran_evaluate steps params htext
    have heval := i.evaluate_of_not_blank steps params htext
    have hmore := i.evaluate_of_not_blank (steps + 1) params htext
    dsimp only at heval hmore
    rw [← i.map_toMoment_visits, heval, hmore]
    refine ⟨List.pairwise_map.2 hran.refused, List.forall_mem_map.2 fun V hV hraises => ?_,
      ⟨fun hs => ?_, ?_⟩, hran.not_stopping_of_finished, hran.stopping_of_terminated,
      fun stopping => (evaluate_of_not_blank _ steps params htext).trans rfl⟩
    · -- with one more step a run that only ran out of them says that it was asked
      obtain ⟨hs, hfails | ⟨hfails, hend | hend⟩⟩ := hran.heeded V hV hraises
      · exact .inl hfails
      · exact .inr ⟨hfails, .inl hend⟩
      · exact .inr ⟨hfails, .inr ⟨hend, hran.run_succ_of_stopping hend hs⟩⟩
    · obtain ⟨V, hV, hraises⟩ := hran.exists_raises rfl hs
      exact ⟨_, List.mem_map_of_mem hV, hraises⟩
    · rintro ⟨M, hM, hraises⟩
      obtain ⟨V, hV, rfl⟩ := List.mem_map.1 hM
      exact (hran.heeded V hV hraises).1

def withStop : Interpreter Recorder.Watcher Recorder.Record where
  host :=
    { bindings := ⟨[("stop", Recorder.Stock.terminate.native "stop"),
        ("tick", Recorder.Stock.count.native "tick")]⟩
      notify := Recorder.notify }
  machine := { world := { root := ⟨[("x", {})]⟩, state := [] } }

/-- A script that is asked to stop two subroutines deep, each time in a last statement. -/
def nestedStop : String :=
  "define f; call tick; call stop; end; define g; goto f; end; goto g; call tick;"

/-- The main statement for this script: only the functions up to the request were called. -/
theorem evaluate_heeds_nested :
    let i := withStop
    let after := i.evaluate 20 nestedStop none
    after.1 = .failed .terminated ∧ after.2.machine.world.state.length = 2 ∧
      ∃ M ∈ i.moments 20 nestedStop none, M.Raises i.host ∧ ¬ ∃ e, M.Fails i.host e := by
  have hend : (withStop.evaluate 20 nestedStop none).1 = .failed .terminated := by decide +kernel
  have hcalled : (withStop.evaluate 20 nestedStop none).2.machine.world.state.length = 2 := by
    decide +kernel
  obtain ⟨_, hends, hraised, _, hstopping, _⟩ := evaluate_heeds withStop 20 nestedStop none
  obtain ⟨M, hM, hraises⟩ := hraised.1 (hstopping hend)
  refine ⟨hend, hcalled, M, hM, hraises, ?_⟩
  rcases hends M hM hraises with ⟨e, hne, _, he⟩ | ⟨hfails, _⟩
  · exact absurd (Ending.failed.inj (he.symm.trans hend)) hne
  · exact hfails

end Interpreter

end NumScript.Script
