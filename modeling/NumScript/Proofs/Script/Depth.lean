import NumScript.Host.Recorder
import NumScript.Proofs.Script.Visits

set_option autoImplicit false

/-! # The limit of subroutine calls

The limit of a host says how many subroutines may be active at once. It is looked at where a
statement is about to call one, and nowhere else. So a higher limit changes nothing in a run which
the lower one did not cut off (`run_withLimit`).

A run is cut off only where a `goto` to a defined subroutine, with arguments that have values, is
read while as many subroutines are active as the limit allows. And it is always cut off there, since
every caller stops as its subroutine did (`Ran.ending_eq_tooDeep_iff`).
-/

namespace NumScript.Script

variable {ω σ : Type}

/-! ## Other limits

A limit is compared with the number of active subroutines and used for nothing else. A step that is
not cut off makes the comparison with the same result under a higher limit. -/

def Host.withLimit (host : Host ω σ) (maxDepth : Nat) : Host ω σ :=
  { host with maxDepth }

def Ending.IsTooDeep (ending : Ending) : Prop :=
  ∃ name limit, ending = .failed (.tooDeep name limit)

/-- The step was cut off by the limit, or ran a frame that was. -/
def Step.IsTooDeep : Step ω σ → Prop
  | .next _ _ => False
  | .stop o => o.ending.IsTooDeep

/-- `callee'` does what `callee` does, where that is not cut off by the limit. -/
def AgreeInDepth (callee callee' : Frame ω → Machine ω σ → Outcome ω σ) : Prop :=
  ∀ f m, ¬ (callee f m).ending.IsTooDeep → callee' f m = callee f m

theorem declare_withLimit (host : Host ω σ) (limit : Nat) (sort : Declaration) (f : Frame ω)
    (m : Machine ω σ) (names : List (List Char × List Char)) :
    declare (host.withLimit limit) sort f m names = declare host sort f m names := by
  induction names generalizing f m with
  | nil => rfl
  | cons read more ih =>
      obtain ⟨word, rest⟩ := read
      have hname : declareName (host.withLimit limit) sort f.toActivation m.world
          (String.ofList word) = declareName host sort f.toActivation m.world
          (String.ofList word) := rfl
      unfold declare
      dsimp only
      rw [hname]
      split
      · rfl
      · split
        · exact ih _ _
        · rfl

section

variable {callee callee' : Frame ω → Machine ω σ → Outcome ω σ}

theorem AgreeInDepth.enter (h : AgreeInDepth callee callee') :
    AgreeInDepth (enter callee) (enter callee') := by
  intro f m hend
  unfold Script.enter at *
  split at hend
  · rfl
  · exact h _ _ hend

/-- A caller is cut off with its subroutine. -/
theorem isTooDeep_resume {o : Outcome ω σ} (f : Frame ω) (h : o.ending.IsTooDeep) :
    (f.resume o).IsTooDeep := by
  obtain ⟨name, limit, hend⟩ := h
  rw [resume_of_not_finished f (by rw [hend]; exact Ending.noConfusion)]
  exact ⟨name, limit, hend⟩

variable {host : Host ω σ} {limit depth : Nat} {f : Frame ω} {m : Machine ω σ}

/-- A statement does the same under a higher limit, if it was not cut off. -/
theorem perform_withLimit (hc : AgreeInDepth callee callee') (hlimit : host.maxDepth ≤ limit)
    {a : Action} (hend : ¬ (perform host callee depth f m a).IsTooDeep) :
    perform (host.withLimit limit) callee' depth f m a = perform host callee depth f m a := by
  cases a with
  | invoke name body args =>
      rw [perform_invoke_eq] at hend
      rw [perform_invoke_eq, perform_invoke_eq]
      split at hend
      · exact absurd ⟨_, _, rfl⟩ hend
      · rename_i hdepth
        have hdepth' : ¬ (host.withLimit limit).maxDepth ≤ depth :=
          fun h => hdepth (Nat.le_trans hlimit h)
        rw [if_neg hdepth, if_neg hdepth', hc.enter _ _ fun h => hend (isTooDeep_resume f h)]
  | define name body =>
      have hbody (h : ¬ (checkBody callee f m body).1.IsTooDeep) :
          checkBody callee' f m body = checkBody callee f m body := by
        unfold checkBody at *
        dsimp only at *
        rw [hc.enter _ _ h]
      simp only [perform] at *
      by_cases hcheck : (checkBody callee f m body).1.IsTooDeep
      · obtain ⟨key, n, hkey⟩ := hcheck
        refine absurd ?_ hend
        rcases hpair : checkBody callee f m body with ⟨ending, m'⟩
        rw [hpair] at hkey
        cases hkey
        exact ⟨key, n, rfl⟩
      · rw [hbody hcheck]
  | call _ _ | assign _ _ | jump _ | pass => rfl
  | finish result => cases result <;> rfl
  | declare sort names => exact declare_withLimit host limit sort f m names

theorem step_withLimit (hc : AgreeInDepth callee callee') (hlimit : host.maxDepth ≤ limit)
    (hend : ¬ (step host callee depth f m).IsTooDeep) :
    step (host.withLimit limit) callee' depth f m = step host callee depth f m := by
  have hrequest : request (host.withLimit limit) f m = request host f m := rfl
  rw [step_eq] at hend
  rw [step_eq, step_eq, hrequest]
  cases hreq : request host f m with
  | error o => rfl
  | ok asked =>
      obtain ⟨a, f', m'⟩ := asked
      rw [hreq] at hend
      exact perform_withLimit hc hlimit hend

end

/-- A run goes the same way under a higher limit, if it was not cut off. -/
theorem run_withLimit {host : Host ω σ} {limit : Nat} (hlimit : host.maxDepth ≤ limit)
    (steps depth : Nat) :
    AgreeInDepth (run host steps depth) (run (host.withLimit limit) steps depth) := by
  induction steps generalizing depth with
  | zero =>
      intro f m _
      rfl
  | succ steps ih =>
      intro f m hend
      rw [run] at hend
      rw [run, run]
      cases hstep : step host (run host steps (depth + 1)) depth f m with
      | next f' m' =>
          rw [hstep] at hend
          rw [step_withLimit (ih (depth + 1)) hlimit (by rw [hstep]; exact id), hstep]
          exact ih depth f' m' hend
      | stop o =>
          rw [hstep] at hend
          rw [step_withLimit (ih (depth + 1)) hlimit (by rw [hstep]; exact hend), hstep]

/-! ## Where a run is cut off

A run that is cut off has a moment at which a call is attempted at the limit, and with such a moment
it is cut off. Both directions are inductions over the pieces of a run, and both need that an error
of this kind arises nowhere else. -/

def Frame.keyword? (f : Frame ω) : Option Keyword :=
  match f.takeJump.2 with
  | .inside _ => none
  | .before rest =>
    match (readLeading (skipGap rest)).1 with
    | .keyword k => some k
    | _ => none

/-- The statement of a moment is a `goto` to a defined subroutine, and its arguments have values. -/
def Moment.Attempts (host : Host ω σ) (M : Moment ω σ) (name : String) : Prop :=
  M.frame.keyword? = some .goto ∧
    ∃ body args f m, M.machine.functions.find? name = some body ∧
      request host M.frame M.machine = .ok (.invoke name body args, f, m)

/-- Only a statement `goto` asks for a subroutine. -/
theorem keyword_of_invoke {v : View ω} {mode : Mode} {start : List Char} {k : Keyword}
    {p q : Progress} {name body : String} {args : List Float}
    (h : Reader.statement v mode start k p = .ok (.invoke name body args) q) :
    k = .goto ∧ v.body? name = some body := by
  refine ⟨asksFor_of_statement h, ?_⟩
  cases asks_of_statement h with
  | effect _ _ _ heffect =>
      cases heffect with
      | invoke _ hbody => exact hbody

section

variable {host : Host ω σ} {f f' : Frame ω} {m m' : Machine ω σ} {name body : String}
  {args : List Float}

theorem attempts_of_request (h : request host f m = .ok (.invoke name body args, f', m')) :
    Moment.Attempts host ⟨f, m⟩ name := by
  suffices hread : f.keyword? = some .goto ∧ m.functions.find? name = some body from
    ⟨hread.1, body, args, f', m', hread.2, h⟩
  unfold request at h
  split at h
  · cases h
  unfold Frame.keyword?
  rcases hjump : f.takeJump with ⟨start, point⟩
  rw [hjump] at h
  cases point with
  | inside text => cases h
  | before rest =>
      dsimp only at h ⊢
      split at h
      · cases h
      · cases h
      · rename_i hleading
        rw [hleading]
        split at h
        · cases h
        · rename_i hread
          cases h
          obtain ⟨rfl, hbody⟩ := keyword_of_invoke hread
          exact ⟨rfl, hbody⟩

/-- A subroutine that is attempted is not called at the limit. -/
theorem step_of_attempts {callee : Frame ω → Machine ω σ → Outcome ω σ} {depth : Nat}
    (h : Moment.Attempts host ⟨f, m⟩ name) (hdepth : host.maxDepth ≤ depth) :
    ∃ o, step host callee depth f m = .stop o ∧
      o.ending = .failed (.tooDeep name host.maxDepth) := by
  obtain ⟨_, body, args, f', m', _, hreq⟩ := h
  have hreq : request host f m = .ok (.invoke name body args, f', m') := hreq
  rw [step_eq, hreq]
  dsimp only
  rw [perform_invoke_eq, if_pos hdepth]
  exact ⟨_, rfl, rfl⟩

/-- If a step is cut off without a subroutine, one is attempted at the limit. -/
theorem attempts_of_stop {callee : Frame ω → Machine ω σ → Outcome ω σ} {depth limit : Nat}
    {o : Outcome ω σ} (hf : f.IsRunning) (hN : called? host depth f m = none)
    (htext : ChecksText callee) (hstep : step host callee depth f m = .stop o)
    (hend : o.ending = .failed (.tooDeep name limit)) :
    limit = host.maxDepth ∧ host.maxDepth ≤ depth ∧ Moment.Attempts host ⟨f, m⟩ name := by
  -- of the ways to stop only the call that is refused gives this error
  have hanatomy := step_anatomy host callee depth f m
  generalize heq : step host callee depth f m = s at hanatomy
  rw [hstep] at heq
  cases hanatomy with
  | stopped hreq =>
      cases heq
      by_cases hs : (f.mode.observesTermination && m.world.stopping) = true
      · have hasked := (Bool.and_eq_true_iff.1 hs).2
        rw [request_of_stopping hf hasked] at hreq
        cases hreq
        cases hend
      · exact absurd trivial (isOfText_of_request_error hs hreq _ hend)
  | tooDeep hreq hdepth _ =>
      cases heq
      cases hend
      exact ⟨rfl, hdepth, attempts_of_request hreq⟩
  | blank _ _ _ =>
      cases heq
      cases hend
  | called _ _ hsome =>
      rw [hN] at hsome
      cases hsome
  | @checked key body f' m' _ _ =>
      have hendtext := @perform_define_isOfText _ _ host _ htext depth f' m' key body
      rw [← heq] at hendtext
      exact absurd trivial (hendtext _ hend)
  | @own a f' m' _ ha _ =>
      have hendtext := @perform_isOfText _ _ host f' m' a callee depth ha
      rw [← heq] at hendtext
      exact absurd trivial (hendtext _ hend)

end

/-- A subroutine is called only where fewer are active than the limit allows. -/
theorem lt_maxDepth_of_called {host : Host ω σ} {depth : Nat} {f : Frame ω} {m : Machine ω σ}
    {N : Moment ω σ} (h : called? host depth f m = some N) : depth < host.maxDepth := by
  obtain ⟨_, _, _, _, _, _, hlt, _⟩ := step_of_called h
  exact hlt

namespace Ran

variable {host : Host ω σ} {steps : Nat} {callers : List (Moment ω σ)} {f : Frame ω}
  {m : Machine ω σ} {vs : List (Visit ω σ)} {o : Outcome ω σ}

/-- No more subroutines are active than the limit allows. -/
theorem length_callers_le (h : Ran host steps callers f m vs o)
    (hdepth : callers.length ≤ host.maxDepth) :
    ∀ V ∈ vs, V.callers.length ≤ host.maxDepth := by
  induction h with
  | outOfSteps _ => exact List.forall_mem_nil _
  | stop _ _ _ => exact List.forall_mem_singleton.2 hdepth
  | next _ _ _ _ ih => exact List.forall_mem_cons.2 ⟨hdepth, ih hdepth⟩
  | callStop _ hN _ _ _ ih =>
      exact List.forall_mem_cons.2 ⟨hdepth, ih (lt_maxDepth_of_called hN)⟩
  | callNext _ hN _ _ _ _ ihinside ihlater =>
      exact List.forall_mem_cons.2 ⟨hdepth, List.forall_mem_append.2
        ⟨ihinside (lt_maxDepth_of_called hN), ihlater hdepth⟩⟩

/-- A run that is cut off attempted a subroutine while the limit was reached. -/
theorem exists_attempts (h : Ran host steps callers f m vs o)
    (hdepth : callers.length ≤ host.maxDepth) {name : String} {limit : Nat}
    (hend : o.ending = .failed (.tooDeep name limit)) :
    limit = host.maxDepth ∧ ∃ V ∈ vs, V.callers.length = host.maxDepth ∧ V.Attempts host name := by
  induction h with
  | outOfSteps _ => cases hend
  | @stop steps callers _ _ _ hf hN hstep =>
      obtain ⟨hlimit, hle, hattempts⟩ :=
        attempts_of_stop hf hN (run_checksText host steps _) hstep hend
      exact ⟨hlimit, _, .head _, Nat.le_antisymm hdepth hle, hattempts⟩
  | next _ _ _ _ ih =>
      obtain ⟨hlimit, V, hV, hattempts⟩ := ih hdepth hend
      exact ⟨hlimit, V, .tail _ hV, hattempts⟩
  | callStop _ hN _ _ hstop ih =>
      obtain ⟨-, heq⟩ := ending_of_resume_stop hstop (by rw [hend]; intro h; cases h)
      obtain ⟨hlimit, V, hV, hattempts⟩ := ih (lt_maxDepth_of_called hN) (heq.trans hend)
      exact ⟨hlimit, V, .tail _ hV, hattempts⟩
  | callNext _ _ _ _ _ _ _ ih =>
      obtain ⟨hlimit, V, hV, hattempts⟩ := ih hdepth hend
      exact ⟨hlimit, V, .tail _ (List.mem_append_right _ hV), hattempts⟩

/-- A run in which a subroutine is attempted while the limit is reached is cut off. -/
theorem ending_of_attempts (h : Ran host steps callers f m vs o) {name : String} :
    ∀ V ∈ vs, V.callers.length = host.maxDepth → V.Attempts host name →
      o.ending = .failed (.tooDeep name host.maxDepth) := by
  induction h with
  | outOfSteps _ => exact List.forall_mem_nil _
  -- an attempt at the limit stops the run at once
  | stop _ _ hstep =>
      refine List.forall_mem_singleton.2 fun hlength hattempts => ?_
      obtain ⟨o, ho, hend⟩ := step_of_attempts hattempts (Nat.le_of_eq hlength.symm)
      rw [hstep] at ho
      cases ho
      exact hend
  | next _ _ hstep _ ih =>
      refine List.forall_mem_cons.2 ⟨fun hlength hattempts => ?_, ih⟩
      obtain ⟨o, ho, _⟩ := step_of_attempts hattempts (Nat.le_of_eq hlength.symm)
      rw [hstep] at ho
      cases ho
  -- the attempt was in the subroutine, and the caller stops as it did
  | callStop _ hN _ _ hstop ih =>
      have hlt := lt_maxDepth_of_called hN
      refine List.forall_mem_cons.2 ⟨fun hlength _ => absurd hlength (Nat.ne_of_lt hlt), ?_⟩
      intro V hV hlength hattempts
      have hinside := ih V hV hlength hattempts
      rw [resume_of_not_finished _ (by rw [hinside]; exact Ending.noConfusion)] at hstop
      cases hstop
      exact hinside
  -- a caller goes on only behind a subroutine that finished
  | callNext _ hN _ _ hnext _ ihinside ihlater =>
      have hlt := lt_maxDepth_of_called hN
      refine List.forall_mem_cons.2 ⟨fun hlength _ => absurd hlength (Nat.ne_of_lt hlt),
        List.forall_mem_append.2 ⟨fun V hV hlength hattempts => ?_, ihlater⟩⟩
      have hinside := ihinside V hV hlength hattempts
      rw [(finished_of_resume_next hnext).1] at hinside
      cases hinside

end Ran

/-! ## Scripts

The attempt is said in terms of the text of the moment: its keyword, the table and the values of the
arguments. -/

namespace Interpreter

def withLimit (i : Interpreter ω σ) (maxDepth : Nat) : Interpreter ω σ :=
  { i with host := i.host.withLimit maxDepth }

theorem evaluate_withLimit (i : Interpreter ω σ) (steps : Nat) (script : String)
    (params : Option (List Float)) {limit : Nat} (hlimit : i.host.maxDepth ≤ limit)
    (hend : ¬ (i.evaluate steps script params).1.IsTooDeep) :
    (i.withLimit limit).evaluate steps script params =
      ((i.evaluate steps script params).1,
        (i.evaluate steps script params).2.withLimit limit) := by
  unfold evaluate at *
  dsimp only [conclude] at *
  rw [show (i.withLimit limit).host = i.host.withLimit limit from rfl,
    show (i.withLimit limit).machine = i.machine from rfl,
    (run_withLimit hlimit steps 0).enter _ _ hend]
  rfl

/-- The limit of subroutine calls only cuts off. A script that is not cut off by one limit goes
exactly the same way under a higher one. While a script runs, no more subroutines are active than
the limit allows. And it is cut off exactly if a `goto` to a defined subroutine, with arguments that
have values, is attempted while as many are active. -/
theorem evaluate_limit (i : Interpreter ω σ) (steps : Nat) (script : String)
    (params : Option (List Float)) :
    (∀ n limit, n ≤ limit →
      (∀ name k, ((i.withLimit n).evaluate steps script params).1 ≠ .failed (.tooDeep name k)) →
      (i.withLimit limit).evaluate steps script params =
        (((i.withLimit n).evaluate steps script params).1,
          ((i.withLimit n).evaluate steps script params).2.withLimit limit)) ∧
    (∀ V ∈ i.visits steps script params, V.callers.length ≤ i.host.maxDepth) ∧
    ∀ name limit, (i.evaluate steps script params).1 = .failed (.tooDeep name limit) ↔
      limit = i.host.maxDepth ∧
        ∃ V ∈ i.visits steps script params,
          V.callers.length = i.host.maxDepth ∧ V.Attempts i.host name := by
  refine ⟨fun n limit hlimit hend => ?_, ?_⟩
  · exact (i.withLimit n).evaluate_withLimit steps script params hlimit
      fun ⟨name, k, hk⟩ => hend name k hk
  by_cases htext : skipGap script.toList = []
  · have hvisits : i.visits steps script params = [] := if_pos htext
    rw [hvisits, evaluate_of_blank i steps params htext]
    refine ⟨List.forall_mem_nil _, fun name limit => ⟨fun h => ?_, fun ⟨_, V, hV, _⟩ => ?_⟩⟩
    · cases h
    · cases hV
  · have hran := i.ran_evaluate steps params htext
    rw [i.evaluate_of_not_blank steps params htext]
    refine ⟨hran.length_callers_le (Nat.zero_le _), fun name limit =>
      ⟨hran.exists_attempts (Nat.zero_le _), ?_⟩⟩
    rintro ⟨rfl, V, hV, hlength, hattempts⟩
    exact hran.ending_of_attempts V hV hlength hattempts

def withTick : Interpreter Recorder.Watcher Recorder.Record where
  host :=
    { bindings := ⟨[("tick", Recorder.Stock.count.native "tick")]⟩, notify := Recorder.notify }
  machine := { world := { state := [] } }

def countdown : String :=
  "define f; pop n; call tick n; if n > 1; goto f n - 1; fi; end; goto f 3;"

/-- The main statement for this script, which needs three active subroutines. -/
theorem evaluate_limit_countdown :
    let i := withTick
    ((i.withLimit 3).evaluate 40 countdown none).1 = .finished ∧
    (i.withLimit 100).evaluate 40 countdown none =
      (((i.withLimit 3).evaluate 40 countdown none).1,
        ((i.withLimit 3).evaluate 40 countdown none).2.withLimit 100) ∧
    ((i.withLimit 2).evaluate 40 countdown none).1 = .failed (.tooDeep "f" 2) ∧
    ∃ V ∈ (i.withLimit 2).visits 40 countdown none,
      V.callers.length = 2 ∧ V.Attempts (i.withLimit 2).host "f" := by
  have hend : ((withTick.withLimit 3).evaluate 40 countdown none).1 = .finished := by
    decide +kernel
  have hcut : ((withTick.withLimit 2).evaluate 40 countdown none).1 = .failed (.tooDeep "f" 2) := by
    decide +kernel
  refine ⟨hend, ?_, hcut, ?_⟩
  · refine (evaluate_limit withTick 40 countdown none).1 3 100 (by decide) fun name k h => ?_
    rw [hend] at h
    cases h
  · exact (((evaluate_limit (withTick.withLimit 2) 40 countdown none).2.2 "f" 2).1 hcut).2

end Interpreter

end NumScript.Script
