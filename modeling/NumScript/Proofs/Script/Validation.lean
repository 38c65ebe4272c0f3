import NumScript.Proofs.Script.Dispatch
import NumScript.Proofs.Script.Outline
import NumScript.Script.Interpreter

set_option autoImplicit false

/-! # Validation has no effects

A check goes through the same steps as a run. It has no effects because a statement that is read
while validating asks for nothing but to go on, to declare names or to have a body checked
(`quiet_of_asks`), and these three leave the world, the subroutines, the last result and the scopes
outside the local one as they are (`step_validate`). By induction over the steps a whole check does
(`run_validate`).

What native functions and watchers would do makes no difference to a check, since none of them is
ever called: `Host.behaving` gives them any other behaviour.
-/

namespace NumScript.Script

variable {ω σ : Type}

/-! ## Quiet actions

The mode is asked for by the readers, so what a check may ask for is read off the outline of its
statements. -/

def Action.IsQuiet : Action → Prop
  | .pass => True
  | .declare _ _ => True
  | .define _ _ => True
  | _ => False

theorem quiet_of_asks {v : View ω} {start rest ahead : List Char} {k : Keyword} {a : Action}
    (h : Asks v .validate start rest k a ahead) : a.IsQuiet := by
  cases h with
  | pass | declare | enter | skip | define => trivial
  | effect _ _ hm => exact absurd hm (by decide)
  | jump _ _ _ hm => exact absurd hm (by decide)

/-! ## The frame of a check

What a check leaves as it is, from actions over steps to runs. The local scope is the one thing that
it may change, and with its frame that is given up at the end. -/

/-- The two machines differ at most in the outcome of the last expression. -/
def Machine.SameWorld (m m' : Machine ω σ) : Prop :=
  ∃ retained, m' = { m with retained }

theorem Machine.SameWorld.refl (m : Machine ω σ) : m.SameWorld m :=
  ⟨m.retained, rfl⟩

theorem Machine.SameWorld.trans {m₁ m₂ m₃ : Machine ω σ} (h : m₁.SameWorld m₂)
    (h' : m₂.SameWorld m₃) : m₁.SameWorld m₃ := by
  obtain ⟨_, rfl⟩ := h
  obtain ⟨r, rfl⟩ := h'
  exact ⟨r, rfl⟩

theorem Machine.SameWorld.world_eq {m m' : Machine ω σ} (h : m.SameWorld m') :
    m'.world = m.world := by
  obtain ⟨_, rfl⟩ := h
  rfl

def Outcome.Quiet (f : Frame ω) (m : Machine ω σ) (o : Outcome ω σ) : Prop :=
  m.SameWorld o.machine ∧ o.outer = f.outer

/-- A step without effects, from the frame `f` and the machine `m`: the frame that it leads to still
validates and has the same outer scopes. -/
def Step.Quiet (f : Frame ω) (m : Machine ω σ) : Step ω σ → Prop
  | .next f' m' => f'.mode = f.mode ∧ f'.outer = f.outer ∧ m.SameWorld m'
  | .stop o => o.Quiet f m

theorem Outcome.Quiet.of_sameWorld {f : Frame ω} {m m' : Machine ω σ} {o : Outcome ω σ}
    (h : m.SameWorld m') (ho : o.Quiet f m') : o.Quiet f m :=
  ⟨h.trans ho.1, ho.2⟩

theorem Step.Quiet.of_sameWorld {f : Frame ω} {m m' : Machine ω σ} {s : Step ω σ}
    (h : m.SameWorld m') (hs : s.Quiet f m') : s.Quiet f m := by
  cases s with
  | next f'' m'' =>
      obtain ⟨hmode, houter, hworld⟩ := hs
      exact ⟨hmode, houter, h.trans hworld⟩
  | stop o => exact Outcome.Quiet.of_sameWorld h hs

theorem Frame.stop_quiet (f : Frame ω) (m : Machine ω σ) (ending : Ending) :
    (f.stop m ending).Quiet f m :=
  ⟨.refl m, rfl⟩

theorem Frame.finishStatement_quiet (f : Frame ω) (m : Machine ω σ) :
    (f.finishStatement m).Quiet f m := by
  unfold Frame.finishStatement
  split
  · exact ⟨rfl, rfl, .refl m⟩
  · exact f.stop_quiet m _

theorem declareName_validate (host : Host ω σ) (sort : Declaration) {a : Activation ω}
    (ha : a.mode = .validate) (w : World ω σ) (name : String) :
    declareName host sort a w name = .ok ({ a with locals := a.locals.declare name }, w) := by
  unfold declareName
  rw [ha]
  rfl

theorem declare_validate (host : Host ω σ) (sort : Declaration) {f : Frame ω}
    (hf : f.mode = .validate) (m : Machine ω σ) (names : List (List Char × List Char)) :
    (declare host sort f m names).Quiet f m := by
  induction names generalizing f with
  | nil => exact f.finishStatement_quiet m
  | cons read more ih =>
      obtain ⟨word, rest⟩ := read
      unfold declare
      dsimp only
      split
      · exact ⟨.refl m, rfl⟩
      · rw [declareName_validate host sort hf]
        exact @ih { f with rest, locals := f.locals.declare (String.ofList word) } hf

/-- A way to run frames that has no effects where the frame validates. -/
def Harmless (callee : Frame ω → Machine ω σ → Outcome ω σ) : Prop :=
  ∀ (f : Frame ω) (m : Machine ω σ), f.mode = .validate → (callee f m).Quiet f m

theorem Harmless.enter {callee : Frame ω → Machine ω σ → Outcome ω σ} (h : Harmless callee) :
    Harmless (enter callee) := by
  intro f m hf
  unfold Script.enter
  split
  · exact ⟨.refl m, rfl⟩
  · exact h _ m hf

section

variable {host : Host ω σ} {callee : Frame ω → Machine ω σ → Outcome ω σ} (hc : Harmless callee)
  {f : Frame ω} (hf : f.mode = .validate)

include hc

theorem checkBody_sameWorld (f : Frame ω) (m : Machine ω σ) (body : String) :
    m.SameWorld (checkBody callee f m body).2 :=
  (hc.enter _ m rfl).1

include hf

theorem perform_validate (depth : Nat) (m : Machine ω σ) {a : Action} (ha : a.IsQuiet) :
    (perform host callee depth f m a).Quiet f m := by
  cases a with
  | pass => exact f.finishStatement_quiet m
  | declare sort names => exact declare_validate host sort hf m names
  | define name body =>
      have hbody := checkBody_sameWorld hc f m body
      simp only [perform]
      rcases hcheck : checkBody callee f m body with ⟨ending, m'⟩
      rw [hcheck] at hbody
      cases ending with
      | finished =>
          dsimp only
          rw [if_neg (by rw [hf]; decide)]
          exact (f.finishStatement_quiet m').of_sameWorld hbody
      | failed e => exact (f.stop_quiet m' _).of_sameWorld hbody
      | outOfSteps => exact (f.stop_quiet m' _).of_sameWorld hbody
  | assign _ _ | call _ _ | invoke _ _ _ | jump _ | finish _ => exact ha.elim

theorem dispatch_validate (depth : Nat) (m : Machine ω σ) :
    (dispatch host callee depth f m).Quiet f m := by
  rcases hl : readLeading (skipGap f.rest) with ⟨leading, rest⟩
  cases leading with
  | nothing =>
      rw [dispatch_of_nothing hl]
      exact Frame.stop_quiet { f with rest } m _
  | unknown word =>
      rw [dispatch_of_unknown hl]
      exact Frame.stop_quiet { f with rest } m _
  | keyword k =>
      rcases hread : Reader.statement (f.view host m) f.mode (skipGap f.rest) k ⟨rest, m.retained⟩
        with ⟨a, p⟩ | ⟨e, p⟩
      · rw [dispatch_of_ok hl hread]
        rw [hf] at hread
        have ha := quiet_of_asks (asks_of_statement hread)
        have h := @perform_validate _ _ host _ hc { f with rest := p.rest } hf depth
          { m with retained := p.retained } a ha
        exact Step.Quiet.of_sameWorld ⟨p.retained, rfl⟩ h
      · rw [dispatch_of_error hl hread]
        exact ⟨⟨p.retained, rfl⟩, rfl⟩

theorem step_validate (depth : Nat) (m : Machine ω σ) :
    (step host callee depth f m).Quiet f m := by
  have hobserve := not_observed_of_validate hf m
  have hact := f.toActivation_takeJump
  cases hpoint : f.takeJump.2 with
  | inside text =>
      rw [step_of_inside hobserve hpoint, hact]
      exact ⟨.refl m, rfl⟩
  | before rest =>
      rw [step_of_before hobserve hpoint]
      have h := @dispatch_validate _ _ host _ hc { f.takeJump.1 with rest } (by rw [hact, hf]) depth m
      -- a frame is quiet towards another one of the same activation
      unfold Step.Quiet Outcome.Quiet at *
      rwa [hact] at h

end

/-- A check has no effects, however many steps it is given. -/
theorem run_validate (host : Host ω σ) (steps depth : Nat) : Harmless (run host steps depth) := by
  induction steps generalizing depth with
  | zero =>
      intro f m _
      exact ⟨.refl m, rfl⟩
  | succ steps ih =>
      intro f m hf
      rw [run]
      have hstep := @step_validate _ _ host _ (ih (depth + 1)) f hf depth m
      cases hs : step host (run host steps (depth + 1)) depth f m with
      | next f' m' =>
          rw [hs] at hstep
          obtain ⟨hmode, houter, hworld⟩ := hstep
          obtain ⟨hworld', houter'⟩ := ih depth f' m' (hmode.trans hf)
          exact ⟨hworld.trans hworld', houter'.trans houter⟩
      | stop o =>
          rw [hs] at hstep
          exact hstep

/-! ## Checks for other hosts

That no function is called cannot be said by looking at a final state, in which a call might have
left no trace. It is said by letting the functions do anything at all: the check is the same. -/

/-- The host with other native functions of the same names, and with other watchers. -/
def Host.behaving (host : Host ω σ) (natives : String → Native ω σ) (notify : Notify ω σ) :
    Host ω σ :=
  { host with
    bindings := ⟨host.bindings.entries.map fun entry => (entry.1, natives entry.1)⟩, notify }

def Host.SameNames (host host' : Host ω σ) : Prop :=
  ∀ name, Dict.contains host.bindings name = Dict.contains host'.bindings name

def AgreeOnChecks (callee callee' : Frame ω → Machine ω σ → Outcome ω σ) : Prop :=
  ∀ (f : Frame ω) (m : Machine ω σ), f.mode = .validate → callee f m = callee' f m

theorem Host.sameNames_behaving (host : Host ω σ) (natives : String → Native ω σ)
    (notify : Notify ω σ) : host.SameNames (host.behaving natives notify) := by
  intro name
  have hnames : Dict.names (host.behaving natives notify).bindings = Dict.names host.bindings := by
    simp only [Dict.names, Host.behaving, List.map_map]
    rfl
  rw [Bool.eq_iff_iff, Dict.contains_iff_mem_names, Dict.contains_iff_mem_names, hnames]

theorem Host.SameNames.view_eq {host host' : Host ω σ} (h : host.SameNames host') (f : Frame ω)
    (m : Machine ω σ) : f.view host m = f.view host' m := by
  have hnames : Dict.contains host.bindings = Dict.contains host'.bindings := funext h
  unfold Frame.view
  rw [hnames]

theorem AgreeOnChecks.enter {callee callee' : Frame ω → Machine ω σ → Outcome ω σ}
    (h : AgreeOnChecks callee callee') : AgreeOnChecks (enter callee) (enter callee') := by
  intro f m hf
  unfold Script.enter
  split
  · rfl
  · exact h _ m hf

theorem AgreeOnChecks.checkBody {callee callee' : Frame ω → Machine ω σ → Outcome ω σ}
    (h : AgreeOnChecks callee callee') (f : Frame ω) (m : Machine ω σ) (body : String) :
    checkBody callee f m body = checkBody callee' f m body := by
  unfold Script.checkBody
  dsimp only
  rw [h.enter _ m rfl]

theorem declare_eq_of_validate (host host' : Host ω σ) (sort : Declaration) {f : Frame ω}
    (hf : f.mode = .validate) (m : Machine ω σ) (names : List (List Char × List Char)) :
    declare host sort f m names = declare host' sort f m names := by
  induction names generalizing f with
  | nil => rfl
  | cons read more ih =>
      obtain ⟨word, rest⟩ := read
      unfold declare
      dsimp only
      rw [declareName_validate host sort hf, declareName_validate host' sort hf]
      split
      · rfl
      · exact @ih { f with rest, locals := f.locals.declare (String.ofList word) } hf

section

variable {host host' : Host ω σ} {callee callee' : Frame ω → Machine ω σ → Outcome ω σ}
  (hc : AgreeOnChecks callee callee') {f : Frame ω} (hf : f.mode = .validate)

include hc hf

theorem perform_eq_of_quiet (depth : Nat) (m : Machine ω σ) {a : Action} (ha : a.IsQuiet) :
    perform host callee depth f m a = perform host' callee' depth f m a := by
  cases a with
  | pass => rfl
  | declare sort names => exact declare_eq_of_validate host host' sort hf m names
  | define name body => simp only [perform, hc.checkBody]
  | assign _ _ | call _ _ | invoke _ _ _ | jump _ | finish _ => exact ha.elim

theorem dispatch_eq_of_validate (hhost : host.SameNames host') (depth : Nat) (m : Machine ω σ) :
    dispatch host callee depth f m = dispatch host' callee' depth f m := by
  rcases hl : readLeading (skipGap f.rest) with ⟨leading, rest⟩
  cases leading with
  | nothing => rw [dispatch_of_nothing hl, dispatch_of_nothing hl]
  | unknown word => rw [dispatch_of_unknown hl, dispatch_of_unknown hl]
  | keyword k =>
      rcases hread : Reader.statement (f.view host m) f.mode (skipGap f.rest) k ⟨rest, m.retained⟩
        with ⟨a, p⟩ | ⟨e, p⟩
      · have hread' := hread
        rw [hhost.view_eq f m] at hread'
        rw [dispatch_of_ok hl hread, dispatch_of_ok hl hread']
        rw [hf] at hread
        have ha := quiet_of_asks (asks_of_statement hread)
        exact @perform_eq_of_quiet _ _ _ _ _ _ hc { f with rest := p.rest } hf depth _ a ha
      · have hread' := hread
        rw [hhost.view_eq f m] at hread'
        rw [dispatch_of_error hl hread, dispatch_of_error hl hread']

theorem step_eq_of_validate (hhost : host.SameNames host') (depth : Nat) (m : Machine ω σ) :
    step host callee depth f m = step host' callee' depth f m := by
  have hobserve := not_observed_of_validate hf m
  cases hpoint : f.takeJump.2 with
  | inside text => rw [step_of_inside hobserve hpoint, step_of_inside hobserve hpoint]
  | before rest =>
      rw [step_of_before hobserve hpoint, step_of_before hobserve hpoint]
      have hmode : f.takeJump.1.mode = .validate := by rw [f.toActivation_takeJump, hf]
      exact @dispatch_eq_of_validate _ _ _ _ _ _ hc { f.takeJump.1 with rest } hmode hhost depth m

end

/-- A check goes the same way for every host that offers functions of the same names. -/
theorem run_eq_of_validate {host host' : Host ω σ} (hhost : host.SameNames host')
    (steps depth : Nat) : AgreeOnChecks (run host steps depth) (run host' steps depth) := by
  induction steps generalizing depth with
  | zero =>
      intro f m _
      rfl
  | succ steps ih =>
      intro f m hf
      rw [run, run, ← step_eq_of_validate (ih (depth + 1)) hf hhost depth m]
      have hquiet := @step_validate _ _ host _ (run_validate host steps (depth + 1)) f hf depth m
      cases hs : step host (run host steps (depth + 1)) depth f m with
      | next f' m' =>
          rw [hs] at hquiet
          exact ih depth f' m' (hquiet.1.trans hf)
      | stop o => rfl

/-! ## Validating

The parts are put together for the interpreter, with the world, the subroutines and the host in one
statement. -/

/-- Validation changes nothing but the last result, the outcome of the last expression and the
report of the run: not the world, not the subroutines, not the host, and not the scopes it was
given. It goes the same way whatever native functions and watchers would do, so it calls none. -/
theorem Interpreter.validate_effects (i : Interpreter ω σ) (script : String)
    (chain : Option (Chain ω)) :
    (∃ retained error position,
      (i.validate script chain).2 =
        { i with
          machine := { i.machine with lastReturn := none, retained }
          lastError := error
          lastPosition := position }) ∧
    (i.check script.toList chain).outer = chain ∧
    ∀ (natives : String → Native ω σ) (notify : Notify ω σ),
      let j : Interpreter ω σ := { i with host := i.host.behaving natives notify }
      j.check script.toList chain = i.check script.toList chain ∧
      j.validate script chain =
        ((i.validate script chain).1, { (i.validate script chain).2 with host := j.host }) := by
  have hquiet := (run_validate i.host (script.toList.length + 1) 0).enter
    { rest := script.toList, mode := .validate, outer := chain }
    { i.machine with lastReturn := none } rfl
  obtain ⟨⟨retained, hmachine⟩, houter⟩ := hquiet
  have hcheck : (i.check script.toList chain).machine =
      { i.machine with lastReturn := none, retained } := hmachine
  let after := (i.validate script chain).2
  refine ⟨⟨retained, after.lastError, after.lastPosition, ?_⟩, houter, ?_⟩
  · show Interpreter.mk i.host (i.check script.toList chain).machine _ _ = _
    rw [hcheck]
    rfl
  · -- with other functions the check is the same, so none of them was called
    intro natives notify j
    have hcheck : j.check script.toList chain = i.check script.toList chain :=
      ((run_eq_of_validate (i.host.sameNames_behaving natives notify)
        (script.toList.length + 1) 0).enter _ _ rfl).symm
    refine ⟨hcheck, ?_⟩
    unfold Interpreter.validate
    rw [hcheck]
    rfl

end NumScript.Script
