import NumScript.Proofs.Script.Validation

set_option autoImplicit false

/-! # Statements that fail

A step performs the statement ahead in two parts. A *handler* reads the statement and does what it
asks for (`handle`), and then the terminator is due, or the run stops (`dispatch_eq_handle`).

The handler of a statement that declares nothing does everything that can go wrong before anything
that has an effect. It reads all operands, it looks whether the names are there, and it checks the
body of a subroutine before the subroutine is stored. So if it fails it has no effect, unless it
fails inside a subroutine that it called (`handle_failed`). A check of a body is a run of its own,
but one without effects.
-/

namespace NumScript.Script

variable {ω σ : Type}

/-! ## Steps by handlers

The handler is a step without the terminator. Everything about handlers is used through this
equation. -/

section

variable {host : Host ω σ} {callee : Frame ω → Machine ω σ → Outcome ω σ} {depth : Nat}
  {start rest : List Char} {k : Keyword} {f : Frame ω} {m : Machine ω σ}

theorem declare_eq_handleNames (host : Host ω σ) (sort : Declaration) (f : Frame ω)
    (m : Machine ω σ) (names : List (List Char × List Char)) :
    declare host sort f m names = (handleNames host sort f m names).step := by
  induction names generalizing f m with
  | nil => rfl
  | cons read more ih =>
      obtain ⟨word, rest⟩ := read
      simp only [declare, handleNames]
      by_cases hword : word = []
      · rw [if_pos hword, if_pos hword]
        rfl
      · rw [if_neg hword, if_neg hword]
        cases declareName host sort f.toActivation m.world (String.ofList word) with
        | error e => rfl
        | ok declared => exact ih _ _

/-- An action is performed as it is handled. -/
theorem perform_eq_handleAction (a : Action) :
    perform host callee depth f m a = (handleAction host callee depth f m a).step := by
  cases a with
  | pass | jump _ | assign _ _ => rfl
  | call name args =>
      simp only [perform, handleAction]
      cases Bindings.call host.bindings name args m.world <;> rfl
  | invoke name body args =>
      simp only [perform, handleAction]
      rcases invoke host callee depth m name body args with ⟨ending, m'⟩
      cases ending <;> rfl
  | declare sort names => exact declare_eq_handleNames host sort f m names
  | define name body =>
      simp only [perform, handleAction]
      rcases checkBody callee f m body with ⟨ending, m'⟩
      cases ending <;> rfl
  | finish result => cases result <;> rfl

theorem handle_of_error {e : Error} {p : Progress}
    (h : Reader.statement (f.view host m) f.mode start k ⟨f.rest, m.retained⟩ = .error e p) :
    handle host callee depth start k f m =
      ⟨{ f with rest := p.rest }, { m with retained := p.retained }, some (.failed e)⟩ := by
  unfold handle
  rw [h]

theorem handle_of_ok {a : Action} {p : Progress}
    (h : Reader.statement (f.view host m) f.mode start k ⟨f.rest, m.retained⟩ = .ok a p) :
    handle host callee depth start k f m =
      handleAction host callee depth { f with rest := p.rest } { m with retained := p.retained }
        a := by
  unfold handle
  rw [h]

/-- A step handles the statement ahead and goes on as the handler says. -/
theorem dispatch_eq_handle (h : readLeading (skipGap f.rest) = (.keyword k, rest)) :
    dispatch host callee depth f m =
      (handle host callee depth (skipGap f.rest) k { f with rest } m).step := by
  let g : Frame ω := { f with rest }
  cases hread : Reader.statement (g.view host m) g.mode (skipGap f.rest) k ⟨rest, m.retained⟩ with
  | error e p =>
      rw [dispatch_of_error h hread, handle_of_error hread]
      rfl
  | ok a p => rw [dispatch_of_ok h hread, handle_of_ok hread, perform_eq_handleAction]

/-! ## Calls

The effects of a subroutine that was started stay when it fails. That a statement starts one is said
by what it asks for and by the limit, without running it. -/

/-- A subroutine is started by the statement: it is called, and not too many are active. That its
text may turn out to hold no statement makes no difference. -/
def StartsSubroutine (host : Host ω σ) (depth : Nat) (start : List Char) (k : Keyword) (f : Frame ω)
    (m : Machine ω σ) : Prop :=
  depth < host.maxDepth ∧ ∃ name body args p,
    Reader.statement (f.view host m) f.mode start k ⟨f.rest, m.retained⟩ =
      .ok (.invoke name body args) p

theorem not_startsSubroutine (h : k ≠ .goto) : ¬ StartsSubroutine host depth start k f m := by
  rintro ⟨-, name, body, args, p, hread⟩
  exact h (asksFor_of_statement hread)

/-- A subroutine without statements fails after the last result was given up. Only the host can put
such a text there. -/
theorem handle_of_blank {name body : String} {args : List Float} {p : Progress}
    (hread : Reader.statement (f.view host m) f.mode start k ⟨f.rest, m.retained⟩ =
      .ok (.invoke name body args) p)
    (hdepth : depth < host.maxDepth) (hbody : skipGap body.toList = []) :
    handle host callee depth start k f m =
      ⟨{ f with rest := p.rest }, { m with retained := p.retained, lastReturn := none },
        some (.failed .emptyScript)⟩ := by
  rw [handle_of_ok hread]
  simp only [handleAction, invoke, if_neg (Nat.not_le_of_lt hdepth), enter, hbody]

/-- A native function that a statement asks for is there. -/
theorem contains_of_call {name : String} {args : List Float} {p : Progress}
    (hread : Reader.statement (f.view host m) f.mode start k ⟨f.rest, m.retained⟩ =
      .ok (.call name args) p) : Dict.contains host.bindings name = true := by
  obtain rfl : k = .call := asksFor_of_statement hread
  change Reader.nativeCall _ _ _ = _ at hread
  rw [Reader.nativeCall_eq] at hread
  split at hread
  · cases hread
  dsimp only at hread
  split at hread
  · cases hread
  rename_i hnative
  split at hread
  · cases hread
  · obtain ⟨hcall, -⟩ := EStateM.Result.ok.inj hread
    split at hcall
    · obtain ⟨rfl, -⟩ := Action.call.inj hcall
      simpa [Frame.view] using hnative
    · cases hcall

/-! ## Failure

An error in reading comes before every effect. What is left are two actions that can fail, a
definition and a call that is refused, and neither changes anything before it does. -/

/-- An action that fails is a definition or a call that is refused, if it declares no names, runs no
subroutine and calls a native function only where there is one. -/
theorem cases_of_handleAction {a : Action} {e : Error}
    (h : (handleAction host callee depth f m a).ending? = some (.failed e))
    (hdeclare : ∀ sort names, a ≠ .declare sort names)
    (hcall : ∀ name args, a = .call name args → Dict.contains host.bindings name = true)
    (hinvoke : ∀ name body args, a = .invoke name body args → host.maxDepth ≤ depth) :
    (∃ name body, a = .define name body) ∨
      ∃ name body args, a = .invoke name body args ∧ host.maxDepth ≤ depth := by
  cases a with
  | pass | jump _ | assign _ _ => cases h
  | finish result => cases result <;> cases h
  | declare sort names => exact absurd rfl (hdeclare sort names)
  | call name args =>
      obtain ⟨native, hnative⟩ := Option.isSome_iff_exists.1 (hcall name args rfl)
      simp only [handleAction, Bindings.call, hnative] at h
      cases h
  | invoke name body args => exact .inr ⟨name, body, args, rfl, hinvoke name body args rfl⟩
  | define name body => exact .inl ⟨name, body, rfl⟩

theorem handleAction_of_refused {name body : String} {args : List Float}
    (h : host.maxDepth ≤ depth) :
    handleAction host callee depth f m (.invoke name body args) =
      ⟨f, m, some (.failed (.tooDeep name host.maxDepth))⟩ := by
  simp only [handleAction, invoke, if_pos h]

/-- A definition whose body is wrong changes nothing. -/
theorem handleAction_define_failed {name body : String} {e : Error} (hc : Harmless callee)
    (h : (handleAction host callee depth f m (.define name body)).ending? = some (.failed e)) :
    (handleAction host callee depth f m (.define name body)).frame = f ∧
      m.SameWorld (handleAction host callee depth f m (.define name body)).machine := by
  have hbody := checkBody_sameWorld hc f m body
  simp only [handleAction] at h ⊢
  rcases hcheck : checkBody callee f m body with ⟨ending, m'⟩
  rw [hcheck] at hbody h
  cases ending with
  | finished => cases h
  | failed _ | outOfSteps => exact ⟨rfl, hbody⟩

/-- A definition goes the same way for every host that offers functions of the same names. -/
theorem handleAction_define_eq {callee' : Frame ω → Machine ω σ → Outcome ω σ}
    (hc : AgreeOnChecks callee callee') (host' : Host ω σ) (name body : String) :
    handleAction host callee depth f m (.define name body) =
      handleAction host' callee' depth f m (.define name body) := by
  simp only [handleAction, hc.checkBody]

section

variable {steps : Nat} {e : Error} (hdeclare : ∀ sort : Declaration, k ≠ sort.keyword)
  (hstart : ¬ StartsSubroutine host depth start k f m)

include hdeclare hstart

/-- Where a handler can fail: the statement is read with an error, or it is a definition, or a call
that is refused. -/
theorem cases_of_handle
    (h : (handle host callee depth start k f m).ending? = some (.failed e)) :
    let reading := Reader.statement (f.view host m) f.mode start k ⟨f.rest, m.retained⟩
    (∃ e' p, reading = .error e' p) ∨ (∃ name body p, reading = .ok (.define name body) p) ∨
      ∃ name body args p, reading = .ok (.invoke name body args) p ∧ host.maxDepth ≤ depth := by
  intro reading
  cases hread : reading with
  | error e' p => exact .inl ⟨e', p, rfl⟩
  | ok a p =>
      rw [handle_of_ok hread] at h
      have hnames : ∀ sort names, a ≠ .declare sort names := by
        rintro sort names rfl
        exact hdeclare sort (asksFor_of_statement hread)
      have hcall : ∀ name args, a = .call name args → Dict.contains host.bindings name = true := by
        rintro name args rfl
        exact contains_of_call hread
      have hinvoke : ∀ name body args, a = .invoke name body args → host.maxDepth ≤ depth := by
        rintro name body args rfl
        exact Nat.le_of_not_lt fun hlt => hstart ⟨hlt, name, body, args, p, hread⟩
      rcases cases_of_handleAction h hnames hcall hinvoke with
        ⟨name, body, rfl⟩ | ⟨name, body, args, rfl, hdeep⟩
      · exact .inr (.inl ⟨name, body, p, rfl⟩)
      · exact .inr (.inr ⟨name, body, args, p, rfl, hdeep⟩)

/-- A handler that fails has no effect. -/
theorem handle_quiet (hc : Harmless callee)
    (h : (handle host callee depth start k f m).ending? = some (.failed e)) :
    let handled := handle host callee depth start k f m
    handled.frame.toActivation = f.toActivation ∧ handled.frame.jumps = f.jumps ∧
      m.SameWorld handled.machine := by
  intro handled
  rcases cases_of_handle hdeclare hstart h with
    ⟨e', p, hread⟩ | ⟨name, body, p, hread⟩ | ⟨name, body, args, p, hread, hdeep⟩
  · rw [show handled = _ from handle_of_error hread]
    exact ⟨rfl, rfl, p.retained, rfl⟩
  · rw [handle_of_ok hread] at h
    obtain ⟨hframe, hworld⟩ := handleAction_define_failed hc h
    have hretained : m.SameWorld { m with retained := p.retained } := ⟨p.retained, rfl⟩
    rw [show handled = _ from handle_of_ok hread, hframe]
    exact ⟨rfl, rfl, hretained.trans hworld⟩
  · rw [show handled = _ from handle_of_ok hread, handleAction_of_refused hdeep]
    exact ⟨rfl, rfl, p.retained, rfl⟩

/-- A handler that fails goes the same way whatever native functions and watchers would do. -/
theorem handle_behaving
    (h : (handle host (run host steps (depth + 1)) depth start k f m).ending? = some (.failed e))
    (natives : String → Native ω σ) (notify : Notify ω σ) :
    let other := host.behaving natives notify
    handle other (run other steps (depth + 1)) depth start k f m =
      handle host (run host steps (depth + 1)) depth start k f m := by
  intro other
  have hnames : host.SameNames other := host.sameNames_behaving natives notify
  have hview : f.view other m = f.view host m := (hnames.view_eq f m).symm
  rcases cases_of_handle hdeclare hstart h with
    ⟨e', p, hread⟩ | ⟨name, body, p, hread⟩ | ⟨name, body, args, p, hread, hdeep⟩
  · rw [handle_of_error hread, handle_of_error (hview ▸ hread)]
  · rw [handle_of_ok hread, handle_of_ok (hview ▸ hread)]
    exact (handleAction_define_eq (run_eq_of_validate hnames steps (depth + 1)) other name body).symm
  · rw [handle_of_ok hread, handle_of_ok (hview ▸ hread), handleAction_of_refused hdeep]
    exact handleAction_of_refused hdeep

end

/-- The handler of a statement that declares nothing fails without effects, unless it started a
subroutine. The run ends there. The variables of the frame and of the world with their cells, the
subroutines and the last result are as they were before. The handler goes the same way whatever
native functions and watchers would do, so it called none. -/
theorem handle_failed {steps : Nat} {e : Error}
    (hk : readLeading (skipGap f.rest) = (.keyword k, rest))
    (hdeclare : ∀ sort : Declaration, k ≠ sort.keyword)
    (hstart : k = .goto → ¬ StartsSubroutine host depth (skipGap f.rest) k { f with rest } m)
    (hfail : (handle host (run host steps (depth + 1)) depth (skipGap f.rest) k { f with rest }
      m).ending? = some (.failed e)) :
    let handled :=
      handle host (run host steps (depth + 1)) depth (skipGap f.rest) k { f with rest } m
    dispatch host (run host steps (depth + 1)) depth f m =
        .stop ⟨.failed e, Text.byteSize handled.frame.rest, handled.machine, f.outer⟩ ∧
      handled.frame.toActivation = f.toActivation ∧ handled.frame.jumps = f.jumps ∧
      m.SameWorld handled.machine ∧
      ∀ (natives : String → Native ω σ) (notify : Notify ω σ),
        let other := host.behaving natives notify
        handle other (run other steps (depth + 1)) depth (skipGap f.rest) k { f with rest } m =
          handled := by
  intro handled
  have hstart : ¬ StartsSubroutine host depth (skipGap f.rest) k { f with rest } m := by
    by_cases hgoto : k = .goto
    · exact hstart hgoto
    · exact not_startsSubroutine hgoto
  obtain ⟨hactivation, hjumps, hworld⟩ :=
    handle_quiet hdeclare hstart (run_validate host steps (depth + 1)) hfail
  refine ⟨?_, hactivation, hjumps, hworld, handle_behaving hdeclare hstart hfail⟩
  rw [dispatch_eq_handle hk, Handled.step, hfail]
  dsimp only [Frame.stop]
  rw [hactivation]

end

/-- A host with a native function that keeps its arguments, for two active subroutines. -/
def keepingHost : Host Unit (List Float) where
  bindings := ⟨[("keep", fun args w => (0.0, { w with state := args ++ w.state }))]⟩
  notify := fun _ x w => { w with state := x :: w.state }
  maxDepth := 2

def keepingMachine : Machine Unit (List Float) where
  world := { root := ⟨[("x", { watcher := some () })]⟩, state := [] }
  functions := ⟨[("g", "set x 1;")]⟩
  lastReturn := some 3.0

/-- The main statement for a definition whose body names an unknown variable after it wrote a known
one and called a native function, and for a call while too many subroutines are active. -/
theorem handle_failed_define_goto :
    let f : Frame Unit := { rest := "define h; set x 1; call keep x; set zz 1; end;".toList }
    let f' : Frame Unit := { rest := "goto g x + 1;".toList }
    (∃ left machine, dispatch keepingHost (run keepingHost 9 1) 0 f keepingMachine =
        .stop ⟨.failed (.undefinedVariable "zz"), left, machine, none⟩ ∧
        keepingMachine.SameWorld machine) ∧
      ∃ left machine, dispatch keepingHost (run keepingHost 9 3) 2 f' keepingMachine =
        .stop ⟨.failed (.tooDeep "g" 2), left, machine, none⟩ ∧
        keepingMachine.SameWorld machine := by
  intro f f'
  constructor
  · have hk : readLeading (skipGap f.rest) =
        (.keyword .define, "h; set x 1; call keep x; set zz 1; end;".toList) := rfl
    have hfail : (handle keepingHost (run keepingHost 9 1) 0 (skipGap f.rest) .define
        { f with rest := "h; set x 1; call keep x; set zz 1; end;".toList }
        keepingMachine).ending? = some (.failed (.undefinedVariable "zz")) := by
      decide +kernel
    obtain ⟨hstop, -, -, hworld, -⟩ := handle_failed hk (by rintro ⟨⟩ <;> decide)
      (fun hgoto => by cases hgoto) hfail
    exact ⟨_, _, hstop, hworld⟩
  · have hk : readLeading (skipGap f'.rest) = (.keyword .goto, "g x + 1;".toList) := rfl
    have hfail : (handle keepingHost (run keepingHost 9 3) 2 (skipGap f'.rest) .goto
        { f' with rest := "g x + 1;".toList } keepingMachine).ending? =
          some (.failed (.tooDeep "g" 2)) := by
      decide +kernel
    obtain ⟨hstop, -, -, hworld, -⟩ := handle_failed hk (by rintro ⟨⟩ <;> decide)
      (fun _ hstarts => absurd hstarts.1 (by decide)) hfail
    exact ⟨_, _, hstop, hworld⟩

end NumScript.Script
