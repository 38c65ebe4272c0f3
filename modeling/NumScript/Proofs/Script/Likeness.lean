import NumScript.Proofs.Script.Anatomy
import NumScript.Proofs.Script.Sight
import NumScript.Proofs.Script.Verdict

set_option autoImplicit false

/-! # Two runs that are alike

A script is run twice, in worlds that are not the same. A *likeness* is a relation between worlds
under which a script cannot tell them apart: the same names mean variables with the same values and
flags, the functions of the host answer alike, and writes, exports and answers of the host lead from
related worlds to related ones (`Likeness`). Under a likeness both runs go the same way
(`run_alike`), whatever their expressions left behind before.

The body of a subroutine is checked where it is defined. A check writes nothing, so there it is
enough that both see the same (`run_checksAlike`).

## How to use it

To show that something about a world makes no difference to scripts, define the relation between
worlds that differ in it and prove that it is a `Likeness`. Its parts are about single look-ups,
writes, declarations and calls, and none of them mentions statements, texts or steps. Then
`run_alike` gives the run and `evaluate_alike` the interpreter. The least relation, equality, is a
likeness as well, and what it gives is that the outcome of the last expression makes no difference.
-/

namespace NumScript

variable {ω : Type}

/-! ## The same sight

Seeing the same is about reading only. It is what checks need, and it is less than a likeness, which
is also about writing. -/

/-- Names mean variables with the same values and the same flags in both chains. -/
structure Chain.SameSight (chain : Chain ω) (cells : Cells) (chain' : Chain ω) (cells' : Cells) :
    Prop where
  value? : ∀ name, Chain.value? chain cells name = Chain.value? chain' cells' name
  readonly : ∀ name, (Chain.find? chain name).any (·.readonly) =
    (Chain.find? chain' name).any (·.readonly)

namespace Chain.SameSight

variable {chain chain' : Chain ω} {cells cells' : Cells}

theorem contains (h : SameSight chain cells chain' cells') (name : String) :
    Chain.contains chain name = Chain.contains chain' name := by
  rw [← Script.Chain.isSome_value? chain cells, h.value?, Script.Chain.isSome_value?]

/-- A scope of plain variables in front makes no difference. -/
theorem cons (h : SameSight chain cells chain' cells') {s : Scope ω}
    (hs : ∀ name v, s.find? name = some v → v.shape = .plain) :
    SameSight (s :: chain) cells (s :: chain') cells' where
  value? name := by
    have hrest := h.value? name
    unfold Chain.value? Chain.find? at hrest ⊢
    rw [List.findSome?_cons, List.findSome?_cons]
    cases hv : Dict.find? s name with
    | none => exact hrest
    | some v =>
        have hcell : v.cell? = none := congrArg Shape.cell? (hs name v hv)
        exact congrArg some (Variable.value_of_owned hcell cells cells')
  readonly name := by
    have hrest := h.readonly name
    unfold Chain.find? at hrest ⊢
    rw [List.findSome?_cons, List.findSome?_cons]
    cases Dict.find? s name with
    | none => exact hrest
    | some v => rfl

end Chain.SameSight

namespace Script

variable {σ : Type}

/-! ## The same requests

A statement that finds the same asks for the same. It is shown for frames that may have different
outer scopes, since a check is given the chain of its frame as its outer scopes. -/

/-- The frame with other outer scopes. -/
def Frame.seeing (f : Frame ω) (outer : Option (Chain ω)) : Frame ω :=
  { f with outer }

@[simp] theorem Frame.mode_seeing (f : Frame ω) (outer : Option (Chain ω)) :
    (f.seeing outer).mode = f.mode :=
  rfl

@[simp] theorem Frame.rest_seeing (f : Frame ω) (outer : Option (Chain ω)) :
    (f.seeing outer).rest = f.rest :=
  rfl

@[simp] theorem Frame.outer_seeing (f : Frame ω) (outer : Option (Chain ω)) :
    (f.seeing outer).outer = outer :=
  rfl

/-- Two runs stop alike before a statement, or read the same from it. Their frames differ at most in
their outer scopes. -/
inductive SameRequest (m m' : Machine ω σ) (outer outer' : Option (Chain ω)) :
    Except (Outcome ω σ) (Action × Frame ω × Machine ω σ) →
    Except (Outcome ω σ) (Action × Frame ω × Machine ω σ) → Prop
  | error (ending : Ending) (left : Nat) (r r' : Expr.Retained) :
      SameRequest m m' outer outer' (.error ⟨ending, left, { m with retained := r }, outer⟩)
        (.error ⟨ending, left, { m' with retained := r' }, outer'⟩)
  | ok (a : Action) (f : Frame ω) (r r' : Expr.Retained) :
      SameRequest m m' outer outer'
        (.ok (a, f.seeing outer, { m with retained := r }))
        (.ok (a, f.seeing outer', { m' with retained := r' }))

/-- A statement finds the same where frames see the same. -/
theorem agrees_of_sameSight (host : Host ω σ) {f f' : Frame ω} {m m' : Machine ω σ}
    (hsight : Chain.SameSight (f.chain m.world) m.world.cells (f'.chain m'.world) m'.world.cells)
    (hreturn : m.lastReturn = m'.lastReturn) (hfunctions : m.functions = m'.functions) :
    (f.view host m).Agrees (f'.view host m') := by
  refine ⟨?_, hsight.contains, hsight.readonly, rfl, ?_⟩
  · unfold View.names Frame.view
    dsimp only
    rw [hreturn]
    funext name
    split
    · rfl
    · exact hsight.value? name
  · unfold Frame.view
    dsimp only
    rw [hfunctions]

theorem Frame.takeJump_seeing (f : Frame ω) (outer : Option (Chain ω)) :
    (f.seeing outer).takeJump = (f.takeJump.1.seeing outer, f.takeJump.2) := by
  obtain ⟨a, rest, jumps⟩ := f
  unfold Frame.takeJump Frame.seeing
  cases jumps with
  | nil => rfl
  | cons j below =>
      dsimp only
      split <;> rfl

theorem sameRequest {host : Host ω σ} {f : Frame ω} {m m' : Machine ω σ}
    {outer' : Option (Chain ω)}
    (hstopping : (f.mode.observesTermination && m.world.stopping) =
      (f.mode.observesTermination && m'.world.stopping))
    (hview : (f.view host m).Agrees ((f.seeing outer').view host m')) :
    SameRequest m m' f.outer outer' (request host f m)
      (request host (f.seeing outer') m') := by
  have hact := f.toActivation_takeJump
  have houter : f.outer = f.takeJump.1.outer := by rw [hact]
  -- taking a jump keeps the activation, so the view stays the same
  have hview' : (f.takeJump.1.view host m).Agrees
      ((f.takeJump.1.seeing outer').view host m') := by
    unfold Frame.view Activation.chain Frame.seeing at hview ⊢
    rw [hact]
    exact hview
  have hmode : f.takeJump.1.mode = f.mode := by rw [hact]
  unfold request
  rw [f.takeJump_seeing outer', Frame.mode_seeing, Frame.rest_seeing, Frame.outer_seeing,
    ← hstopping, houter]
  generalize f.takeJump = jump at hview' hmode ⊢
  obtain ⟨start, point⟩ := jump
  split
  · exact .error _ _ _ _
  cases point with
  | inside text => exact .error _ _ _ _
  | before rest =>
      dsimp only at hview' ⊢
      rcases readLeading (skipGap rest) with ⟨leading, ahead⟩
      cases leading with
      | nothing => exact .error _ _ _ _
      | unknown word => exact .error _ _ _ _
      | keyword k =>
          dsimp only
          rw [← Reader.statement_eq_of_agrees hview', Frame.mode_seeing]
          have hread := sameReading_statement (start.view host m) start.mode (skipGap rest) ahead
            m.retained m'.retained k
          generalize Reader.statement _ _ _ _ _ = x at hread ⊢
          generalize Reader.statement _ _ _ _ _ = x' at hread ⊢
          cases hread with
          | error e rest r r' => exact .error _ _ _ _
          | ok a rest r r' => exact .ok a { start with rest } r r'

/-! ## Checks

A check declares names in its own scope, in front of chains that see the same. A declaration keeps
them so, as it puts the same plain variable in front of both. -/

/-- Two checks that see the same: one in the frame `f`, the other with other outer scopes. -/
structure CheckedAlike (f : Frame ω) (m : Machine ω σ) (outer' : Option (Chain ω))
    (m' : Machine ω σ) : Prop where
  validate : f.mode = .validate
  plain : ∀ name v, f.locals.find? name = some v → v.shape = .plain
  sight : Chain.SameSight (f.outer.getD m.world.chain) m.world.cells
    (outer'.getD m'.world.chain) m'.world.cells
  lastReturn : m.lastReturn = m'.lastReturn
  functions : m.functions = m'.functions

inductive SameCheckStep : Step ω σ → Step ω σ → Prop
  | next {f : Frame ω} {m m' : Machine ω σ} {outer' : Option (Chain ω)} :
      CheckedAlike f m outer' m' → SameCheckStep (.next f m) (.next (f.seeing outer') m')
  | stop {o o' : Outcome ω σ} : o.ending = o'.ending → o.left = o'.left →
      SameCheckStep (.stop o) (.stop o')

/-- Two ways to run frames under which such checks end alike. -/
def ChecksAlike (callee callee' : Frame ω → Machine ω σ → Outcome ω σ) : Prop :=
  ∀ (f : Frame ω) (m : Machine ω σ) (outer' : Option (Chain ω)) (m' : Machine ω σ),
    CheckedAlike f m outer' m' →
      (callee f m).ending = (callee' (f.seeing outer') m').ending ∧
      (callee f m).left = (callee' (f.seeing outer') m').left

theorem ChecksAlike.enter {callee callee' : Frame ω → Machine ω σ → Outcome ω σ}
    (h : ChecksAlike callee callee') : ChecksAlike (enter callee) (enter callee') := by
  intro f m outer' m' hf
  unfold Script.enter
  rw [Frame.rest_seeing]
  cases skipGap f.rest with
  | nil => exact ⟨rfl, rfl⟩
  | cons c rest =>
      exact h { f with rest := c :: rest } m outer' m'
        ⟨hf.validate, hf.plain, hf.sight, hf.lastReturn, hf.functions⟩

/-- Declaring a name keeps a scope plain. -/
theorem plain_declare {s : Scope ω} (hs : ∀ name v, s.find? name = some v → v.shape = .plain)
    (word : String) : ∀ name v, (s.declare word).find? name = some v → v.shape = .plain :=
  (Activation.IsRunning.declare (a := { locals := s }) ⟨rfl, rfl, hs⟩).plain

section

variable {f : Frame ω} {m m' : Machine ω σ} {outer' : Option (Chain ω)}

namespace CheckedAlike

theorem chain (h : CheckedAlike f m outer' m') :
    Chain.SameSight (f.chain m.world) m.world.cells ((f.seeing outer').chain m'.world)
      m'.world.cells :=
  h.sight.cons h.plain

theorem goTo (h : CheckedAlike f m outer' m') (rest : List Char) (jumps : List Jump) :
    CheckedAlike { f with rest, jumps } m outer' m' :=
  ⟨h.validate, h.plain, h.sight, h.lastReturn, h.functions⟩

/-- What was left behind by expressions is not looked at. -/
theorem of_sameWorld (h : CheckedAlike f m outer' m') {n n' : Machine ω σ} (hn : m.SameWorld n)
    (hn' : m'.SameWorld n') : CheckedAlike f n outer' n' := by
  obtain ⟨r, rfl⟩ := hn
  obtain ⟨r', rfl⟩ := hn'
  exact ⟨h.validate, h.plain, h.sight, h.lastReturn, h.functions⟩

theorem finishStatement (h : CheckedAlike f m outer' m') :
    SameCheckStep (f.finishStatement m)
      ((f.seeing outer').finishStatement m') := by
  unfold Frame.finishStatement
  rw [Frame.rest_seeing]
  split
  · rename_i rest _
    exact .next (h.goTo rest f.jumps)
  · exact .stop rfl rfl

theorem declare (host : Host ω σ) (sort : Declaration) (names : List (List Char × List Char))
    (h : CheckedAlike f m outer' m') :
    SameCheckStep (declare host sort f m names)
      (Script.declare host sort (f.seeing outer') m' names) := by
  induction names generalizing f with
  | nil => exact h.finishStatement
  | cons read more ih =>
      obtain ⟨word, rest⟩ := read
      have hvalidate : (f.seeing outer').mode = .validate := h.validate
      unfold Script.declare
      dsimp only
      rw [declareName_validate host sort h.validate, declareName_validate host sort hvalidate]
      split
      · exact .stop rfl rfl
      · exact @ih { f with rest, locals := f.locals.declare (String.ofList word) }
          ⟨h.validate, plain_declare h.plain _, h.sight, h.lastReturn, h.functions⟩

end CheckedAlike

end

section

variable {callee callee' : Frame ω → Machine ω σ → Outcome ω σ} (hc : ChecksAlike callee callee')

include hc

/-- The body of a subroutine is checked alike where the same is seen. -/
theorem checkBody_alike {f f' : Frame ω} {m m' : Machine ω σ}
    (hsight : Chain.SameSight (f.chain m.world) m.world.cells (f'.chain m'.world) m'.world.cells)
    (hreturn : m.lastReturn = m'.lastReturn) (hfunctions : m.functions = m'.functions)
    (body : String) : (checkBody callee f m body).1 = (checkBody callee' f' m' body).1 := by
  refine (hc.enter { rest := body.toList, mode := .validate, outer := some (f.chain m.world) } m
    (some (f'.chain m'.world)) m' ⟨rfl, fun name v h => ?_, hsight, hreturn, hfunctions⟩).1
  cases h

variable {host : Host ω σ} (hquiet : Harmless callee) (hquiet' : Harmless callee') {f : Frame ω}
  {m m' : Machine ω σ} {outer' : Option (Chain ω)}

include hquiet hquiet'

theorem CheckedAlike.perform (h : CheckedAlike f m outer' m') (depth depth' : Nat) {a : Action}
    (ha : a.IsQuiet) :
    SameCheckStep (perform host callee depth f m a)
      (Script.perform host callee' depth' (f.seeing outer') m' a) := by
  cases a with
  | pass => exact h.finishStatement
  | declare sort names => exact h.declare host sort names
  | define name body =>
      have hworld := checkBody_sameWorld hquiet f m body
      have hworld' := checkBody_sameWorld hquiet' (f.seeing outer') m' body
      have hbody : (checkBody callee f m body).1 =
          (checkBody callee' (f.seeing outer') m' body).1 :=
        checkBody_alike hc h.chain h.lastReturn h.functions body
      simp only [Script.perform, h.validate, Frame.mode_seeing]
      generalize checkBody callee f m body = r at hworld hbody ⊢
      generalize checkBody callee' (f.seeing outer') m' body = r' at hworld' hbody ⊢
      obtain ⟨ending, n⟩ := r
      obtain ⟨ending', n'⟩ := r'
      obtain rfl : ending = ending' := hbody
      cases ending with
      | finished => exact (h.of_sameWorld hworld hworld').finishStatement
      | failed _ | outOfSteps => exact .stop rfl rfl
  | assign _ _ | call _ _ | invoke _ _ _ | jump _ | finish _ => exact ha.elim

theorem CheckedAlike.step (h : CheckedAlike f m outer' m') (depth depth' : Nat) :
    SameCheckStep (step host callee depth f m)
      (Script.step host callee' depth' (f.seeing outer') m') := by
  have hstopping : (f.mode.observesTermination && m.world.stopping) =
      (f.mode.observesTermination && m'.world.stopping) := by
    rw [h.validate]
    rfl
  have hreq := sameRequest hstopping (agrees_of_sameSight host h.chain h.lastReturn h.functions)
  rw [step_eq, step_eq]
  generalize hx : request host f m = x at hreq ⊢
  generalize request host (f.seeing outer') m' = x' at hreq ⊢
  cases hreq with
  | error ending left r r' => exact .stop rfl rfl
  | ok a f₁ r r' =>
      obtain ⟨hact, _, _, _, _, _, hread⟩ := statement_of_request hx
      rw [h.validate] at hread
      have h₁ : CheckedAlike (f₁.seeing f.outer) { m with retained := r } outer'
          { m' with retained := r' } := by
        refine ⟨?_, ?_, ?_, h.lastReturn, h.functions⟩
        · rw [hact]
          exact h.validate
        · rw [hact]
          exact h.plain
        · rw [hact]
          exact h.sight
      exact h₁.perform hc hquiet hquiet' depth depth' (quiet_of_asks (asks_of_statement hread))

end

/-- Checks that see the same end alike, whatever calls are under way. -/
theorem run_checksAlike (host : Host ω σ) (steps depth depth' : Nat) :
    ChecksAlike (run host steps depth) (run host steps depth') := by
  induction steps generalizing depth depth' with
  | zero =>
      intro f m outer' m' _
      exact ⟨rfl, rfl⟩
  | succ steps ih =>
      intro f m outer' m' h
      have hstep : SameCheckStep (step host (run host steps (depth + 1)) depth f m)
          (step host (run host steps (depth' + 1)) depth' (f.seeing outer') m') :=
        h.step (ih (depth + 1) (depth' + 1)) (run_validate host steps _)
          (run_validate host steps _) depth depth'
      rw [run, run]
      generalize step host _ depth f m = s at hstep ⊢
      generalize step host _ depth' (f.seeing outer') m' = s' at hstep ⊢
      cases hstep with
      | next h' => exact ih depth depth' _ _ _ _ h'
      | stop hending hleft => exact ⟨hending, hleft⟩

/-! ## Runs

Each action is matched by a part of the definition of a likeness. The two machines differ in their
worlds and in the outcome of the last expression, and in nothing else. -/

/-- A relation between worlds under which a script cannot tell them apart. -/
structure Likeness (host : Host ω σ) (alike : World ω σ → World ω σ → Prop) : Prop where
  stopping : ∀ {w w'}, alike w w' → w.stopping = w'.stopping
  sight : ∀ {w w'}, alike w w' → Chain.SameSight w.chain w.cells w'.chain w'.cells
  root : ∀ {w w'}, alike w w' → ∀ name, w.root.contains name = w'.root.contains name
  call : ∀ {w w' name native}, alike w w' → Dict.find? host.bindings name = some native →
    ∀ args, (native args w).1 = (native args w').1 ∧ alike (native args w).2 (native args w').2
  assign : ∀ {w w'}, alike w w' → ∀ name x,
    alike ((w.assign? host.notify name x).getD w) ((w'.assign? host.notify name x).getD w')
  add : ∀ {w w'}, alike w w' → ∀ name {v : Variable ω}, v.shape = .plain →
    alike { w with root := (w.root.add? name v).getD w.root }
      { w' with root := (w'.root.add? name v).getD w'.root }

structure Machine.Alike (alike : World ω σ → World ω σ → Prop) (m m' : Machine ω σ) : Prop where
  world : alike m.world m'.world
  lastReturn : m.lastReturn = m'.lastReturn
  functions : m.functions = m'.functions

structure Outcome.Alike (alike : World ω σ → World ω σ → Prop) (o o' : Outcome ω σ) : Prop where
  ending : o.ending = o'.ending
  left : o.left = o'.left
  machine : o.machine.Alike alike o'.machine

inductive SameRunStep (alike : World ω σ → World ω σ → Prop) : Step ω σ → Step ω σ → Prop
  | next {f : Frame ω} {m m' : Machine ω σ} : f.IsRunning → m.Alike alike m' →
      SameRunStep alike (.next f m) (.next f m')
  | stop {o o' : Outcome ω σ} : o.Alike alike o' → SameRunStep alike (.stop o) (.stop o')

/-- A way to run frames under which runs in worlds that are alike end alike. -/
def RunsAlike (alike : World ω σ → World ω σ → Prop)
    (callee : Frame ω → Machine ω σ → Outcome ω σ) : Prop :=
  ∀ (f : Frame ω) (m m' : Machine ω σ), f.IsRunning → m.Alike alike m' →
    (callee f m).Alike alike (callee f m')

section

variable {host : Host ω σ} {alike : World ω σ → World ω σ → Prop} {f : Frame ω}
  {m m' : Machine ω σ}

theorem Machine.Alike.of_sameWorld (h : m.Alike alike m') {n n' : Machine ω σ}
    (hn : m.SameWorld n) (hn' : m'.SameWorld n') : n.Alike alike n' := by
  obtain ⟨r, rfl⟩ := hn
  obtain ⟨r', rfl⟩ := hn'
  exact ⟨h.world, h.lastReturn, h.functions⟩

theorem Machine.Alike.withReturn (h : m.Alike alike m') (lastReturn : Option Float) :
    ({ m with lastReturn } : Machine ω σ).Alike alike { m' with lastReturn } :=
  ⟨h.world, rfl, h.functions⟩

theorem stop_alike (f : Frame ω) (h : m.Alike alike m') (ending : Ending) :
    SameRunStep alike (f.stop m ending) (f.stop m' ending) :=
  .stop ⟨rfl, rfl, h⟩

theorem finishStatement_alike (hf : f.IsRunning) (h : m.Alike alike m') :
    SameRunStep alike (f.finishStatement m) (f.finishStatement m') := by
  unfold Frame.finishStatement
  split
  · exact .next hf h
  · exact stop_alike f h _

variable (hlike : Likeness host alike)

include hlike

theorem Likeness.chain (hf : f.IsRunning) (h : m.Alike alike m') :
    Chain.SameSight (f.chain m.world) m.world.cells (f.chain m'.world) m'.world.cells := by
  unfold Activation.chain
  rw [hf.outer]
  exact (hlike.sight h.world).cons hf.plain

section

variable {a : Activation ω} {w w' : World ω σ}

/-- A write leads to the same activation and to worlds that are alike. -/
theorem assign_alike (ha : a.IsRunning) (h : alike w w') (name : String) (x : Float) :
    ∃ (a' : Activation ω) (u u' : World ω σ), assign host a w name x = (a', u) ∧
      assign host a w' name x = (a', u') ∧ a'.IsRunning ∧ alike u u' := by
  cases hlocal : Dict.find? a.locals name with
  | some v =>
      have hv := ha.plain name v hlocal
      refine ⟨_, w, w', assign_of_local ha hlocal, ?_,
        ha.replace ((v.shape_store w.cells x).trans hv), h⟩
      rw [assign_of_local ha hlocal, v.store_congr w'.cells w.cells]
  | none =>
      exact ⟨a, _, _, assign_of_not_local ha hlocal, assign_of_not_local ha hlocal, ha,
        hlike.assign h name x⟩

theorem exportName_alike (ha : a.IsRunning) (h : alike w w') (name : String) :
    ∃ (a' : Activation ω) (u u' : World ω σ), exportName host a w name = (a', u) ∧
      exportName host a w' name = (a', u') ∧ a'.IsRunning ∧ alike u u' := by
  unfold exportName
  cases hlocal : Dict.find? a.locals name with
  | some v =>
      have hv := ha.plain name v hlocal
      have hcell : v.cell? = none := congrArg Shape.cell? hv
      dsimp only
      rw [← hlike.root h name]
      by_cases hroot : w.root.contains name = true
      · rw [if_pos hroot, if_pos hroot, Variable.value_of_owned hcell w'.cells w.cells]
        exact ⟨_, _, _, rfl, rfl, ha.erase, hlike.assign h name _⟩
      · rw [if_neg hroot, if_neg hroot]
        exact ⟨_, _, _, rfl, rfl, ha.erase, hlike.add h name hv⟩
  | none =>
      dsimp only
      rw [← (hlike.sight h).contains name]
      refine ⟨a, _, _, rfl, rfl, ha, ?_⟩
      split
      · exact h
      · exact hlike.add h name rfl

/-- Declaring a name fails in both runs, or leads to the same activation and to worlds that are
alike. -/
theorem declareName_alike (ha : a.IsRunning) (h : alike w w') (sort : Declaration)
    (name : String) :
    (∃ e, declareName host sort a w name = .error e ∧ declareName host sort a w' name = .error e) ∨
      ∃ (a' : Activation ω) (u u' : World ω σ), declareName host sort a w name = .ok (a', u) ∧
        declareName host sort a w' name = .ok (a', u') ∧ a'.IsRunning ∧ alike u u' := by
  have hmode : a.mode.performsEffects = true := by
    rw [ha.execute]
    rfl
  unfold declareName
  rw [if_pos hmode, if_pos hmode]
  cases sort with
  | var => exact .inr ⟨_, w, w', rfl, rfl, ha.declare, h⟩
  | exportVar =>
      obtain ⟨a', u, u', hu, hu', ha', halike⟩ := exportName_alike hlike ha h name
      exact .inr ⟨a', u, u', congrArg _ hu, congrArg _ hu', ha', halike⟩
  | pop =>
      unfold popName
      dsimp only
      cases a.params with
      | none => exact .inr ⟨_, w, w', rfl, rfl, ha.declare_params name none, h⟩
      | some params =>
          cases params with
          | nil => exact .inl ⟨_, rfl, rfl⟩
          | cons x params =>
              obtain ⟨a', u, u', hu, hu', ha', halike⟩ :=
                assign_alike hlike (ha.declare_params name (some params)) h name x
              exact .inr ⟨a', u, u', congrArg _ hu, congrArg _ hu', ha', halike⟩

end

theorem declare_alike (hf : f.IsRunning) (h : m.Alike alike m') (sort : Declaration)
    (names : List (List Char × List Char)) :
    SameRunStep alike (declare host sort f m names) (declare host sort f m' names) := by
  induction names generalizing f m m' with
  | nil => exact finishStatement_alike hf h
  | cons read more ih =>
      obtain ⟨word, rest⟩ := read
      unfold declare
      dsimp only
      split
      · exact stop_alike _ h _
      · rcases declareName_alike hlike hf h.world sort (String.ofList word) with
          ⟨e, he, he'⟩ | ⟨a', u, u', hu, hu', ha', halike⟩
        · rw [he, he']
          exact stop_alike _ h _
        · rw [hu, hu']
          exact @ih { toActivation := a', rest, jumps := f.jumps } { m with world := u }
            { m' with world := u' } ha' ⟨halike, h.lastReturn, h.functions⟩

variable {callee : Frame ω → Machine ω σ → Outcome ω σ} (hc : ChecksAlike callee callee)
  (hquiet : Harmless callee) (hruns : RunsAlike alike callee)

include hruns

omit hlike in
theorem resume_enter_alike (hf : f.IsRunning) (h : m.Alike alike m') {g : Frame ω}
    (hg : g.IsRunning) :
    SameRunStep alike (f.resume (enter callee g m)) (f.resume (enter callee g m')) := by
  have houtcome : (enter callee g m).Alike alike (enter callee g m') := by
    unfold enter
    split
    · exact ⟨rfl, rfl, h⟩
    · exact hruns _ m m' hg h
  obtain ⟨hending, -, hmachine⟩ := houtcome
  unfold Frame.resume
  rw [← hending]
  split
  · exact finishStatement_alike hf hmachine
  · exact stop_alike f hmachine _

include hc hquiet

theorem perform_alike (hf : f.IsRunning) (h : m.Alike alike m') (depth : Nat) (a : Action) :
    SameRunStep alike (perform host callee depth f m a) (perform host callee depth f m' a) := by
  cases a with
  | pass => exact finishStatement_alike hf h
  | jump j => exact finishStatement_alike (f := { f with jumps := j :: f.jumps }) hf h
  | assign name x =>
      obtain ⟨a', u, u', hu, hu', ha', halike⟩ := assign_alike hlike hf h.world name x
      simp only [perform, hu, hu']
      exact finishStatement_alike (f := { f with toActivation := a' }) ha'
        ⟨halike, h.lastReturn, h.functions⟩
  | call name args =>
      simp only [perform, Bindings.call]
      cases hnative : Dict.find? host.bindings name with
      | none => exact stop_alike f h _
      | some native =>
          obtain ⟨hvalue, halike⟩ := hlike.call h.world hnative args
          exact finishStatement_alike hf ⟨halike, congrArg some hvalue, h.functions⟩
  | invoke name body args =>
      rw [perform_invoke_eq, perform_invoke_eq]
      split
      · exact stop_alike f h _
      · exact resume_enter_alike (g := { rest := body.toList, params := some args }) hruns hf
          (h.withReturn none) (Activation.isRunning_fresh _)
  | declare sort names => exact declare_alike hlike hf h sort names
  | define name body =>
      -- both checks leave their worlds as they were, so it is enough that they end alike
      have hworld := checkBody_sameWorld hquiet f m body
      have hworld' := checkBody_sameWorld hquiet f m' body
      have hbody : (checkBody callee f m body).1 = (checkBody callee f m' body).1 :=
        checkBody_alike hc (hlike.chain hf h) h.lastReturn h.functions body
      simp only [perform]
      generalize checkBody callee f m body = r at hworld hbody ⊢
      generalize checkBody callee f m' body = r' at hworld' hbody ⊢
      obtain ⟨ending, n⟩ := r
      obtain ⟨ending', n'⟩ := r'
      obtain rfl : ending = ending' := hbody
      have hn : n.Alike alike n' := h.of_sameWorld hworld hworld'
      cases ending with
      | finished =>
          refine finishStatement_alike hf ?_
          split
          · exact ⟨hn.world, hn.lastReturn, congrArg (Dict.put · name body) hn.functions⟩
          · exact hn
      | failed _ | outOfSteps => exact stop_alike f hn _
  | finish result =>
      cases result with
      | none => exact stop_alike f h _
      | some x => exact stop_alike f (h.withReturn (some x)) _

theorem step_alike (hf : f.IsRunning) (h : m.Alike alike m') (depth : Nat) :
    SameRunStep alike (step host callee depth f m) (step host callee depth f m') := by
  have hstopping : (f.mode.observesTermination && m.world.stopping) =
      (f.mode.observesTermination && m'.world.stopping) := by
    rw [hlike.stopping h.world]
  have hreq : SameRequest m m' f.outer f.outer (request host f m) (request host f m') :=
    sameRequest hstopping
      (agrees_of_sameSight host (hlike.chain hf h) h.lastReturn h.functions)
  rw [step_eq, step_eq]
  generalize hx : request host f m = x at hreq ⊢
  generalize request host f m' = x' at hreq ⊢
  cases hreq with
  | error ending left r r' => exact .stop ⟨rfl, rfl, h.world, h.lastReturn, h.functions⟩
  | ok a f₁ r r' =>
      have hf₁ : (f₁.seeing f.outer).IsRunning := by
        rw [(statement_of_request hx).1]
        exact hf
      exact perform_alike hlike hc hquiet hruns hf₁
        (h.of_sameWorld ⟨r, rfl⟩ ⟨r', rfl⟩) depth a

end

/-- Under a likeness, runs in worlds that are alike go the same way. -/
theorem run_alike {host : Host ω σ} {alike : World ω σ → World ω σ → Prop}
    (hlike : Likeness host alike) (steps depth : Nat) : RunsAlike alike (run host steps depth) := by
  induction steps generalizing depth with
  | zero =>
      intro f m m' _ h
      exact ⟨rfl, rfl, h⟩
  | succ steps ih =>
      intro f m m' hf h
      have hstep := step_alike hlike (run_checksAlike host steps (depth + 1) (depth + 1))
        (run_validate host steps (depth + 1)) (ih (depth + 1)) hf h depth
      rw [run, run]
      generalize step host _ depth f m = s at hstep ⊢
      generalize step host _ depth f m' = s' at hstep ⊢
      cases hstep with
      | next hf' h' => exact ih depth _ _ _ hf' h'
      | stop houtcome => exact houtcome

/-! ## Scripts

A script begins with machines that are alike once both have forgotten the request to stop. -/

namespace Interpreter

/-- Under a likeness, a script goes the same way for two interpreters of one host. -/
theorem evaluate_alike {i j : Interpreter ω σ} {alike : World ω σ → World ω σ → Prop}
    (hlike : Likeness i.host alike) (hhost : j.host = i.host)
    (hworld : alike { i.machine.world with stopping := false }
      { j.machine.world with stopping := false })
    (hfunctions : i.machine.functions = j.machine.functions) (steps : Nat) (script : String)
    (params : Option (List Float)) :
    let after := i.evaluate steps script params
    let after' := j.evaluate steps script params
    after'.1 = after.1 ∧ after'.2.lastError = after.2.lastError ∧
      after'.2.lastPosition = after.2.lastPosition ∧
      after.2.machine.Alike alike after'.2.machine := by
  have houtcome : Outcome.Alike alike
      (enter (run i.host steps 0) { rest := script.toList, params }
        { i.machine with
          world := { i.machine.world with stopping := false }
          lastReturn := none })
      (enter (run i.host steps 0) { rest := script.toList, params }
        { j.machine with
          world := { j.machine.world with stopping := false }
          lastReturn := none }) := by
    unfold enter
    split
    · exact ⟨rfl, rfl, hworld, rfl, hfunctions⟩
    · exact run_alike hlike steps 0 _ _ _ (Activation.isRunning_fresh params)
        ⟨hworld, rfl, hfunctions⟩
  unfold evaluate
  rw [hhost]
  exact ⟨houtcome.ending.symm, congrArg Ending.error? houtcome.ending.symm,
    congrArg (Text.byteSize script.toList - ·) houtcome.left.symm, houtcome.machine⟩

end Interpreter

end Script

end NumScript
