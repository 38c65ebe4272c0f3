import NumScript.Proofs.Script.Origins
import NumScript.Proofs.Script.Twins
import NumScript.Script.Interpreter

set_option autoImplicit false

/-! # Running a rewritten text

A script and a rewritten one (`Rewriting`) do the same, each in its own text. The two runs are at
places that correspond, the same jumps wait in both, and everything but the texts of subroutines is
equal: variables, cells, what the host keeps and the last result. What the next statements ask for
is then the same (`request_twins`), so each step preserves all this (`step_twins`), and so does a
whole run (`run_twins`).

Subroutines that are defined on the way have related texts (`Tables`). How they are related depends
on the origin of the text: what is cut out of the script was rewritten with it, what is cut out of an
earlier subroutine was not. So there is one relation for each origin, and the origins are written
down along the run.

A function that changes nothing but gaps (`Rewriter`) gives such relations, and a script does the
same as what the function makes of it (`Rewriter.evaluate`).

## How to use it

For a function on texts show that it is a `Rewriter`. What is asked for is about single texts: that
a run does the same in both, that statements are rewritten one by one, and that the class of texts
is closed under taking later statements and parts. `Rewriter.evaluate` then compares the runs, with
the table of subroutines given by `Origins.rewrite`.
-/

namespace NumScript.Script

variable {ω σ : Type} {R : Origin → List Char → List Char → Prop} {F₀ : Functions} {w : Origins}

/-! ## What two runs share

The invariant of the simulation has three parts. The frames are at places that correspond. The
worlds are equal. The tables of subroutines list the same names, with texts that are related as
their origin says; the origins are those that the first run writes down.

The relation is not asked for of two texts as they stand but of two texts of one origin. A piece
that stands in the script as well as in an earlier subroutine is minified when it comes from the
one, and stays as it is when it comes from the other. -/

inductive Ending.SameCode : Ending → Ending → Prop
  | finished : Ending.SameCode .finished .finished
  | failed {e e' : Error} : e.code = e'.code → Ending.SameCode (.failed e) (.failed e')
  | outOfSteps : Ending.SameCode .outOfSteps .outOfSteps

theorem Ending.SameCode.refl (ending : Ending) : Ending.SameCode ending ending := by
  cases ending with
  | finished => exact .finished
  | failed e => exact .failed rfl
  | outOfSteps => exact .outOfSteps

/-- `Tables R F₀ w F F'`: both tables of subroutines come from `F₀` by defining the same names, one
after the other. `w` has the origins of the texts, and `R` relates two texts of one origin. -/
inductive Tables (R : Origin → List Char → List Char → Prop) (F₀ : Functions) :
    Origins → Functions → Functions → Prop
  | refl : Tables R F₀ (fun _ => .earlier) F₀ F₀
  | put {w : Origins} {F F' : Functions} (name : String) {o : Origin} {body body' : String} :
      Tables R F₀ w F F' → R o body.toList body'.toList →
      Tables R F₀ (w.put name o) (F.put name body) (F'.put name body')

/-- Subroutines that were there before have texts that may stay. -/
def Keeps (R : Origin → List Char → List Char → Prop) (F₀ : Functions) : Prop :=
  ∀ name body, F₀.find? name = some body → R .earlier body.toList body.toList

theorem Tables.find? {F F' : Functions} (h : Tables R F₀ w F F') (hinit : Keeps R F₀)
    (name : String) :
    Option.Rel (fun b b' : String => R (w name) b.toList b'.toList) (F.find? name)
      (F'.find? name) := by
  induction h with
  | refl =>
      cases hbody : F₀.find? name with
      | none => exact .none
      | some body => exact .some (hinit name body hbody)
  | put key _ hbody ih =>
      rw [Dict.find?_put, Dict.find?_put, Origins.put]
      split
      · exact .some hbody
      · exact ih

/-- The table with each text rewritten in the way that goes with its origin. -/
def Origins.rewrite (g : Origin → String → String) (w : Origins) (F : Functions) : Functions :=
  ⟨F.entries.map fun entry => (entry.1, g (w entry.1) entry.2)⟩

theorem Origins.rewrite_put (g : Origin → String → String) (w : Origins) (F : Functions)
    (name : String) (o : Origin) (body : String) :
    (w.put name o).rewrite g (F.put name body) = (w.rewrite g F).put name (g o body) := by
  have hnames : (w.rewrite g F).names = F.names := by
    simp [Origins.rewrite, Dict.names]
  have hcontains : (w.rewrite g F).contains name = F.contains name := by
    rw [Bool.eq_iff_iff, Dict.contains_iff_mem_names, Dict.contains_iff_mem_names, hnames]
  have hput {entry : String × String} (hne : entry.1 ≠ name) :
      (entry.1, g (w.put name o entry.1) entry.2) = (entry.1, g (w entry.1) entry.2) := by
    rw [Origins.put, if_neg hne]
  unfold Dict.put Dict.add? Dict.replace
  rw [hcontains]
  by_cases hname : F.contains name = true
  · rw [if_pos hname, if_pos hname]
    simp only [Origins.rewrite, Option.getD_none, List.map_map, Dict.mk.injEq]
    refine List.map_congr_left fun entry _ => ?_
    by_cases heq : entry.1 = name
    · simp [heq, Origins.put]
    · simp [heq, hput heq]
  · -- the name is new, so the texts that were there keep their origins
    rw [if_neg hname, if_neg hname]
    simp only [Origins.rewrite, Option.getD_some, List.map_append, List.map_cons, List.map_nil,
      Dict.mk.injEq]
    refine congrArg₂ _ (List.map_congr_left fun entry hmem => hput ?_) (by simp [Origins.put])
    rintro rfl
    exact hname (Dict.contains_iff_mem_names.2 (List.mem_map_of_mem hmem))

/-- One table is a function of the other, and of the origins. -/
theorem Tables.eq_rewrite {g : Origin → String → String} {F F' : Functions}
    (h : Tables R F₀ w F F') (hinit : ∀ entry ∈ F₀.entries, g .earlier entry.2 = entry.2)
    (hR : ∀ {o : Origin} {body body' : String}, R o body.toList body'.toList → body' = g o body) :
    F' = w.rewrite g F := by
  induction h with
  | refl =>
      have hid : F₀.entries.map (fun entry => (entry.1, g .earlier entry.2)) = F₀.entries.map id :=
        List.map_congr_left fun entry hmem => by rw [hinit entry hmem, id]
      rw [List.map_id] at hid
      exact congrArg Dict.mk hid.symm
  | put name _ hbody ih => rw [ih, hR hbody, Origins.rewrite_put]

/-- The same machine, but for the texts of subroutines and the outcome of the last expression. -/
structure Machine.Twin (R : Origin → List Char → List Char → Prop) (F₀ : Functions) (w : Origins)
    (m m' : Machine ω σ) : Prop where
  world : m.world = m'.world
  lastReturn : m.lastReturn = m'.lastReturn
  functions : Tables R F₀ w m.functions m'.functions

structure Frame.Twin (T T' : List Char) (f f' : Frame ω) : Prop where
  activation : f.toActivation = f'.toActivation
  jumps : List.Forall₂ (JumpTwins T T') f.jumps f'.jumps
  site : Site T T' f.rest f'.rest

/-- Frames that have come to statements which do the same. If jumps wait, the statements are twins,
so that the same jumps are due. -/
structure Frame.AtStatement (T T' : List Char) (f f' : Frame ω) : Prop where
  due : f.jumps = [] ∨ (f.rest, f'.rest) ∈ twins T T'
  read : ReadAlike f.rest f'.rest

structure Outcome.Twin (R : Origin → List Char → List Char → Prop) (F₀ : Functions) (w : Origins)
    (o o' : Outcome ω σ) : Prop where
  ending : o.ending.SameCode o'.ending
  machine : o.machine.Twin R F₀ w o'.machine

inductive StepTwins (R : Origin → List Char → List Char → Prop) (F₀ : Functions) (w : Origins)
    (T T' : List Char) : Step ω σ → Step ω σ → Prop
  | next {f f' : Frame ω} {m m' : Machine ω σ} : f.Twin T T' f' →
      (f.rest, f'.rest) ∈ twins T T' → m.Twin R F₀ w m' →
      StepTwins R F₀ w T T' (.next f m) (.next f' m')
  | stop {o o' : Outcome ω σ} : o.Twin R F₀ w o' → StepTwins R F₀ w T T' (.stop o) (.stop o')

/-- Two ways of running frames that do the same for frames of texts that `R` relates. `track` says
what the first one writes down. -/
def RunTwins (R : Origin → List Char → List Char → Prop) (F₀ : Functions)
    (track : Origin → Origins → Frame ω → Machine ω σ → Origins)
    (callee callee' : Frame ω → Machine ω σ → Outcome ω σ) : Prop :=
  ∀ {o : Origin} {w : Origins} {T T' : List Char} {f f' : Frame ω} {m m' : Machine ω σ},
    R o T T' → f.Twin T T' f' → f.AtStatement T T' f' → m.Twin R F₀ w m' →
    (callee f m).Twin R F₀ (track o w f m) (callee' f' m')

section

variable {T T' : List Char} {f f' : Frame ω} {m m' : Machine ω σ}

theorem Frame.Twin.goTo (h : f.Twin T T' f') {s s' : List Char} (hs : Site T T' s s') :
    Frame.Twin T T' { f with rest := s } { f' with rest := s' } :=
  { h with site := hs }

theorem Frame.AtStatement.of_mem (hT : TextTwins T T') (h : (f.rest, f'.rest) ∈ twins T T') :
    f.AtStatement T T' f' :=
  ⟨.inr h, hT.later h⟩

/-- The outcome of the last expression plays no part. -/
theorem Machine.Twin.retain (h : m.Twin R F₀ w m') (retained retained' : Expr.Retained) :
    Machine.Twin R F₀ w { m with retained } { m' with retained := retained' } :=
  { h with }

theorem Machine.Twin.sameWorld {m₁ m₁' : Machine ω σ} (h : m.Twin R F₀ w m')
    (hm : m.SameWorld m₁) (hm' : m'.SameWorld m₁') : m₁.Twin R F₀ w m₁' := by
  obtain ⟨retained, rfl⟩ := hm
  obtain ⟨retained', rfl⟩ := hm'
  exact h.retain retained retained'

theorem Frame.Twin.view (h : f.Twin T T' f') (hm : m.Twin R F₀ w m') (hinit : Keeps R F₀)
    (host : Host ω σ) :
    (f.view host m).Twin (fun name => R (w name)) (f'.view host m') where
  chain := by
    show f.toActivation.chain m.world = f'.toActivation.chain m'.world
    rw [h.activation, hm.world]
  cells := congrArg World.cells hm.world
  lastReturn := hm.lastReturn
  isNative := rfl
  body := hm.functions.find? hinit

theorem stop_twins (hm : m.Twin R F₀ w m') {ending ending' : Ending}
    (he : ending.SameCode ending') :
    StepTwins R F₀ w T T' (f.stop m ending) (f'.stop m' ending') :=
  .stop ⟨he, hm⟩

theorem finishStatement_twins (h : f.Twin T T' f') (hrest : Ahead T T' f.rest f'.rest)
    (hT : TextTwins T T') (hm : m.Twin R F₀ w m') :
    StepTwins R F₀ w T T' (f.finishStatement m) (f'.finishStatement m') := by
  unfold Frame.finishStatement
  have hnext := hrest.afterTerminator
  generalize afterTerminator? f.rest = next at hnext ⊢
  generalize afterTerminator? f'.rest = next' at hnext ⊢
  cases hnext with
  | none => exact stop_twins hm (.refl _)
  | some hmem => exact .next (h.goTo (.of_mem hT.alike hmem)) hmem hm

/-- Both frames take a jump, to places that correspond, or neither does. -/
theorem takeJump_twins (h : f.Twin T T' f') (hat : f.AtStatement T T' f')
    (hT : Alike false none T T') :
    f.takeJump.1.Twin T T' f'.takeJump.1 ∧ PointTwins T T' f.takeJump.2 f'.takeJump.2 := by
  have hstay (hf : ∀ j ∈ f.jumps.head?, j.trigger ≠ some f.rest)
      (hf' : ∀ j ∈ f'.jumps.head?, j.trigger ≠ some f'.rest) :
      f.takeJump.1.Twin T T' f'.takeJump.1 ∧ PointTwins T T' f.takeJump.2 f'.takeJump.2 := by
    rw [Frame.takeJump_of_not_due hf, Frame.takeJump_of_not_due hf']
    exact ⟨h, .before h.site hat.read⟩
  have hjumps := h.jumps
  rcases hf : f.jumps with _ | ⟨j, below⟩ <;> rcases hf' : f'.jumps with _ | ⟨j', below'⟩ <;>
    rw [hf, hf'] at hjumps
  · exact hstay (by simp [hf]) (by simp [hf'])
  · cases hjumps
  · cases hjumps
  · obtain ⟨hj, hbelow⟩ := List.forall₂_cons.1 hjumps
    have hrest : (f.rest, f'.rest) ∈ twins T T' := hat.due.resolve_left (by simp [hf])
    have htrigger := hj.trigger
    rcases ht : j.trigger with _ | u <;> rcases ht' : j'.trigger with _ | u' <;>
      rw [ht, ht'] at htrigger
    · exact hstay (by simp [hf, ht]) (by simp [hf', ht'])
    · cases htrigger
    · cases htrigger
    · have hu : (u, u') ∈ twins T T' := by
        cases htrigger
        assumption
      -- twins are at the next statement in both texts or in neither, so the jump is due alike
      have hiff := hT.twins_inj hu hrest
      by_cases heq : u = f.rest
      · rw [Frame.takeJump_of_due hf (by rw [ht, heq]),
          Frame.takeJump_of_due hf' (by rw [ht', hiff.1 heq])]
        exact ⟨{ h with jumps := hbelow }, hj.target⟩
      · exact hstay (by simpa [hf, ht] using heq) (by simpa [hf', ht'] using mt hiff.2 heq)

end

/-! ## Requests

Up to the request both runs only read. They find the same names and the same values, so they ask for
the same, up to the places in their texts and to the body of a definition. -/

/-- Two requests for the same, or the same ending before one. `Q` relates the texts. -/
inductive RequestTwins (R : Origin → List Char → List Char → Prop) (F₀ : Functions) (w : Origins)
    (Q : List Char → List Char → Prop) (T T' : List Char) :
    Except (Outcome ω σ) (Action × Frame ω × Machine ω σ) →
      Except (Outcome ω σ) (Action × Frame ω × Machine ω σ) → Prop
  | ok {a a' : Action} {f f' : Frame ω} {m m' : Machine ω σ} :
      ActionTwins (fun name => R (w name)) Q T T' a a' → f.Twin T T' f' →
      Ahead T T' f.rest f'.rest → m.Twin R F₀ w m' →
      RequestTwins R F₀ w Q T T' (.ok (a, f, m)) (.ok (a', f', m'))
  | error {o o' : Outcome ω σ} : o.Twin R F₀ w o' →
      RequestTwins R F₀ w Q T T' (.error o) (.error o')

/-- From statements that are read alike the same is asked for. -/
theorem request_twins {Q : List Char → List Char → Prop} (hQ : Rewriting Q) {T T' : List Char}
    (hT : Q T T') {f f' : Frame ω} (h : f.Twin T T' f') (hat : f.AtStatement T T' f')
    {m m' : Machine ω σ} (hm : m.Twin R F₀ w m') (hinit : Keeps R F₀) (host : Host ω σ) :
    RequestTwins R F₀ w Q T T' (request host f m) (request host f' m') := by
  have hstopping : (f.mode.observesTermination && m.world.stopping) =
      (f'.mode.observesTermination && m'.world.stopping) := by
    rw [congrArg Activation.mode h.activation, hm.world]
  -- both frames take a jump or neither does
  obtain ⟨hframe, hpoint⟩ := takeJump_twins h hat (hQ.texts hT).alike
  unfold request
  rw [hstopping]
  split
  · exact .error ⟨.refl _, hm⟩
  generalize f.takeJump = jump at hframe hpoint ⊢
  generalize f'.takeJump = jump' at hframe hpoint ⊢
  obtain ⟨f, point⟩ := jump
  obtain ⟨f', point'⟩ := jump'
  dsimp only at hframe hpoint ⊢
  cases hpoint with
  | inside s s' => exact .error ⟨.refl _, hm⟩
  | @before s s' hsite hread =>
      have hstart := hsite.skipGap
      have hagain := hread.skipGap
      obtain ⟨hword, hrest⟩ := hstart.readWord
      have hmode : f.mode = f'.mode := congrArg Activation.mode hframe.activation
      dsimp only
      rw [readLeading_eq, readLeading_eq, ← hword]
      cases hleading : Leading.ofWord (readWord (skipGap s)).1 with
      | nothing =>
          simp only [hrest.eq_nil_iff]
          exact .error ⟨.refl _, hm⟩
      | unknown word => exact .error ⟨.refl _, hm⟩
      | keyword k =>
          have hparams := hagain k _ ((readLeading_eq _).trans (by rw [hleading]))
          rw [readLeading_eq] at hparams
          -- from here on both read the same statement
          have hasked := statement_twins (hframe.view hm hinit host) f.mode m.retained m'.retained
            hQ hT hstart.toSite hagain hrest k hparams
          dsimp only
          rw [← hmode]
          generalize Reader.statement (f.view host m) f.mode (skipGap s) k _ = r at hasked ⊢
          generalize Reader.statement (f'.view host m') f.mode (skipGap s') k _ = r' at hasked ⊢
          cases hasked with
          | error p p' he => exact .error ⟨.failed he, hm.retain _ _⟩
          | ok ha hahead => exact .ok ha (hframe.goTo hahead.toSite) hahead (hm.retain _ _)

/-! ## Subroutines

A frame that is entered has a text of a known origin, and the run of it writes down origins from
there. A body that is checked defines nothing. -/

section

variable {track : Origin → Origins → Frame ω → Machine ω σ → Origins}
  {callee callee' : Frame ω → Machine ω σ → Outcome ω σ} (hc : RunTwins R F₀ track callee callee')
  (hR : ∀ o, Rewriting (R o)) {m m' : Machine ω σ} (hm : m.Twin R F₀ w m') {o : Origin}

include hc hR hm

theorem enter_twins {a : Activation ω} {T T' : List Char} (hT : R o T T') :
    (enter callee { toActivation := a, rest := T } m).Twin R F₀
      (Origins.ofEntry track o w { toActivation := a, rest := T } m)
      (enter callee' { toActivation := a, rest := T' } m') := by
  have htexts := (hR o).texts hT
  have hahead := (Site.of_alike htexts.alike).skipGap
  have hread := htexts.first.skipGap
  unfold enter Origins.ofEntry
  dsimp only
  rcases hahead.cases with ⟨hnil, hnil'⟩ | ⟨c, r, r', hcons, hcons', -⟩
  · rw [hnil, hnil']
    exact ⟨.refl _, hm⟩
  · rw [hcons, hcons'] at hahead hread ⊢
    exact hc hT ⟨rfl, .nil, hahead.toSite⟩ ⟨.inl rfl, hread⟩ hm

theorem invoke_twins (host : Host ω σ) (depth : Nat) (f : Frame ω) (name : String)
    {body body' : String} (hbody : R (w name) body.toList body'.toList) (args : List Float) :
    (invoke host callee depth m name body args).1.SameCode
        (invoke host callee' depth m' name body' args).1 ∧
      (invoke host callee depth m name body args).2.Twin R F₀
        (Origins.ofAction track host callee depth o w f m (.invoke name body args))
        (invoke host callee' depth m' name body' args).2 := by
  unfold invoke Origins.ofAction
  dsimp only
  split
  · exact ⟨.refl _, hm⟩
  · have hm₁ : Machine.Twin R F₀ w { m with lastReturn := none } { m' with lastReturn := none } :=
      { hm with lastReturn := rfl }
    have ho := enter_twins hc hR hm₁ (a := { params := some args }) hbody
    exact ⟨ho.ending, ho.machine⟩

/-- A check writes nothing down, since it leaves the table as it was. -/
theorem checkBody_twins (hquiet : Harmless callee) (hquiet' : Harmless callee') {T T' : List Char}
    {f f' : Frame ω} (h : f.Twin T T' f') {body body' : String}
    (hbody : R o body.toList body'.toList) :
    (checkBody callee f m body).1.SameCode (checkBody callee' f' m' body').1 ∧
      (checkBody callee f m body).2.Twin R F₀ w (checkBody callee' f' m' body').2 := by
  have hchain : f.toActivation.chain m.world = f'.toActivation.chain m'.world := by
    rw [h.activation, hm.world]
  have ho := enter_twins hc hR hm
    (a := { mode := .validate, outer := some (f.toActivation.chain m.world) }) hbody
  refine ⟨?_, hm.sameWorld (checkBody_sameWorld hquiet f m body)
    (checkBody_sameWorld hquiet' f' m' body')⟩
  unfold checkBody
  dsimp only
  rw [← hchain]
  exact ho.ending

end

/-! ## Steps

One lemma for each action, put together over the cases of a request. The actions that change the
world change it in the same way, as they are given the same names and numbers. -/

section

variable {T T' : List Char} {f f' : Frame ω} {m m' : Machine ω σ}

theorem declare_twins (host : Host ω σ) (sort : Declaration) (h : f.Twin T T' f')
    (hrest : Ahead T T' f.rest f'.rest) (hT : TextTwins T T') (hm : m.Twin R F₀ w m')
    {reads reads' : List (List Char × List Char)} (hreads : ReadsTwins T T' Eq reads reads') :
    StepTwins R F₀ w T T' (declare host sort f m reads) (declare host sort f' m' reads') := by
  induction hreads generalizing f f' m m' with
  | nil => exact finishStatement_twins h hrest hT hm
  | @cons read read' reads reads' hread _ ih =>
      obtain ⟨word, rest⟩ := read
      obtain ⟨word', rest'⟩ := read'
      obtain ⟨hword, hahead⟩ := hread
      dsimp only at hword hahead
      subst hword
      unfold declare
      dsimp only
      rw [h.activation, hm.world]
      split
      · exact stop_twins hm (.refl _)
      · cases declareName host sort f'.toActivation m'.world (String.ofList word) with
        | error e => exact stop_twins hm (.refl _)
        | ok r => exact ih ⟨rfl, h.jumps, hahead.toSite⟩ hahead { hm with world := rfl }

variable {track : Origin → Origins → Frame ω → Machine ω σ → Origins}
  {callee callee' : Frame ω → Machine ω σ → Outcome ω σ} (hc : RunTwins R F₀ track callee callee')
  (hquiet : Harmless callee) (hquiet' : Harmless callee') (hR : ∀ o, Rewriting (R o)) {o : Origin}
  (hT : R o T T') (h : f.Twin T T' f') (hm : m.Twin R F₀ w m')

include hc hquiet hquiet' hR hT h hm

theorem perform_twins (host : Host ω σ) (depth : Nat) (hrest : Ahead T T' f.rest f'.rest)
    {a a' : Action} (ha : ActionTwins (fun name => R (w name)) (R o) T T' a a') :
    StepTwins R F₀ (Origins.ofAction track host callee depth o w f m a) T T'
      (perform host callee depth f m a) (perform host callee' depth f' m' a') := by
  have hT' := (hR o).texts hT
  cases ha with
  | pass => exact finishStatement_twins h hrest hT' hm
  | assign name x =>
      simp only [perform]
      rw [h.activation, hm.world]
      exact finishStatement_twins ⟨rfl, h.jumps, h.site⟩ hrest hT' { hm with world := rfl }
  | call name args =>
      simp only [perform]
      rw [hm.world]
      cases Bindings.call host.bindings name args m'.world with
      | error e => exact stop_twins hm (.refl _)
      | ok r => exact finishStatement_twins h hrest hT' { hm with world := rfl, lastReturn := rfl }
  -- the subroutine was entered with the text of its origin, so both runs of it end alike
  | @invoke name body body' args hbody =>
      have ho := invoke_twins hc hR hm (o := o) host depth f name hbody args
      simp only [perform]
      generalize Origins.ofAction track host callee depth o w f m (.invoke name body args) = w₁
        at ho ⊢
      generalize invoke host callee depth m name _ args = r at ho ⊢
      generalize invoke host callee' depth m' name _ args = r' at ho ⊢
      obtain ⟨ending, m₁⟩ := r
      obtain ⟨ending', m₁'⟩ := r'
      obtain ⟨hending, hm₁⟩ := ho
      cases hending with
      | finished => exact finishStatement_twins h hrest hT' hm₁
      | failed he => exact stop_twins hm₁ (.failed he)
      | outOfSteps => exact stop_twins hm₁ .outOfSteps
  | declare sort hreads => exact declare_twins host sort h hrest hT' hm hreads
  | jump hj => exact finishStatement_twins ⟨h.activation, .cons hj h.jumps, h.site⟩ hrest hT' hm
  -- the body joins the tables with the origin of the text it is cut out of
  | @define name body body' hbody =>
      have ho := checkBody_twins hc hR hm hquiet hquiet' h hbody
      have hmode : f.mode = f'.mode := congrArg Activation.mode h.activation
      simp only [perform, Origins.ofAction]
      rw [hmode]
      generalize checkBody callee f m body = r at ho ⊢
      generalize checkBody callee' f' m' body' = r' at ho ⊢
      obtain ⟨ending, m₁⟩ := r
      obtain ⟨ending', m₁'⟩ := r'
      obtain ⟨hending, hm₁⟩ := ho
      cases hending with
      | finished =>
          refine finishStatement_twins h hrest hT' ?_
          dsimp only
          split
          · exact ⟨hm₁.world, hm₁.lastReturn, .put name hm₁.functions hbody⟩
          · exact hm₁
      | failed he => exact stop_twins hm₁ (.failed he)
      | outOfSteps => exact stop_twins hm₁ .outOfSteps
  | finish result =>
      cases result with
      | none => exact stop_twins hm .finished
      | some x =>
          have hm₁ : Machine.Twin R F₀ w { m with lastReturn := some x }
              { m' with lastReturn := some x } := { hm with lastReturn := rfl }
          exact stop_twins hm₁ .finished

theorem step_twins (hat : f.AtStatement T T' f') (hinit : Keeps R F₀) (host : Host ω σ)
    (depth : Nat) :
    StepTwins R F₀ (Origins.ofStep track host callee depth o w f m) T T'
      (step host callee depth f m) (step host callee' depth f' m') := by
  have hreq := request_twins (hR o) hT h hat hm hinit host
  rw [step_eq, step_eq, Origins.ofStep]
  generalize request host f m = r at hreq ⊢
  generalize request host f' m' = r' at hreq ⊢
  cases hreq with
  | error ho => exact .stop ho
  | ok ha h hahead hm => exact perform_twins hc hquiet hquiet' hR hT h hm host depth hahead ha

end

/-! ## Runs

An induction over the number of steps. The statement about frames at statements is made for all
origins and all texts that are related, as subroutines are entered on the way. -/

/-- A run of a text and a run of the rewritten text end alike, within the same number of steps. -/
theorem run_twins (hR : ∀ o, Rewriting (R o)) (hinit : Keeps R F₀) (host : Host ω σ)
    (steps depth : Nat) :
    RunTwins R F₀ (Origins.ofRun host steps depth) (run host steps depth)
      (run host steps depth) := by
  induction steps generalizing depth with
  | zero =>
      intro o w T T' f f' m m' _ _ _ hm
      exact ⟨.outOfSteps, hm⟩
  | succ steps ih =>
      intro o w T T' f f' m m' hT h hat hm
      have hquiet := run_validate host steps (depth + 1)
      have hstep := step_twins (ih (depth + 1)) hquiet hquiet hR hT h hm hat hinit host depth
      rw [run, run, Origins.ofRun]
      generalize Origins.ofStep _ host _ depth o w f m = w₁ at hstep ⊢
      generalize step host (run host steps (depth + 1)) depth f m = s at hstep ⊢
      generalize step host (run host steps (depth + 1)) depth f' m' = s' at hstep ⊢
      cases hstep with
      -- both runs go on behind the same terminator, where the same jumps are due
      | next h hmem hm => exact ih depth hT h (.of_mem ((hR o).texts hT) hmem) hm
      | stop ho => exact ho

/-- A script and a rewritten one end alike, and leave the same world and the same result. -/
theorem Interpreter.evaluate_twins (hR : ∀ o, Rewriting (R o)) (i : Interpreter ω σ)
    (hinit : Keeps R i.machine.functions) (steps : Nat) {script script' : String}
    (hscript : R .script script.toList script'.toList) (params : Option (List Float)) :
    (i.evaluate steps script params).1.SameCode (i.evaluate steps script' params).1 ∧
      (i.evaluate steps script params).2.machine.Twin R i.machine.functions
        (i.origins steps script params) (i.evaluate steps script' params).2.machine := by
  let m : Machine ω σ :=
    { i.machine with world := { i.machine.world with stopping := false }, lastReturn := none }
  have hm : m.Twin R i.machine.functions (fun _ => .earlier) m := ⟨rfl, rfl, .refl⟩
  have ho := enter_twins (run_twins hR hinit i.host steps 0) hR hm (a := { params }) hscript
  exact ⟨ho.ending, ho.machine⟩

/-! ## Rewriting by a function

A function on texts is a rewriter if a run does the same in what it makes of a text, and if it works
on each statement by itself: cutting a text behind a terminator and rewriting the parts comes to the
same as rewriting the whole. From this it follows that the body of a definition in the rewritten
text is the rewritten body. -/

/-- A function on texts that changes nothing but gaps and works on each statement by itself. `P`
says which texts it is meant for. -/
structure Rewriter (P : List Char → Prop) (f : List Char → List Char) : Prop where
  texts : ∀ {t}, P t → TextTwins t (f t)
  laterStatements : ∀ {t}, P t → laterStatements (f t) = (laterStatements t).map f
  append : ∀ {x t}, P (x ++ t) → IsClosed x → f (x ++ t) = f x ++ f t
  skipGap : ∀ {t}, P t → skipGap (f t) = f (skipGap t)
  map_nil : f [] = []
  nil : P []
  of_mem : ∀ {t u}, P t → u ∈ Script.laterStatements t → P u
  of_append : ∀ {x t}, P (x ++ t) → IsClosed x → P x
  of_skipGap : ∀ {t}, P t → P (Script.skipGap t)

/-- `Rewrites P f script F₀ o t t'`: a text that comes from the script is a piece of it, and `t'` is
what `f` makes of it. Any other is a piece of a subroutine that was there before, and `t'` is the
same. -/
def Rewrites (P : List Char → Prop) (f : List Char → List Char) (script : List Char)
    (F₀ : Functions) : Origin → List Char → List Char → Prop
  | .script, t, t' => P t ∧ t <:+: script ∧ t' = f t
  | .earlier, t, t' => t' = t ∧ ∃ name body, F₀.find? name = some body ∧ t <:+: body.toList

def rewriteText (f : List Char → List Char) : Origin → String → String
  | .script, text => String.ofList (f text.toList)
  | .earlier, text => text

/-- The text of a subroutine between its header and a statement after it. -/
theorem bodyBetween_of_isClosed {x : List Char} (h : IsClosed x) (z : List Char) :
    bodyBetween (';' :: (x ++ z)) z = skipGap x := by
  rw [bodyBetween_terminator, skipGap_append z h.skipGap_ne_nil, List.length_append,
    Nat.add_sub_cancel, List.take_left]

theorem mem_zip_map {α β : Type} {l : List α} {f : α → β} {a : α} {b : β}
    (h : (a, b) ∈ l.zip (l.map f)) : b = f a ∧ a ∈ l := by
  have hzip : (l.map id).zip (l.map f) = l.map fun a => (id a, f a) := List.zip_map'
  rw [List.map_id] at hzip
  rw [hzip, List.mem_map] at h
  obtain ⟨c, hc, heq⟩ := h
  cases heq
  exact ⟨rfl, hc⟩

theorem mem_twins_self {t u u' : List Char} (h : (u, u') ∈ twins t t) :
    u' = u ∧ u ∈ laterStatements t := by
  rw [twins] at h
  nth_rewrite 2 [← List.map_id (laterStatements t)] at h
  exact mem_zip_map h

theorem bodyBetween_isInfix_of_mem {t w z : List Char} (hw : w ∈ laterStatements t) :
    bodyBetween (';' :: w) z <:+: t :=
  (bodyBetween_isInfix w z).trans (isInfix_of_mem_laterStatements hw)

section

variable {P : List Char → Prop} {f : List Char → List Char}

theorem Rewrites.eq_rewriteText {script : List Char} {o : Origin} {body body' : String}
    (h : Rewrites P f script F₀ o body.toList body'.toList) : body' = rewriteText f o body := by
  cases o with
  | script =>
      obtain ⟨-, -, heq⟩ := h
      rw [rewriteText, ← heq, String.ofList_toList]
  | earlier => exact String.toList_inj.1 h.1

variable (h : Rewriter P f)

include h

theorem Rewriter.mem_twins {t u u' : List Char} (ht : P t) (hu : (u, u') ∈ twins t (f t)) :
    u' = f u ∧ u ∈ Script.laterStatements t := by
  rw [twins, h.laterStatements ht] at hu
  exact mem_zip_map hu

/-- A subroutine of a rewritten text has a rewritten text. -/
theorem Rewriter.bodyBetween {w z : List Char} (hw : P w)
    (hz : z = w ∨ z ∈ Script.laterStatements w) :
    bodyBetween (';' :: f w) (f z) = f (bodyBetween (';' :: w) z) ∧
      P (bodyBetween (';' :: w) z) := by
  rcases hz with rfl | hz
  · rw [bodyBetween_of_empty, bodyBetween_of_empty, h.map_nil]
    exact ⟨rfl, h.nil⟩
  · obtain ⟨x, rfl, hx⟩ := exists_isClosed_append hz
    have hP := h.of_append hw hx
    have hfx : IsClosed (f x) := by
      rw [IsClosed, h.laterStatements hP]
      exact List.mem_map.2 ⟨[], hx, h.map_nil⟩
    rw [h.append hw hx, bodyBetween_of_isClosed hx, bodyBetween_of_isClosed hfx, h.skipGap hP]
    exact ⟨rfl, h.of_skipGap hP⟩

theorem Rewriter.rewriting_script (script : List Char) (F₀ : Functions) :
    Rewriting (Rewrites P f script F₀ .script) where
  texts := by
    rintro T _ ⟨hT, -, rfl⟩
    exact h.texts hT
  body {T T' w w' z z'} hT hw hz := by
    obtain ⟨hT, hpiece, rfl⟩ := hT
    obtain ⟨rfl, hmem⟩ := h.mem_twins hT hw
    have hw := h.of_mem hT hmem
    obtain ⟨rfl, hzmem⟩ : z' = f z ∧ (z = w ∨ z ∈ Script.laterStatements w) := by
      rcases List.mem_cons.1 hz with heq | hz
      · cases heq
        exact ⟨rfl, .inl rfl⟩
      · exact (h.mem_twins hw hz).imp_right .inr
    obtain ⟨heq, hP⟩ := h.bodyBetween hw hzmem
    exact ⟨hP, (bodyBetween_isInfix_of_mem hmem).trans hpiece, heq⟩

omit h in
theorem rewriting_earlier (script : List Char) (F₀ : Functions) :
    Rewriting (Rewrites P f script F₀ .earlier) where
  texts := by
    rintro T _ ⟨rfl, -⟩
    exact (Alike.refl true none _).textTwins
  body {T T' w w' z z'} hT hw hz := by
    obtain ⟨rfl, name, body, hbody, hpiece⟩ := hT
    obtain ⟨rfl, hmem⟩ := mem_twins_self hw
    obtain rfl : z' = z := by
      rcases List.mem_cons.1 hz with heq | hz
      · cases heq
        rfl
      · exact (mem_twins_self hz).1
    exact ⟨rfl, name, body, hbody, (bodyBetween_isInfix_of_mem hmem).trans hpiece⟩

theorem Rewriter.rewriting (script : List Char) (F₀ : Functions) (o : Origin) :
    Rewriting (Rewrites P f script F₀ o) := by
  cases o with
  | script => exact h.rewriting_script script F₀
  | earlier => exact rewriting_earlier script F₀

/-- A script and what a rewriter makes of it do the same. -/
theorem Rewriter.evaluate (i : Interpreter ω σ) (steps : Nat) {script : String}
    (hscript : P script.toList) (params : Option (List Float)) :
    (i.evaluate steps script params).1.SameCode
        (i.evaluate steps (String.ofList (f script.toList)) params).1 ∧
      (i.evaluate steps script params).2.machine.Twin
        (Rewrites P f script.toList i.machine.functions) i.machine.functions
        (i.origins steps script params)
        (i.evaluate steps (String.ofList (f script.toList)) params).2.machine := by
  refine Interpreter.evaluate_twins (h.rewriting _ _) i (fun name body hbody => ?_) steps ?_ params
  · exact ⟨rfl, name, body, hbody, List.infix_refl _⟩
  · rw [String.toList_ofList]
    exact ⟨hscript, List.infix_refl _, rfl⟩

end

end NumScript.Script
