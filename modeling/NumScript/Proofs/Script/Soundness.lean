import NumScript.Command.Job
import NumScript.Proofs.Script.Visited

set_option autoImplicit false

/-! # Validation is sound

Wherever a run of a sound text goes, it is at the start of one of the statements of the text: where
a statement ends the next one starts, a branch that is skipped ends at a statement, and the jumps
that wait lead to statements (`Frame.Fits`). This does not depend on how the blocks are nested, on
where the jumps wait or on the values of guards. All statements of a sound text are good, so none of
them fails for its outline; and the subroutines that the text defines have sound bodies, so neither
do they.

The other half, that a text which passes a check is sound, is an induction over the check and stands
in `Visited`. The two halves meet in the notion of a sound text alone, so a check that looks at more
would change one half only.
-/

namespace NumScript.Script

variable {ω σ : Type}

/-! ## Places in a text

A place of a run is the start of a statement, possibly with the gap before it already passed. What a
reader leaves is such a place again once the terminator is passed. -/

/-- Up to a gap, the text `s` is what is ahead of a statement of the text. -/
def AtStart (text s : List Char) : Prop :=
  ∃ t ∈ text :: laterStatements text, skipGap s = skipGap t

theorem AtStart.good {text s : List Char} (hs : AtStart text s) (h : Sound text) : Good s := by
  obtain ⟨t, ht, heq⟩ := hs
  exact (h.good ht).of_skipGap heq.symm

theorem AtStart.skipGap {text s : List Char} (hs : AtStart text s) :
    AtStart text (skipGap s) := by
  obtain ⟨t, ht, heq⟩ := hs
  exact ⟨t, ht, by rw [skipGap_skipGap, heq]⟩

theorem AtStart.later {text s next : List Char} (hs : AtStart text s)
    (hnext : next ∈ laterStatements s) : AtStart text next := by
  obtain ⟨t, ht, heq⟩ := hs
  rw [← laterStatements_skipGap, heq, laterStatements_skipGap] at hnext
  refine ⟨next, .tail _ ?_, rfl⟩
  rcases List.mem_cons.1 ht with rfl | ht
  · exact hnext
  · exact mem_laterStatements_trans ht hnext

theorem AtStart.of_operandsEnd {text s rest next : List Char} {k : Keyword} (hs : AtStart text s)
    (hl : readLeading s = (.keyword k, rest)) (hend : operandsEnd? rest k = some (';' :: next)) :
    AtStart text next := by
  refine hs.later ?_
  rw [laterStatements_of_operandsEnd hl hend]
  exact .head _

/-- In a sound text the operands of a statement end with a terminator. -/
theorem AtStart.exists_next {text s rest e : List Char} {k : Keyword} (hs : AtStart text s)
    (h : Sound text) (hl : readLeading s = (.keyword k, rest))
    (hend : operandsEnd? rest k = some e) : ∃ next, e = ';' :: next ∧ AtStart text next := by
  cases (hs.good h).1 with
  | last hnil =>
      rw [← readLeading_skipGap, hnil] at hl
      cases hl
  | @statement k' rest' next hl' hend' _ _ =>
      rw [hl] at hl'
      cases hl'
      rw [hend] at hend'
      cases hend'
      exact ⟨next, rfl, hs.of_operandsEnd hl hend⟩

/-- The landmarks of a block stand before the terminators of statements. -/
theorem AtStart.landmarks {text header : List Char} {b : Block} {marks : Landmarks}
    (hlater : ∀ s ∈ laterStatements header, AtStart text s) (h : Sound text)
    (hscan : scanBlock b header = .ok marks) :
    (∃ next, marks.close = ';' :: next ∧ AtStart text next) ∧
      ∀ ahead, marks.alternate = some ahead → ∃ next, ahead = ';' :: next ∧ AtStart text next := by
  obtain ⟨hmem, hclose, halt⟩ := scanBlock_landmarks hscan
  refine ⟨(hlater _ hmem).exists_next h hclose ?_, fun ahead ha => ?_⟩
  · cases b <;> rfl
  · obtain ⟨s, hs, hl⟩ := halt ahead ha
    exact (hlater s hs).exists_next h hl rfl

/-! ## What a run keeps

The invariant is about places and about texts of subroutines. It says nothing of values, of scopes
or of the world, so whatever the host does to these does not concern it. -/

/-- The frame is at the start of a statement, and all its jumps lead to statements. -/
def Frame.Fits (text : List Char) (f : Frame ω) : Prop :=
  AtStart text f.rest ∧ ∀ j ∈ f.jumps, ∃ s, j.target = .before s ∧ AtStart text s

def Functions.AreSound (functions : Functions) : Prop :=
  ∀ name body, functions.find? name = some body → Sound body.toList

/-- The run did not fail for the structure of a text. -/
def Ending.IsRegular (ending : Ending) : Prop :=
  ∀ e, ending = .failed e → ¬ e.IsStructural

def Step.Keeps (text : List Char) : Step ω σ → Prop
  | .next f m => f.Fits text ∧ m.functions.AreSound
  | .stop o => o.ending.IsRegular ∧ o.machine.functions.AreSound

/-- A way to run frames in which runs of sound texts do not fail for the structure of a text. -/
def KeepsSound (callee : Frame ω → Machine ω σ → Outcome ω σ) : Prop :=
  ∀ (text : List Char) (f : Frame ω) (m : Machine ω σ), Sound text → f.Fits text →
    m.functions.AreSound →
    (callee f m).ending.IsRegular ∧ (callee f m).machine.functions.AreSound

theorem Functions.AreSound.put {functions : Functions} (h : functions.AreSound) {name body : String}
    (hbody : Sound body.toList) : Functions.AreSound (functions.put name body) := by
  intro key text hfind
  rw [Dict.find?_put] at hfind
  split at hfind
  · cases hfind
    exact hbody
  · exact h key text hfind

theorem Ending.isRegular_finished : Ending.finished.IsRegular := by
  intro _ h
  cases h

theorem Ending.isRegular_outOfSteps : Ending.outOfSteps.IsRegular := by
  intro _ h
  cases h

theorem Ending.isRegular_failed {e : Error} (h : ¬ e.IsStructural) : (Ending.failed e).IsRegular := by
  rintro _ ⟨⟩
  exact h

theorem Frame.finishStatement_keeps {text next : List Char} {f : Frame ω} {m : Machine ω σ}
    (hrest : f.rest = ';' :: next) (hnext : AtStart text next)
    (hjumps : ∀ j ∈ f.jumps, ∃ s, j.target = .before s ∧ AtStart text s)
    (hm : m.functions.AreSound) : (f.finishStatement m).Keeps text := by
  unfold Frame.finishStatement
  rw [hrest]
  exact ⟨⟨hnext, hjumps⟩, hm⟩

theorem declareName_error {host : Host ω σ} {sort : Declaration} {a : Activation ω} {w : World ω σ}
    {name : String} {e : Error} (h : declareName host sort a w name = .error e) :
    e = .badOperands := by
  unfold declareName at h
  split at h
  · cases sort with
    | var | exportVar => simp at h
    | pop =>
        unfold popName at h
        dsimp only at h
        split at h
        · simp at h
        · cases h
          rfl
        · simp at h
  · simp at h

theorem declare_keeps (host : Host ω σ) (sort : Declaration) {text next : List Char} {f : Frame ω}
    {m : Machine ω σ} {names : List (List Char × List Char)}
    (hnames : ∀ read ∈ names, read.1 ≠ []) (hend : endOfList f.rest names = ';' :: next)
    (hnext : AtStart text next)
    (hjumps : ∀ j ∈ f.jumps, ∃ s, j.target = .before s ∧ AtStart text s)
    (hm : m.functions.AreSound) : (declare host sort f m names).Keeps text := by
  induction names generalizing f m with
  | nil => exact Frame.finishStatement_keeps hend hnext hjumps hm
  | cons read more ih =>
      obtain ⟨word, rest⟩ := read
      unfold declare
      dsimp only
      rw [if_neg (hnames _ (.head _))]
      split
      · rename_i a world _
        exact @ih { toActivation := a, rest, jumps := f.jumps } { m with world }
          (fun read hread => hnames read (.tail _ hread)) hend hjumps hm
      · rename_i e he
        rw [declareName_error he]
        exact ⟨Ending.isRegular_failed id, hm⟩

/-! ## A statement

A subroutine that is called has a sound text, since all texts in the table are sound, and one that
is defined has a sound text, since its definition is good. -/

/-- A run from the first statement of a sound text. -/
theorem KeepsSound.enter {callee : Frame ω → Machine ω σ → Outcome ω σ} (hc : KeepsSound callee)
    {f : Frame ω} {m : Machine ω σ} (h : Sound f.rest) (hjumps : f.jumps = [])
    (hm : m.functions.AreSound) :
    (enter callee f m).ending.IsRegular ∧ (enter callee f m).machine.functions.AreSound := by
  unfold Script.enter
  split
  · rename_i hnil
    obtain ⟨hne, _, _⟩ := h
    exact absurd hnil hne
  · refine hc f.rest { f with rest := skipGap f.rest } m h ⟨?_, ?_⟩ hm
    · exact ⟨f.rest, .head _, skipGap_skipGap f.rest⟩
    · intro j hj
      rw [hjumps] at hj
      simp at hj

section

variable {host : Host ω σ} {callee : Frame ω → Machine ω σ → Outcome ω σ} (hc : KeepsSound callee)
  {text : List Char} (htext : Sound text)

include hc

theorem invoke_keeps (depth : Nat) {m : Machine ω σ} (hm : m.functions.AreSound)
    (name : String) {body : String} (hbody : Sound body.toList) (args : List Float) :
    (invoke host callee depth m name body args).1.IsRegular ∧
      (invoke host callee depth m name body args).2.functions.AreSound := by
  unfold invoke
  split
  · exact ⟨Ending.isRegular_failed id, hm⟩
  · exact @KeepsSound.enter _ _ callee hc { rest := body.toList, params := some args }
      { m with lastReturn := none } hbody rfl hm

theorem checkBody_keeps (f : Frame ω) {m : Machine ω σ} (hm : m.functions.AreSound)
    {body : String} (hbody : Sound body.toList) :
    (checkBody callee f m body).1.IsRegular ∧
      (checkBody callee f m body).2.functions.AreSound :=
  @KeepsSound.enter _ _ callee hc
    { rest := body.toList, mode := .validate, outer := some (f.chain m.world) } m hbody rfl hm

/-- What a plain statement asks for keeps a run in its text. -/
theorem perform_effect_keeps (depth : Nat) {f : Frame ω} {m : Machine ω σ} {v : View ω} {a : Action}
    (hv : v.body? = m.functions.find?) (ha : a.IsEffect v) {next : List Char}
    (hrest : f.rest = ';' :: next) (hnext : AtStart text next)
    (hjumps : ∀ j ∈ f.jumps, ∃ s, j.target = .before s ∧ AtStart text s)
    (hm : m.functions.AreSound) : (perform host callee depth f m a).Keeps text := by
  cases ha with
  | assign name x => exact Frame.finishStatement_keeps hrest hnext hjumps hm
  | call name args =>
      simp only [perform]
      unfold Bindings.call
      split
      · exact Frame.finishStatement_keeps hrest hnext hjumps hm
      · exact ⟨Ending.isRegular_failed id, hm⟩
  | @invoke name body args hbody =>
      -- the table is sound, so the subroutine runs in a sound text of its own
      rw [hv] at hbody
      obtain ⟨hregular, hsound⟩ := invoke_keeps hc depth hm name (hm name body hbody) args
      simp only [perform]
      rcases hi : invoke host callee depth m name body args with ⟨ending, m'⟩
      rw [hi] at hregular hsound
      cases ending with
      | finished => exact Frame.finishStatement_keeps hrest hnext hjumps hsound
      | failed e => exact ⟨hregular, hsound⟩
      | outOfSteps => exact ⟨hregular, hsound⟩
  | finish result =>
      cases result with
      | none => exact ⟨Ending.isRegular_finished, hm⟩
      | some x => exact ⟨Ending.isRegular_finished, hm⟩

/-- A subroutine with a sound body keeps the run in its text and the table sound. -/
theorem perform_define_keeps (depth : Nat) {f : Frame ω} {m : Machine ω σ} (name : String)
    {body : String} (hbody : Sound body.toList) {next : List Char} (hrest : f.rest = ';' :: next)
    (hnext : AtStart text next)
    (hjumps : ∀ j ∈ f.jumps, ∃ s, j.target = .before s ∧ AtStart text s)
    (hm : m.functions.AreSound) :
    (perform host callee depth f m (.define name body)).Keeps text := by
  obtain ⟨hregular, hsound⟩ := checkBody_keeps hc f hm hbody
  simp only [perform]
  rcases hcheck : checkBody callee f m body with ⟨ending, m'⟩
  rw [hcheck] at hregular hsound
  cases ending with
  | finished =>
      refine Frame.finishStatement_keeps hrest hnext hjumps ?_
      split
      · exact hsound.put hbody
      · exact hsound
  | failed e => exact ⟨hregular, hsound⟩
  | outOfSteps => exact ⟨hregular, hsound⟩

include htext

theorem perform_keeps (depth : Nat) {f : Frame ω} {m : Machine ω σ} {v : View ω} {mode : Mode}
    {start s rest ahead : List Char} {k : Keyword} {a : Action}
    (hv : v.body? = m.functions.find?) (hs : AtStart text s) (hstart : AtStart text start)
    (hahead : f.rest = ahead)
    (hjumps : ∀ j ∈ f.jumps, ∃ s, j.target = .before s ∧ AtStart text s)
    (hm : m.functions.AreSound) (hl : readLeading s = (.keyword k, rest))
    (hask : Asks v mode start rest k a ahead) :
    (perform host callee depth f m a).Keeps text := by
  -- what the outline says about the block of a header
  have landmarks {b : Block} {next : List Char} {marks : Landmarks}
      (hend : operandsEnd? rest k = some (';' :: next))
      (hscan : scanBlock b (';' :: next) = .ok marks) :=
    @AtStart.landmarks text (';' :: next) b marks (fun t ht => hs.later (by
      rwa [laterStatements_operandsEnd hend, laterStatements_readLeading hl] at ht)) htext hscan
  cases hask with
  | @pass _ e hplain hend =>
      obtain ⟨next, rfl, hnext⟩ := hs.exists_next htext hl hend
      exact Frame.finishStatement_keeps hahead hnext hjumps hm
  | @effect _ e _ hplain hend _ ha =>
      obtain ⟨next, rfl, hnext⟩ := hs.exists_next htext hl hend
      exact perform_effect_keeps hc depth hv ha hahead hnext hjumps hm
  | @declare sort e hend =>
      obtain ⟨next, rfl, hnext⟩ := hs.exists_next htext hl hend
      have hnames : ∀ read ∈ readNames rest, read.1 ≠ [] := by
        cases (hs.good htext).1 with
        | last hnil =>
            rw [← readLeading_skipGap, hnil] at hl
            cases hl
        | statement hl' _ hnames _ =>
            rw [hl] at hl'
            cases hl'
            exact hnames sort rfl
      refine declare_keeps host sort hnames ?_ hnext hjumps hm
      rw [hahead, operandsEnd?_declaration hend]
  | @enter b e marks hb hend hscan =>
      obtain ⟨next, rfl, hnext⟩ := hs.exists_next htext hl hend
      exact Frame.finishStatement_keeps hahead hnext hjumps hm
  | @jump b e marks j hb hend hscan _ htarget =>
      obtain ⟨next, rfl, hnext⟩ := hs.exists_next htext hl hend
      refine Frame.finishStatement_keeps hahead hnext (fun j' hj' => ?_) hm
      rcases List.mem_cons.1 hj' with rfl | hj'
      · -- a jump leads back to a header or past the end of a block
        rcases htarget with htarget | htarget
        · exact ⟨start, htarget, hstart⟩
        · obtain ⟨⟨close, hclose, hafter⟩, _⟩ := landmarks hend hscan
          rw [hclose] at htarget
          exact ⟨close, htarget, hafter⟩
      · exact hjumps j' hj'
  | @skip b e _ marks hb hend hscan _ hwhere =>
      obtain ⟨next, rfl, hnext⟩ := hs.exists_next htext hl hend
      obtain ⟨⟨close, hclose, hafter⟩, halternate⟩ := landmarks hend hscan
      rcases hwhere with rfl | hwhere
      · exact Frame.finishStatement_keeps (hahead.trans hclose) hafter hjumps hm
      · obtain ⟨next', rfl, hnext'⟩ := halternate _ hwhere
        exact Frame.finishStatement_keeps hahead hnext' hjumps hm
  | @define name e marks hend hterm hscan hbody =>
      obtain ⟨next, rfl, hnext⟩ := hs.exists_next htext hl hend
      obtain ⟨⟨close, hclose, hafter⟩, _⟩ := landmarks hend hscan
      have hsound : Sound (bodyBetween (';' :: next) marks.closing) := by
        have hword := operandsEnd?_define hend
        exact (hs.good htext).2 _ ⟨rest, marks, hl, by rw [hword, hscan], by rw [hword]⟩
      rw [← String.toList_ofList (l := bodyBetween _ _)] at hsound
      exact perform_define_keeps hc depth name hsound (hahead.trans hclose) hafter hjumps hm

/-! ## A run

Steps are put together by induction. That a check which passes makes the text sound is shown apart
from this, as a statement about checks. -/

theorem dispatch_keeps (depth : Nat) {f : Frame ω} {m : Machine ω σ} (hf : f.Fits text)
    (hm : m.functions.AreSound) : (dispatch host callee depth f m).Keeps text := by
  obtain ⟨hs, hjumps⟩ := hf
  cases (hs.good htext).1 with
  | last hnil =>
      have hl : readLeading (skipGap f.rest) = (.nothing, []) := by
        rw [hnil]
        rfl
      rw [dispatch_of_nothing hl]
      exact ⟨Ending.isRegular_finished, hm⟩
  | @statement k rest next hk hend _ hblock =>
      have hk' := hk
      rw [← readLeading_skipGap] at hk'
      rcases hread : Reader.statement (f.view host m) f.mode (skipGap f.rest) k ⟨rest, m.retained⟩
        with ⟨a, p⟩ | ⟨e, p⟩
      · rw [dispatch_of_ok hk' hread]
        exact @perform_keeps _ _ host _ hc _ htext depth { f with rest := p.rest }
          { m with retained := p.retained } (f.view host m) _ _ _ _ _ _ _ rfl hs hs.skipGap rfl
          hjumps hm hk (asks_of_statement hread)
      · rw [dispatch_of_error hk' hread]
        refine ⟨Ending.isRegular_failed fun he => ?_, hm⟩
        -- the block of a well-formed statement is closed and has a body
        obtain ⟨b, header, hb, hheader, hbad⟩ := outline_of_statement_error hread he
        obtain ⟨marks, hscan, hbody⟩ := hblock b hb
        rw [hend] at hheader
        cases hheader
        obtain ⟨hdef, hempty⟩ := hbad marks hscan
        exact hbody hdef hempty

theorem step_keeps (depth : Nat) {f : Frame ω} {m : Machine ω σ} (hf : f.Fits text)
    (hm : m.functions.AreSound) : (step host callee depth f m).Keeps text := by
  by_cases hstop : (f.mode.observesTermination && m.world.stopping) = true
  · rw [step_of_stopping hstop]
    exact ⟨Ending.isRegular_failed id, hm⟩
  -- the next statement is the one ahead, or that of a jump
  obtain ⟨s, hpoint, hs⟩ : ∃ s, f.takeJump.2 = .before s ∧ AtStart text s := by
    rcases f.takeJump_cases with hpoint | ⟨j, hj, hpoint⟩
    · exact ⟨f.rest, hpoint, hf.1⟩
    · obtain ⟨s, htarget, hs⟩ := hf.2 j hj
      exact ⟨s, hpoint.trans htarget, hs⟩
  rw [step_of_before hstop hpoint]
  refine @dispatch_keeps _ _ host _ hc _ htext depth { f.takeJump.1 with rest := s } m ⟨hs, ?_⟩ hm
  exact fun j hj => hf.2 j (f.jumps_takeJump_subset hj)

end

/-- A run of a sound text, with sound subroutines, never fails for the structure of a text. -/
theorem run_keepsSound (host : Host ω σ) (steps depth : Nat) :
    KeepsSound (run host steps depth) := by
  induction steps generalizing depth with
  | zero =>
      intro text f m _ _ hm
      exact ⟨Ending.isRegular_outOfSteps, hm⟩
  | succ steps ih =>
      intro text f m htext hf hm
      rw [run]
      have hstep := @step_keeps _ _ host _ (ih (depth + 1)) text htext depth f m hf hm
      cases hs : step host (run host steps (depth + 1)) depth f m with
      | next f' m' =>
          rw [hs] at hstep
          exact ih depth text f' m' htext hstep.1 hstep.2
      | stop o =>
          rw [hs] at hstep
          exact hstep

/-- A script that was validated, against any names, never fails for its structure: whatever the
host, the variables and the parameters are, no statement lacks its terminator, its name or its
keyword, no block is unclosed or empty, neither in the script nor in a subroutine of it. -/
theorem Interpreter.evaluate_isRegular_of_validate {ω' σ' : Type} (i : Interpreter ω σ)
    (script : String) (chain : Option (Chain ω)) (h : (i.validate script chain).1 = .finished)
    (j : Interpreter ω' σ') (hj : j.machine.functions = {}) (steps : Nat)
    (params : Option (List Float)) : (j.evaluate steps script params).1.IsRegular := by
  have htext : Sound script.toList :=
    @VisitsAll.sound _ _ _ (run_visitsAll i.host (script.toList.length + 1) 0)
      { rest := script.toList, mode := .validate, outer := chain } _ rfl rfl h
  have hm : j.machine.functions.AreSound := by
    rw [hj]
    intro _ _ hfind
    cases hfind
  exact (@KeepsSound.enter _ _ _ (run_keepsSound j.host steps 0) { rest := script.toList, params }
    { j.machine with world := { j.machine.world with stopping := false }, lastReturn := none }
    htext rfl hm).1

theorem Interpreter.evaluate_isRegular_of_validate_branches :
    let i := Command.interpreter
    let script := "define f; return 1; end; if 0; goto f; else; var x, y; fi;"
    (i.validate script none).1 = .finished ∧ i.machine.functions = {} ∧
      (i.evaluate 10 script none).1.IsRegular := by
  have h : (Command.interpreter.validate
      "define f; return 1; end; if 0; goto f; else; var x, y; fi;" none).1 = .finished := by
    decide +kernel
  exact ⟨h, rfl, Interpreter.evaluate_isRegular_of_validate _ _ none h _ rfl 10 none⟩

end NumScript.Script
