import NumScript.Proofs.Script.Matching
import NumScript.Proofs.Script.Performs
import NumScript.Script.Interpreter

set_option autoImplicit false

/-! # Structured execution

A run of a text is a run of its program. Step by step, the text ahead is that of what is left of the
program, up to the line that ends the block, and the jumps that wait are those of the enclosing
blocks: a block that was entered with a jump is left by the line before the place where the jump
waits, and the jump leads to the program that follows the block (`Pending`). A jump never waits
inside its block, because less text is ahead where it waits (`Pending.length_trigger_lt`).

`step_follows` is the simulation of one step, `run_follows` that of a run.

Neither side of the simulation is asked to end. Both are given the same number of steps, and what is
shown is that they have the same outcome, also when this is that the steps were used up.
-/

namespace NumScript.Script

variable {ω σ : Type}

/-! ## What follows the enclosing blocks

The invariant of the simulation. A program keeps one rest for each block it is in, while a text
keeps jumps for some blocks only: for a loop, and for a conditional in its first branch if it has a
second. A block without a jump is left by going on in the text. `Pending` pairs the two stacks off.
-/

inductive Closes : List Char → Prop where
  | intro {k : Keyword} {gap line : List Char} : k = .fi ∨ k = .done ∨ k = .elseBranch →
      IsGap gap → Line k gap line → Closes line

/-- From the end of a block on: the text, the jumps that wait and the programs that follow this
block and those around it. -/
inductive Pending : List Char → List Jump → List Program → Prop where
  | finish {text : List Char} : skipGap text = [] → Pending text [] []
  | close {line text after : List Char} {jumps : List Jump} {p : Program} {outer : List Program} :
      Closes line → Written p text → Pending after jumps outer →
        Pending (line ++ (text ++ after)) jumps (p :: outer)
  | jump {line trigger start text after : List Char} {jumps : List Jump} {p : Program}
      {outer : List Program} : Closes line → skipGap start = skipGap (text ++ after) →
      Written p text → Pending after jumps outer →
        Pending (line ++ trigger) (⟨some trigger, .before start⟩ :: jumps) (p :: outer)

/-- The next statement of a frame is the first one of a program, or the end of its block. -/
inductive Frame.IsAt (f : Frame ω) : Program → List Program → Prop where
  | intro {jumps : List Jump} {start text after : List Char} {p : Program} {outer : List Program} :
      f.takeJump = ({ f with jumps }, .before start) → skipGap start = skipGap (text ++ after) →
      Written p text → Pending after jumps outer → IsAt f p outer

/-- A step of a text leads to where the step of a program leads. -/
def Step.Follows : Step ω σ → Turn ω σ → Prop
  | .next f m, .next p outer a s => f.toActivation = a ∧ f.IsAt p outer ∧ m.Matches s
  | .stop o, .stop ending s => o.Matches (ending, s)
  | _, _ => False

theorem Closes.ne_nil {line : List Char} (h : Closes line) : line ≠ [] := by
  cases h with
  | intro _ _ hline => exact hline.ne_nil

/-- Where the latest jump waits, the block has ended. -/
theorem Pending.length_trigger_lt {text trigger : List Char} {jumps : List Jump}
    {outer : List Program} (h : Pending text jumps outer) {j : Jump} (hj : j ∈ jumps.head?)
    (htrigger : j.trigger = some trigger) : trigger.length < text.length := by
  induction h with
  | finish => simp at hj
  | close _ _ _ ih =>
      have hlt := ih hj
      rw [List.length_append, List.length_append]
      omega
  | jump hline _ _ _ _ =>
      obtain rfl := Option.some.inj hj
      obtain rfl := Option.some.inj htrigger
      have hpos := List.length_pos_of_ne_nil hline.ne_nil
      rw [List.length_append]
      omega

/-- Inside of a block no jump is taken. -/
theorem Pending.isAt {after text : List Char} {jumps : List Jump} {p : Program}
    {outer : List Program} (h : Pending after jumps outer) (hp : Written p text)
    (a : Activation ω) :
    Frame.IsAt { toActivation := a, rest := text ++ after, jumps } p outer := by
  refine .intro (Frame.takeJump_of_not_due fun j hj hdue => ?_) rfl hp h
  have hlt := h.length_trigger_lt hj hdue
  rw [List.length_append] at hlt
  omega

/-! ## One step

The cases are those of the program. In each the line ahead is known from how the program is written,
the readers read what the line was written for, and the place that they leave is the one where the
next part of the program is written. -/

theorem Move.follows {r : Step ω σ} {move : Move ω σ} {after text : List Char} {jumps : List Jump}
    {p : Program} {outer : List Program} (hr : r.Performs (text ++ after) jumps move)
    (hp : Written p text) (hpending : Pending after jumps outer) :
    r.Follows (move.turn p outer) := by
  cases r with
  | next f m =>
      cases move with
      | next a s =>
          obtain ⟨rfl, hm⟩ := hr
          exact ⟨rfl, hpending.isAt hp a, hm⟩
      | stop ending s => exact hr.elim
  | stop o =>
      cases move with
      | next a s => exact hr.elim
      | stop ending s => exact hr

def Way.LeadsTo (way : Way) (a : Activation ω) (jumps : List Jump)
    (next : Program × List Program) : Prop :=
  Frame.IsAt { toActivation := a, rest := way.ahead, jumps := way.jump?.toList ++ jumps }
    next.1 next.2

theorem perform_way {host : Host ω σ} {callee : Frame ω → Machine ω σ → Outcome ω σ} {depth : Nat}
    (f : Frame ω) (m : Machine ω σ) (way : Way) :
    perform host callee depth { f with rest := ';' :: way.ahead } m way.action =
      .next { f with rest := way.ahead, jumps := way.jump?.toList ++ f.jumps } m := by
  obtain ⟨_ | j, ahead⟩ := way <;> rfl

theorem Program.bind_of_ne_empty {runner : Runner ω σ} {a : Activation ω} {s : Setting ω σ}
    {name : String} {body : Program} (h : body ≠ .empty) :
    bind runner a s name body =
      match runner body { mode := .validate, outer := some (a.chain s.world) } s with
      | (.finished, s) =>
        .next a
          (if a.mode.performsEffects then { s with programs := s.programs.put name body } else s)
      | (ending, s) => .stop ending s := by
  cases body with
  | empty => exact absurd rfl h
  | _ => rfl

section

variable {host : Host ω σ} {callee : Frame ω → Machine ω σ → Outcome ω σ} {depth : Nat}
  {runner : Runner ω σ} {f : Frame ω} {s : Setting ω σ} {functions : Functions}
  (hfunctions : functions.Hold s.programs)

include hfunctions

/-- The end of a block leads to the program that follows it. -/
theorem dispatch_closes {line text : List Char} (hline : Closes line)
    (hrest : skipGap f.rest = skipGap (line ++ text)) :
    (dispatch host callee depth f (s.machine functions)).Performs text f.jumps
      (.next f.toActivation s) := by
  cases hline with
  | @intro k gap _ hk hgap hline =>
      have hl := hline.readLeading_skipGap hrest
      rw [hgap.skipGap_terminator] at hl
      have hread : Reader.statement (f.view host (s.machine functions)) f.mode (skipGap f.rest) k
          ⟨';' :: text, s.retained⟩ = .ok .pass ⟨';' :: text, s.retained⟩ := by
        rcases hk with rfl | rfl | rfl <;> rfl
      exact performs_of_pass hl hfunctions hread rfl

/-- A guard leads a text to where it leads a program. -/
theorem branch_follows {k : Keyword} {guard inner rest : List Char} {yes no both : Way}
    {yes' no' both' : Program × List Program}
    (hl : readLeading (skipGap f.rest) = (.keyword k, rest))
    (hread : Reader.statement (f.view host (s.machine functions)) f.mode (skipGap f.rest) k
      ⟨rest, s.retained⟩ =
        readGuard (f.view host (s.machine functions)) f.mode guard inner yes no both)
    (hyes : yes.LeadsTo f.toActivation f.jumps yes')
    (hno : no.LeadsTo f.toActivation f.jumps no')
    (hboth : both.LeadsTo f.toActivation f.jumps both') :
    (dispatch host callee depth f (s.machine functions)).Follows
      (Program.branch host f.toActivation s guard yes' no' both') := by
  unfold readGuard at hread
  unfold Program.branch
  have hvalue : (f.view host (s.machine functions)).value f.mode guard =
      (s.view host f.toActivation).value f.mode guard := rfl
  rw [hvalue] at hread
  cases hx : (s.view host f.toActivation).value f.mode guard with
  | error e =>
      rw [hx] at hread
      rw [dispatch_of_error hl hread]
      exact ⟨rfl, functions, hfunctions, rfl⟩
  | ok x =>
      rw [hx] at hread
      -- the guard has the same value in the text and in the program, so both choose the same way
      have hway : (Program.choose f.mode x yes no both).LeadsTo f.toActivation f.jumps
          (Program.choose f.mode x yes' no' both') := by
        unfold Program.choose
        split
        · exact hboth
        · split
          · exact hyes
          · exact hno
      rw [dispatch_of_ok hl hread, perform_way]
      exact ⟨rfl, hway, functions, hfunctions, rfl⟩

/-- The header of a definition binds the program of its body. -/
theorem definition_performs (hagrees : Agrees callee runner) {name : String}
    {before behind line bodyText gap close text : List Char} {body : Program}
    (hbefore : IsGap before) (hname : IsIdentifier name) (hbehind : IsGap behind)
    (hline : Line .define (before ++ (name.toList ++ behind)) line) (hbody : Written body bodyText)
    (hgap : IsGap gap) (hclose : Line .endDefine gap close)
    (hrest : skipGap f.rest = skipGap (line ++ (bodyText ++ (close ++ text)))) :
    (dispatch host callee depth f (s.machine functions)).Performs text f.jumps
      (Program.bind runner f.toActivation s name body) := by
  have hl := hline.readLeading_skipGap hrest
  have hread : Reader.statement (f.view host (s.machine functions)) f.mode (skipGap f.rest) .define
      ⟨skipGap (before ++ (name.toList ++ behind) ++ ';' :: (bodyText ++ (close ++ text))),
        s.retained⟩ = _ :=
    definition_of_text s.retained hbefore hname hbehind
      (@scanBlock_of_passed .definition _ _ _ hbody.passed hgap hclose text)
  by_cases hempty : body = .empty
  · -- nothing stands between the header and the end
    subst hempty
    cases hbody
    rw [List.nil_append, bodyBetween_of_empty] at hread
    exact performs_of_error hl hfunctions hread
  obtain ⟨bodyText', hbody', hne, hbetween⟩ := hbody.bodyBetween hempty (close ++ text)
  have hscript : IsScript body (String.ofList bodyText').toList := by
    rw [String.toList_ofList]
    exact ⟨bodyText', [], (List.append_nil _).symm, hbody', .gap .nil⟩
  rw [hbetween] at hread
  dsimp only at hread
  rw [if_neg (by simpa using hne)] at hread
  rw [Program.bind_of_ne_empty hempty, dispatch_of_action hl hread rfl]
  -- the body is checked against the names that are visible here
  obtain ⟨hending, hmachine⟩ := hagrees
    ({ mode := .validate, outer := some (f.chain s.world) } : Activation ω) hscript
    (show (s.machine functions).Matches s from ⟨functions, hfunctions, rfl⟩)
  rcases hr : runner body { mode := .validate, outer := some (f.chain s.world) } s with
    ⟨ending, s'⟩
  rw [hr] at hending hmachine
  obtain ⟨functions', hfunctions', hmachine⟩ := hmachine
  simp only [perform, checkBody]
  have hchain : Activation.chain f.toActivation (s.machine functions).world = f.chain s.world := rfl
  rw [hchain, hending, hmachine]
  cases ending with
  | failed e => exact ⟨rfl, functions', hfunctions', rfl⟩
  | outOfSteps => exact ⟨rfl, functions', hfunctions', rfl⟩
  | finished =>
      dsimp only
      by_cases hm : f.mode.performsEffects = true
      · rw [if_pos hm, if_pos hm]
        exact ⟨rfl, _, hfunctions'.put name hscript, rfl⟩
      · rw [if_neg hm, if_neg hm]
        exact ⟨rfl, functions', hfunctions', rfl⟩

/-- The end of a program leads to the end of the text or out of a block. -/
theorem dispatch_follows_empty {after : List Char} {outer : List Program}
    (hrest : skipGap f.rest = skipGap after) (hpending : Pending after f.jumps outer) :
    (dispatch host callee depth f (s.machine functions)).Follows
      (Program.advance host runner depth f.toActivation s .empty outer) := by
  generalize hjumps : f.jumps = jumps at hpending
  cases hpending with
  | finish hnil =>
      have hl : readLeading (skipGap f.rest) = (.nothing, []) := by
        rw [hrest, hnil]
        rfl
      rw [dispatch_of_nothing hl, if_pos rfl]
      exact ⟨rfl, functions, hfunctions, rfl⟩
  | close hline hp hpending =>
      have hperforms :=
        @dispatch_closes _ _ host callee depth f s functions hfunctions _ _ hline hrest
      rw [hjumps] at hperforms
      exact Move.follows hperforms hp hpending
  | @jump line trigger start text after below p outer hline hstart hp hpending =>
      have hperforms :=
        @dispatch_closes _ _ host callee depth f s functions hfunctions _ _ hline hrest
      rw [hjumps] at hperforms
      cases hr : dispatch host callee depth f (s.machine functions) with
      | next f' m =>
          rw [hr] at hperforms
          obtain ⟨rfl, hm⟩ := hperforms
          -- the jump is due, and nothing else waits where it leads
          let waiting : Jump := ⟨some trigger, .before start⟩
          have htake := @Frame.takeJump_of_due _ ⟨f.toActivation, trigger, waiting :: below⟩ waiting
            below rfl rfl
          exact ⟨rfl, .intro htake hstart hp hpending, hm⟩
      | stop o =>
          rw [hr] at hperforms
          exact hperforms.elim

/-- What is ahead leads a text to where it leads a program. -/
theorem dispatch_follows (hagrees : Agrees callee runner) {p : Program} {outer : List Program}
    {text after : List Char} (hrest : skipGap f.rest = skipGap (text ++ after))
    (hp : Written p text) (hpending : Pending after f.jumps outer) :
    (dispatch host callee depth f (s.machine functions)).Follows
      (Program.advance host runner depth f.toActivation s p outer) := by
  cases hp with
  | empty => exact dispatch_follows_empty hfunctions hrest hpending
  | @simple statement next operands line text hoperands hline hnext =>
      rw [List.append_assoc] at hrest
      exact Move.follows (dispatch_performs hfunctions hagrees hoperands hline hrest) hnext hpending
  | @ifThen guard operands line gap close yesText text yes next hguard hline hyes hgap hclose
      hnext =>
      have hassoc : line ++ (yesText ++ (close ++ text)) ++ after =
          line ++ (yesText ++ (close ++ (text ++ after))) := by simp
      rw [hassoc] at hrest
      have hread := conditional_of_text (f.view host (s.machine functions)) f.mode s.retained none
        hguard
        (@scanBlock_of_passed .conditional _ _ _ hyes.passed hgap hclose (text ++ after))
      have hinner := Pending.close (.intro (.inl rfl) hgap hclose) hnext hpending
      refine branch_follows hfunctions (hline.readLeading_skipGap hrest) hread ?_ ?_ ?_
      · exact hinner.isAt hyes f.toActivation
      · exact hpending.isAt hnext f.toActivation
      · exact hinner.isAt hyes f.toActivation
  | @ifElse guard operands line gap middle gap' close yesText noText text yes no next hguard hline
      hyes hgap hmiddle hno hgap' hclose hnext =>
      have hassoc : line ++ (yesText ++ (middle ++ (noText ++ (close ++ text)))) ++ after =
          line ++ (yesText ++ (middle ++ (noText ++ (close ++ (text ++ after))))) := by simp
      rw [hassoc] at hrest
      have hread := conditional_of_text (f.view host (s.machine functions)) f.mode s.retained
        (some (noText ++ (close ++ (text ++ after)))) hguard
        (scanBlock_of_branches hyes.passed hgap hmiddle hno.passed hgap' hclose (text ++ after))
      -- after the first branch a jump leads past the second, unless both are taken
      have hcloses : Closes middle := .intro (.inr (.inr rfl)) hgap hmiddle
      have hsecond := Pending.close (.intro (.inl rfl) hgap' hclose) hnext hpending
      refine branch_follows hfunctions (hline.readLeading_skipGap hrest) hread ?_ ?_ ?_
      · exact (Pending.jump hcloses rfl hnext hpending).isAt hyes f.toActivation
      · exact hsecond.isAt hno f.toActivation
      · exact (Pending.close hcloses hno hsecond).isAt hyes f.toActivation
  | @loop guard operands line gap close bodyText text body next hguard hline hbody hgap hclose
      hnext =>
      have hloop : Written (.loop guard body next) (line ++ (bodyText ++ (close ++ text))) :=
        .loop hguard hline hbody hgap hclose hnext
      have hassoc : line ++ (bodyText ++ (close ++ text)) ++ after =
          line ++ (bodyText ++ (close ++ (text ++ after))) := by simp
      -- the jump leads back to the header, which comes before the text of the loop
      have hstart : skipGap (skipGap f.rest) =
          skipGap (line ++ (bodyText ++ (close ++ text)) ++ after) := by
        rw [skipGap_skipGap, hrest]
      rw [hassoc] at hrest
      have hread := loop_of_text (f.view host (s.machine functions)) f.mode s.retained
        (skipGap f.rest) hguard
        (@scanBlock_of_passed .loop _ _ _ hbody.passed hgap hclose (text ++ after))
      have hcloses : Closes close := .intro (.inr (.inl rfl)) hgap hclose
      refine branch_follows hfunctions (hline.readLeading_skipGap hrest) hread ?_ ?_ ?_
      · exact (Pending.jump hcloses hstart hloop hpending).isAt hbody f.toActivation
      · exact hpending.isAt hnext f.toActivation
      · exact (Pending.close hcloses hnext hpending).isAt hbody f.toActivation
  | @define name before behind line gap close bodyText text body next hbefore hname hbehind hline
      hbody hgap hclose hnext =>
      have hassoc : line ++ (bodyText ++ (close ++ text)) ++ after =
          line ++ (bodyText ++ (close ++ (text ++ after))) := by simp
      rw [hassoc] at hrest
      exact Move.follows (definition_performs hfunctions hagrees hbefore hname hbehind hline hbody
        hgap hclose hrest) hnext hpending

end

section

variable {host : Host ω σ} {callee : Frame ω → Machine ω σ → Outcome ω σ} {depth : Nat}
  {runner : Runner ω σ} {f : Frame ω} {s : Setting ω σ} {m : Machine ω σ} {p : Program}
  {outer : List Program}

/-- A step of a text leads to where the step of its program leads. -/
theorem step_follows (hagrees : Agrees callee runner) (hat : f.IsAt p outer) (hm : m.Matches s) :
    (step host callee depth f m).Follows
      (Program.step host runner depth p outer f.toActivation s) := by
  obtain ⟨functions, hfunctions, rfl⟩ := hm
  cases hat with
  | @intro jumps start text after _ _ htake hstart hp hpending =>
      unfold Program.step
      by_cases hstop : (f.mode.observesTermination && s.world.stopping) = true
      · rw [if_pos hstop, step_of_stopping hstop]
        exact ⟨rfl, functions, hfunctions, rfl⟩
      · rw [if_neg hstop, step_of_before hstop (congrArg Prod.snd htake), htake]
        exact @dispatch_follows _ _ host callee depth runner { f with jumps, rest := start } s
          functions hfunctions hagrees _ _ _ _ hstart hp hpending

end

/-! ## Runs

A run calls subroutines and checks bodies, for which the simulation is needed with fewer steps. So
the induction is over the number of steps, with all programs, depths and settings left open. -/

/-- A text starts with its program. -/
theorem IsScript.isAt {p : Program} {text : List Char} (h : IsScript p text) (a : Activation ω) :
    Frame.IsAt { toActivation := a, rest := skipGap text } p [] := by
  obtain ⟨lines, trail, rfl, hlines, htrail⟩ := h
  refine .intro (Frame.takeJump_of_not_due fun j hj => ?_) (skipGap_skipGap _) hlines
    (.finish htrail.skipGap)
  simp at hj

theorem IsScript.skipGap_eq_nil_iff {p : Program} {text : List Char} (h : IsScript p text) :
    skipGap text = [] ↔ p = .empty := by
  obtain ⟨lines, trail, rfl, hlines, htrail⟩ := h
  constructor
  · intro hnil
    by_contra hp
    obtain ⟨text', _, hne, hskip⟩ := hlines.exists_skipGap hp
    rw [hskip] at hnil
    exact hne (List.append_eq_nil_iff.1 hnil).1
  · rintro rfl
    cases hlines
    exact htrail.skipGap

/-- Texts run like their programs if frames do. -/
theorem agrees_of_follows {run : Frame ω → Machine ω σ → Outcome ω σ}
    {run' : Program → List Program → Activation ω → Setting ω σ → Ending × Setting ω σ}
    (h : ∀ ⦃f : Frame ω⦄ ⦃p : Program⦄ ⦃outer : List Program⦄ ⦃m : Machine ω σ⦄ ⦃s : Setting ω σ⦄,
      f.IsAt p outer → m.Matches s → (run f m).Matches (run' p outer f.toActivation s)) :
    Agrees run (Program.start run') := by
  intro p text a s m hscript hm
  unfold enter
  split
  · rename_i hnil
    obtain rfl := hscript.skipGap_eq_nil_iff.1 hnil
    exact ⟨rfl, hm⟩
  · rename_i hne
    have hp : p ≠ .empty := fun hp => hne (hscript.skipGap_eq_nil_iff.2 hp)
    have hstart : Program.start run' p a s = run' p [] a s := by
      cases p with
      | empty => exact absurd rfl hp
      | _ => rfl
    rw [hstart]
    exact h (hscript.isAt a) hm

/-- A run of a text goes like the run of its program. -/
theorem run_follows (host : Host ω σ) (steps depth : Nat) {f : Frame ω} {p : Program}
    {outer : List Program} {m : Machine ω σ} {s : Setting ω σ} (hat : f.IsAt p outer)
    (hm : m.Matches s) :
    (run host steps depth f m).Matches
      (Program.run host steps depth p outer f.toActivation s) := by
  induction steps generalizing depth f p outer m s with
  | zero => exact ⟨rfl, hm⟩
  | succ steps ih =>
      -- subroutines have one step less, so they agree already
      have hagrees := agrees_of_follows fun _ _ _ _ _ hat hm => ih (depth + 1) hat hm
      have hstep := @step_follows _ _ host _ depth _ f s m p outer hagrees hat hm
      unfold run Program.run
      cases hr : step host (run host steps (depth + 1)) depth f m with
      | next f' m' =>
          rw [hr] at hstep
          cases ht : Program.step host (Program.start (Program.run host steps (depth + 1))) depth p
              outer f.toActivation s with
          | next p' outer' a s' =>
              rw [ht] at hstep
              obtain ⟨rfl, hat', hm'⟩ := hstep
              exact ih depth hat' hm'
          | stop ending s' =>
              rw [ht] at hstep
              exact hstep.elim
      | stop o =>
          rw [hr] at hstep
          cases ht : Program.step host (Program.start (Program.run host steps (depth + 1))) depth p
              outer f.toActivation s with
          | next p' outer' a s' =>
              rw [ht] at hstep
              exact hstep.elim
          | stop ending s' =>
              rw [ht] at hstep
              exact hstep

def Interpreter.setting (i : Interpreter ω σ) (programs : Dict Program) : Setting ω σ where
  world := { i.machine.world with stopping := false }
  programs := programs
  retained := i.machine.retained

/-- Evaluating the text of a program is running the program. Both end in the same way within any
number of steps, with the same error if there is one, and leave the same world and the same result;
the subroutines after it are again texts of programs. -/
theorem Interpreter.evaluate_eq_run (i : Interpreter ω σ) {programs : Dict Program}
    (hfunctions : i.machine.functions.Hold programs) {p : Program} {script : String}
    (hscript : IsScript p script.toList) (steps : Nat) (params : Option (List Float)) :
    let r := Program.start (Program.run i.host steps 0) p { params } (i.setting programs)
    let e := i.evaluate steps script params
    e.1 = r.1 ∧ e.2.lastError = r.1.error? ∧ e.2.machine.world = r.2.world ∧
      e.2.machine.lastReturn = r.2.lastReturn ∧ e.2.machine.retained = r.2.retained ∧
      e.2.machine.functions.Hold r.2.programs := by
  let m : Machine ω σ :=
    { i.machine with world := { i.machine.world with stopping := false }, lastReturn := none }
  have hm : m.Matches (i.setting programs) := ⟨i.machine.functions, hfunctions, rfl⟩
  have hagrees : Agrees (run i.host steps 0) (Program.start (Program.run i.host steps 0)) :=
    agrees_of_follows fun _ _ _ _ _ hat hm => run_follows i.host steps 0 hat hm
  obtain ⟨hending, functions, hhold, hmachine⟩ := hagrees { params } hscript hm
  intro r e
  have hends : e.1 = r.1 := hending
  have hleaves : e.2.machine = r.2.machine functions := hmachine
  refine ⟨hends, ?_, ?_⟩
  · show e.1.error? = r.1.error?
    rw [hends]
  · rw [hleaves]
    exact ⟨rfl, rfl, rfl, hhold⟩

theorem Interpreter.evaluate_eq_run_loop :
    let i : Interpreter Unit Unit :=
      .ofWorld { notify := fun _ _ w => w } { state := () } ⟨[("f", "exit;")]⟩
    let programs : Dict Program := ⟨[("f", .simple .exit .empty)]⟩
    let p : Program := .simple (.declare .var "x" []) (.loop "x - 1".toList
      (.ifElse "x".toList (.simple (.goto "f" []) .empty)
        (.simple (.set "x" "1".toList) .empty) .empty) .empty)
    let script := "var x; while x - 1;if x;goto f;else;set x 1;fi;done; # end"
    i.machine.functions.Hold programs ∧ IsScript p script.toList ∧
      (i.evaluate 20 script none).1 =
        (Program.start (Program.run i.host 20 0) p {} (i.setting programs)).1 := by
  intro i programs p script
  have hspace : IsGap " ".toList := .blank rfl .nil
  have hf : IsIdentifier "f" := ⟨'f', [], rfl, rfl, fun _ h => absurd h List.not_mem_nil⟩
  have hx : IsIdentifier "x" := ⟨'x', [], rfl, rfl, fun _ h => absurd h List.not_mem_nil⟩
  have hexpr {e : List Char} (h : IsExpression e) : ExpressionText e (" ".toList ++ (e ++ [])) :=
    .intro hspace h .nil
  have hexit : Written (.simple .exit .empty) _ :=
    .simple (.exit .nil) (.intro .nil (by decide)) .empty
  have hgoto : Written (.simple (.goto "f" []) .empty) _ :=
    .simple (.goto (.plain hspace hf .nil)) (.intro .nil (by decide)) .empty
  have hset : Written (.simple (.set "x" "1".toList) .empty) _ :=
    .simple (.set hspace hx (hexpr (by decide)) (by decide)) (.intro .nil (by decide)) .empty
  have hif : Written _ _ :=
    .ifElse (hexpr (e := "x".toList) (by decide)) (.intro .nil (by decide)) hgoto .nil
      (.intro .nil (by decide)) hset .nil (.intro .nil (by decide)) .empty
  have hloop : Written _ _ :=
    .loop (hexpr (e := "x - 1".toList) (by decide)) (.intro hspace (by decide)) hif .nil
      (.intro .nil (by decide)) .empty
  have hlines : Written p _ :=
    .simple (.declare (.one hspace hx .nil)) (.intro .nil (by decide)) hloop
  have hfunctions : i.machine.functions.Hold programs :=
    .cons ⟨rfl, _, [], rfl, hexit, .gap .nil⟩ .nil
  have hscript : IsScript p
      "var x; while x - 1;if x;goto f;else;set x 1;fi;done; # end".toList :=
    ⟨_, " # end".toList, rfl, hlines, .comment hspace (by decide)⟩
  exact ⟨hfunctions, hscript, (Interpreter.evaluate_eq_run i hfunctions hscript 20 none).1⟩

end NumScript.Script
