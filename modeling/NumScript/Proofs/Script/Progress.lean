import NumScript.Proofs.Script.Anatomy
import NumScript.Proofs.Script.Shape
import NumScript.Script.Steps

set_option autoImplicit false

/-! # Progress in the text

A statement ends at a later place of the text than it starts, whatever is wrong with the text: the
readers and the scan of a block only drop characters from its front, and a terminator has to follow.
So a run goes on to a later place with each step, unless a jump takes it back. The jump over the
second branch of a conditional does not, as the `else` stands before the end of the block; only
loops leave jumps that do (`isForward_of_statement`).

A check leaves no jumps at all. Each of its steps goes to a later place, and the body of a
subroutine, which it checks in between, is shorter than what is ahead of the definition. Hence a check
ends in fewer steps than its text has characters and one more (`run_check_ends`).

A host does not say how many steps a check may take. The number is computed from the length of the
text, and that it is enough is what makes validation a function of the text and the names alone.
-/

namespace NumScript.Script

variable {ω σ : Type}

/-! ## Places in a text

Later means that less is ahead, by at least one character. The texts ahead of a run are ends of one
text, so they are ordered by their lengths. -/

/-- The text `s` is what is ahead at a later place of the text `t`. -/
def IsLater (t s : List Char) : Prop :=
  s <:+ t ∧ s.length < t.length

theorem IsLater.of_suffix {t u s s' : List Char} (h : IsLater u s) (hu : u <:+ t) (hs : s' <:+ s) :
    IsLater t s' :=
  ⟨hs.trans (h.1.trans hu), Nat.lt_of_le_of_lt hs.length_le (Nat.lt_of_lt_of_le h.2 hu.length_le)⟩

theorem isLater_of_mem_laterStatements {t s : List Char} (h : s ∈ laterStatements t) :
    IsLater t s := by
  refine ⟨suffix_of_mem_laterStatements h, ?_⟩
  obtain ⟨p, rfl, hp⟩ := exists_isClosed_append h
  have hne : p ≠ [] := by
    rintro rfl
    cases hp
  have := List.length_pos_iff.2 hne
  rw [List.length_append]
  omega

/-! ## What readers leave

No reader adds to the text, so what it leaves is an end of what it was given. The search for the end
of a block also passes at least one terminator. -/

theorem skipGap_suffix (t : List Char) : skipGap t <:+ t :=
  skipGapFrom_suffix false t

theorem readWord_suffix (t : List Char) : (readWord t).2 <:+ t :=
  (skipGap_suffix _).trans ((List.dropWhile_suffix _).trans (skipGap_suffix t))

theorem readParam_suffix (t : List Char) : (readParam t).2 <:+ t := by
  suffices h : ∀ phase, (readParamFrom phase t).2 <:+ t from h .gap
  intro phase
  fun_induction readParamFrom phase t with
  | case1 | case3 => exact List.suffix_refl _
  | case2 _ _ ih => exact ih.trans (List.suffix_cons _ _)
  | case4 _ _ _ _ ih => exact ih.trans (List.suffix_cons _ _)
  | case5 _ _ _ _ _ _ _ ih => exact ih.trans (List.suffix_cons _ _)
  | case6 _ _ _ _ _ _ _ _ _ hread ih =>
      rw [hread] at ih
      exact ih.trans (List.suffix_cons _ _)

theorem readLeading_suffix {s rest : List Char} {leading : Leading}
    (h : readLeading s = (leading, rest)) : rest <:+ s := by
  rw [readLeading_eq] at h
  cases h
  exact readWord_suffix s

/-- The end of a block is a later place than its header. -/
theorem isLater_of_scanBlock {b : Block} {header : List Char} {marks : Landmarks}
    (h : scanBlock b header = .ok marks) : IsLater header marks.close := by
  obtain ⟨hmem, hclose, -⟩ := scanBlock_landmarks h
  exact (isLater_of_mem_laterStatements hmem).of_suffix (List.suffix_refl _)
    (readLeading_suffix hclose)

/-! ## Jumps

A jump leads to a text, and whether it leads back is seen by comparing that text with the one where
the jump waits. -/

def Jump.IsForward (j : Jump) : Prop :=
  ∀ s t, j.trigger = some s → j.target = .before t → t <:+ s

def Frame.IsForward (f : Frame ω) : Prop :=
  ∀ j ∈ f.jumps, j.IsForward

theorem Frame.isForward_of_nil {f : Frame ω} (h : f.jumps = []) : f.IsForward := by
  unfold Frame.IsForward
  rw [h]
  exact List.forall_mem_nil _

/-- In a conditional the closing statement comes after the `else` of the block. -/
theorem closing_mem_of_alternate {b : Block} {depth : Nat} {alternate : Option (List Char)}
    {here s : List Char} {marks : Landmarks}
    (h : scanStatements b depth alternate here (laterStatements s) = .ok marks) {ahead : List Char}
    (ha : marks.alternate = some ahead) :
    alternate = some ahead ∨ marks.closing ∈ laterStatements ahead := by
  induction s using laterStatements_induction generalizing depth alternate here with
  | last s hs =>
      rw [hs] at h
      cases h
  | more s t hs ih =>
      rw [hs, scanStatements] at h
      rcases hl : readLeading t with ⟨leading, rest⟩
      rw [hl] at h
      cases leading with
      | nothing | unknown _ => exact ih h
      | keyword k =>
          dsimp only at h
          split at h
          · exact ih h
          split at h
          · cases depth with
            | zero =>
                cases h
                exact .inl ha
            | succ outer => exact ih h
          split at h
          · -- from the `else` on, the later statements are those after it
            rcases ih h with heq | hmem
            · cases heq
              rw [laterStatements_readLeading hl]
              exact .inr (scanStatements_landmarks h).1
            · exact .inr hmem
          · exact ih h

theorem suffix_of_oneByteOn {s t : List Char} (h : oneByteOn s = .before t) : t <:+ s := by
  cases s with
  | nil =>
      cases h
      exact List.suffix_refl []
  | cons c rest =>
      rw [oneByteOn] at h
      split at h
      · cases h
        exact List.suffix_cons _ _
      · cases h

section

variable {v : View ω} {mode : Mode} {start : List Char} {p q : Progress} {j : Jump}

theorem isForward_of_conditional (h : Reader.conditional v mode p = .ok (.jump j) q) :
    j.IsForward := by
  rw [Reader.conditional_eq] at h
  split at h
  · cases h
  split at h
  · cases h
  split at h
  · cases h
  rename_i marks hscan
  split at h
  · cases h
  split at h
  · split at h
    · rename_i ahead ha
      cases h
      intro s t htrigger htarget
      obtain rfl := afterTerminator?_eq_some_iff.1 htrigger
      have hclosing : marks.closing <:+ s := by
        rcases closing_mem_of_alternate hscan ha with heq | hmem
        · cases heq
        rw [laterStatements_terminator] at hmem
        rcases List.mem_cons.1 hmem with heq | hmem
        · exact heq ▸ List.suffix_refl _
        · exact suffix_of_mem_laterStatements hmem
      have hclose := readLeading_suffix (scanBlock_landmarks hscan).2.1
      exact (suffix_of_oneByteOn htarget).trans (hclose.trans hclosing)
    · cases h
  · cases h

/-- Only loops lead back. -/
theorem isForward_of_statement {k : Keyword} (hk : k ≠ .whileBlock)
    (h : Reader.statement v mode start k p = .ok (.jump j) q) : j.IsForward := by
  have hkeyword : k = .ifBlock ∨ k = .whileBlock := asksFor_of_statement h
  rcases hkeyword with rfl | rfl
  · exact isForward_of_conditional h
  · exact absurd rfl hk

end

/-! ## Where statements end

Where the terminator is due is known from the action, except that a declaration reads its names
while they are declared. -/

/-- Where the terminator of a statement is due, which asked for this where the text goes on at
`ahead`. The names of a declaration are still ahead then. -/
def Action.endFrom (ahead : List Char) : Action → List Char
  | .declare _ names => endOfList ahead names
  | _ => ahead

theorem mem_laterStatements_of_landmark {b : Block} {header ahead next : List Char}
    {marks : Landmarks} (hscan : scanBlock b header = .ok marks)
    (hahead : ahead = marks.close ∨ marks.alternate = some ahead) (hnext : ahead = ';' :: next) :
    next ∈ laterStatements header := by
  obtain ⟨hmem, hclose, halternate⟩ := scanBlock_landmarks hscan
  obtain ⟨s, hs, k, hl⟩ :
      ∃ s ∈ laterStatements header, ∃ k, readLeading s = (.keyword k, ahead) := by
    rcases hahead with rfl | ha
    · exact ⟨_, hmem, _, hclose⟩
    · obtain ⟨s, hs, hl⟩ := halternate ahead ha
      exact ⟨s, hs, _, hl⟩
  refine mem_laterStatements_trans hs ?_
  rw [← laterStatements_readLeading hl, hnext, laterStatements_terminator]
  exact .head _

/-- The statement that is next after another one is one of the later ones. -/
theorem Asks.mem_laterStatements {v : View ω} {mode : Mode} {start rest ahead next : List Char}
    {k : Keyword} {a : Action} (h : Asks v mode start rest k a ahead)
    (hnext : a.endFrom ahead = ';' :: next) : next ∈ laterStatements rest := by
  -- the terminator follows the operands, or a keyword of the block of the statement
  have operands {e : List Char} (hend : operandsEnd? rest k = some e) (he : e = ';' :: next) :
      next ∈ laterStatements rest := by
    rw [← laterStatements_operandsEnd hend, he, laterStatements_terminator]
    exact .head _
  have landmark {b : Block} {e : List Char} {marks : Landmarks}
      (hend : operandsEnd? rest k = some e) (hscan : scanBlock b e = .ok marks)
      (hahead : ahead = marks.close ∨ marks.alternate = some ahead) (he : ahead = ';' :: next) :
      next ∈ laterStatements rest := by
    rw [← laterStatements_operandsEnd hend]
    exact mem_laterStatements_of_landmark hscan hahead he
  cases h with
  | pass _ hend => exact operands hend hnext
  | effect _ hend _ heffect =>
      refine operands hend ?_
      cases heffect <;> exact hnext
  | declare sort hend =>
      refine operands hend ?_
      rw [operandsEnd?_declaration hend]
      exact hnext
  | enter _ hend _ | jump _ hend _ _ _ => exact operands hend hnext
  | skip _ hend hscan _ hahead => exact landmark hend hscan hahead hnext
  | define hend _ hscan _ => exact landmark hend hscan (.inl rfl) hnext

/-! ## A statement

A step is at least as long as its terminator. Before it a jump may be taken, which goes forward
unless it was left by a loop. -/

section

variable {host : Host ω σ} {callee : Frame ω → Machine ω σ → Outcome ω σ} {depth : Nat}
  {f f' : Frame ω} {m m' : Machine ω σ} {a : Action}

/-- A request was read at the place to which the latest jump leads. -/
theorem reading_of_request (h : request host f m = .ok (a, f', m')) :
    ∃ s k rest retained, f.takeJump.2 = .before s ∧
      readLeading (skipGap s) = (.keyword k, rest) ∧
      Reader.statement (f.view host m) f.mode (skipGap s) k ⟨rest, m.retained⟩ =
        .ok a ⟨f'.rest, retained⟩ ∧
      f'.jumps = f.takeJump.1.jumps := by
  unfold request at h
  split at h
  · cases h
  have hact := f.toActivation_takeJump
  rcases hjump : f.takeJump with ⟨start, point⟩
  rw [hjump] at h hact
  cases point with
  | inside text => cases h
  | before s =>
      dsimp only at h hact
      split at h
      · cases h
      · cases h
      · rename_i k rest hl
        split at h
        · cases h
        · rename_i b p hread
          cases h
          have hview : start.view host m = f.view host m := by
            unfold Frame.view
            rw [hact]
          rw [hview, hact] at hread
          exact ⟨s, k, rest, p.retained, rfl, hl, hread, rfl⟩

/-- Where no jump leads back, the next statement is not before the place ahead. -/
theorem Frame.IsForward.suffix {s : List Char} (hf : f.IsForward)
    (h : f.takeJump.2 = .before s) : s <:+ f.rest := by
  unfold Frame.takeJump at h
  split at h
  · rename_i j below hjumps
    split at h
    · rename_i htrigger
      exact hf j (by rw [hjumps]; exact .head _) f.rest s htrigger h
    · cases h
      exact List.suffix_refl _
  · cases h
    exact List.suffix_refl _

theorem rest_of_finishStatement (h : f.finishStatement m = .next f' m') :
    f.rest = ';' :: f'.rest ∧ f'.jumps = f.jumps := by
  unfold Frame.finishStatement at h
  split at h
  · rename_i rest hrest
    cases h
    exact ⟨afterTerminator?_eq_some_iff.1 hrest, rfl⟩
  · cases h

theorem rest_of_declare {sort : Declaration} {names : List (List Char × List Char)}
    (h : declare host sort f m names = .next f' m') :
    endOfList f.rest names = ';' :: f'.rest ∧ f'.jumps = f.jumps := by
  induction names generalizing f m with
  | nil => exact rest_of_finishStatement h
  | cons read more ih =>
      obtain ⟨word, rest⟩ := read
      unfold declare at h
      dsimp only at h
      split at h
      · cases h
      split at h
      · rename_i a world _
        exact @ih { toActivation := a, rest, jumps := f.jumps } { m with world } h
      · cases h

/-- After what a statement asked for is done, the terminator is passed, and only this statement may
leave a jump. -/
theorem rest_of_perform (h : perform host callee depth f m a = .next f' m') :
    a.endFrom f.rest = ';' :: f'.rest ∧ ∀ j ∈ f'.jumps, j ∈ f.jumps ∨ a = .jump j := by
  -- every action but two goes on behind its operands and leaves the jumps alone
  have finish {g : Frame ω} {n : Machine ω σ} (hg : g.finishStatement n = .next f' m')
      (hrest : g.rest = f.rest) (hjumps : g.jumps = f.jumps) :
      f.rest = ';' :: f'.rest ∧ ∀ j ∈ f'.jumps, j ∈ f.jumps ∨ a = .jump j := by
    obtain ⟨hnext, hjumps'⟩ := rest_of_finishStatement hg
    refine ⟨by rw [← hrest, hnext], fun j hj => .inl ?_⟩
    rwa [hjumps', hjumps] at hj
  cases a with
  | pass => exact finish h rfl rfl
  | assign name x => exact finish h rfl rfl
  | call name args =>
      simp only [perform] at h
      split at h
      · exact finish h rfl rfl
      · cases h
  | invoke name body args =>
      simp only [perform] at h
      split at h
      · exact finish h rfl rfl
      · cases h
  | define name body =>
      simp only [perform] at h
      split at h
      · exact finish h rfl rfl
      · cases h
  | declare sort names =>
      obtain ⟨hnext, hjumps⟩ := rest_of_declare h
      exact ⟨hnext, fun j hj => .inl (by rwa [hjumps] at hj)⟩
  | jump j =>
      obtain ⟨hnext, hjumps⟩ := rest_of_finishStatement h
      refine ⟨hnext, fun j' hj' => ?_⟩
      rw [hjumps] at hj'
      rcases List.mem_cons.1 hj' with rfl | hj'
      · exact .inr rfl
      · exact .inl hj'
  | finish result => cases result <;> cases h

/-- A step goes to a later place and leaves no jump that leads back, unless it enters a loop. -/
theorem isLater_of_step (hf : f.IsForward)
    (hloop : ∀ s rest, s <:+ f.rest → readLeading s = (.keyword .whileBlock, rest) →
      f.mode = .validate)
    (h : step host callee depth f m = .next f' m') : IsLater f.rest f'.rest ∧ f'.IsForward := by
  rw [step_eq] at h
  cases hreq : request host f m with
  | error o =>
      rw [hreq] at h
      cases h
  | ok asked =>
      obtain ⟨a, g, n⟩ := asked
      rw [hreq] at h
      obtain ⟨s, k, rest, _, hpoint, hl, hread, hjumps⟩ := reading_of_request hreq
      obtain ⟨hnext, hjumps'⟩ := rest_of_perform h
      have hasks := asks_of_statement hread
      have hs : skipGap s <:+ f.rest := (skipGap_suffix s).trans (hf.suffix hpoint)
      refine ⟨?_, fun j hj => ?_⟩
      · -- the next statement is a later statement of the one ahead
        have hmem := hasks.mem_laterStatements hnext
        rw [laterStatements_readLeading hl] at hmem
        exact (isLater_of_mem_laterStatements hmem).of_suffix hs (List.suffix_refl _)
      rcases hjumps' j hj with hj | rfl
      · rw [hjumps] at hj
        exact hf j (f.jumps_takeJump_subset hj)
      by_cases hk : k = .whileBlock
      · -- while validating nothing asks for a jump
        rw [hloop _ rest hs (by rw [hl, hk])] at hasks
        exact (quiet_of_asks hasks).elim
      · exact isForward_of_statement hk hread

/-- The body of a subroutine is a piece of the text ahead, and shorter. -/
theorem body_of_request {name body : String} (hf : f.IsForward)
    (h : request host f m = .ok (.define name body, f', m')) :
    body.toList <:+: f.rest ∧ body.toList.length < f.rest.length := by
  obtain ⟨s, k, rest, _, hpoint, hl, hread, -⟩ := reading_of_request h
  have hasks := asks_of_statement hread
  generalize ha : Action.define name body = a at hasks
  generalize f'.rest = ahead at hasks
  cases hasks with
  | @define name' e marks hend hterm _ _ =>
      cases ha
      obtain ⟨w, rfl⟩ := exists_of_isTerminated hterm
      have hw : ';' :: w <:+ f.rest := by
        rw [← operandsEnd?_define hend]
        exact (readWord_suffix rest).trans ((readLeading_suffix hl).trans
          ((skipGap_suffix s).trans (hf.suffix hpoint)))
      have hbody := bodyBetween_isInfix w marks.closing
      rw [String.toList_ofList]
      refine ⟨hbody.trans ((List.suffix_cons ';' w).trans hw).isInfix, ?_⟩
      exact Nat.lt_of_le_of_lt hbody.length_le (Nat.lt_of_succ_le hw.length_le)
  | effect _ _ _ heffect =>
      cases ha
      cases heffect
  | pass | declare | enter | jump | skip => cases ha

/-! ## The end of a step

A step by itself takes no steps. It can run out of them only in a frame that is run inside of it. -/

theorem ending_of_request_error {o : Outcome ω σ} (h : request host f m = .error o) :
    o.ending ≠ .outOfSteps := by
  unfold request at h
  grind

theorem not_ranOut_finishStatement (f : Frame ω) (m : Machine ω σ) :
    ¬ (f.finishStatement m).RanOut := by
  unfold Frame.finishStatement
  split
  · exact id
  · exact Ending.noConfusion

/-- A statement that does what it asks for on its own needs no more steps. -/
theorem not_ranOut_of_isOwn (ha : a.IsOwn) : ¬ (perform host callee depth f m a).RanOut := by
  cases h : perform host callee depth f m a with
  | next _ _ => exact id
  | stop o =>
      intro hend
      have hend : o.ending = .outOfSteps := hend
      rcases perform_stop_of_isOwn ha h with ⟨e, he⟩ | ⟨he, -⟩ <;>
      · rw [hend] at he
        cases he

/-- A step runs out of steps only inside the subroutine that it calls or the body that it checks. -/
theorem not_ranOut_of_step
    (hcheck : ∀ name body g n, request host f m = .ok (.define name body, g, n) →
      (checkBody callee g n body).1 ≠ .outOfSteps)
    (hcall : ∀ N, called? host depth f m = some N →
      (callee N.frame N.machine).ending ≠ .outOfSteps) :
    ¬ (step host callee depth f m).RanOut := by
  have hanatomy := step_anatomy host callee depth f m
  generalize step host callee depth f m = s at hanatomy
  cases hanatomy with
  | stopped hreq => exact ending_of_request_error hreq
  | tooDeep _ _ _ | blank _ _ _ => exact Ending.noConfusion
  | called _ _ hN =>
      have hend := hcall _ hN
      unfold Frame.resume
      split
      · exact not_ranOut_finishStatement _ _
      · exact hend
  | @checked name body g n hreq _ =>
      have hend := hcheck _ _ _ _ hreq
      simp only [perform]
      split
      · exact not_ranOut_finishStatement _ _
      · rename_i hbody
        rw [hbody] at hend
        exact hend
  | own _ ha _ => exact not_ranOut_of_isOwn ha

end

/-! ## Checks

An induction on the length of the text, for frames and for the bodies that are checked inside of
them. The body of a definition is shorter than what is ahead, so its check has steps enough. -/

/-- A check calls no subroutine. -/
theorem called?_of_validate (host : Host ω σ) (depth : Nat) {f : Frame ω} (hf : f.mode = .validate)
    (m : Machine ω σ) : called? host depth f m = none := by
  cases hN : called? host depth f m with
  | none => rfl
  | some N =>
      obtain ⟨name, body, args, g, n, hreq, -⟩ := step_of_called hN
      obtain ⟨s, k, rest, _, -, -, hread, -⟩ := reading_of_request hreq
      rw [hf] at hread
      exact (quiet_of_asks (asks_of_statement hread)).elim

/-- In a check each step goes to a later place. -/
theorem isLater_of_step_validate {host : Host ω σ} {steps depth : Nat} {f f' : Frame ω}
    {m m' : Machine ω σ} (hmode : f.mode = .validate) (hf : f.IsForward)
    (h : step host (run host steps (depth + 1)) depth f m = .next f' m') :
    f'.mode = .validate ∧ f'.IsForward ∧ IsLater f.rest f'.rest := by
  obtain ⟨hlater, hforward⟩ := isLater_of_step hf (fun _ _ _ _ => hmode) h
  have hquiet := @step_validate _ _ host _ (run_validate host steps (depth + 1)) f hmode depth m
  rw [h] at hquiet
  exact ⟨hquiet.1.trans hmode, hforward, hlater⟩

/-- Checks of texts with less than `size` characters end. -/
def EndsChecks (callee : Frame ω → Machine ω σ → Outcome ω σ) (size : Nat) : Prop :=
  ∀ (f : Frame ω) (m : Machine ω σ), f.mode = .validate → f.IsForward → f.rest.length < size →
    (callee f m).ending ≠ .outOfSteps

theorem EndsChecks.enter {callee : Frame ω → Machine ω σ → Outcome ω σ} {size : Nat}
    (h : EndsChecks callee size) : EndsChecks (enter callee) size := by
  intro f m hmode hf hlength
  unfold Script.enter
  split
  · exact Ending.noConfusion
  · exact h _ m hmode hf (Nat.lt_of_le_of_lt (length_skipGapFrom_le false f.rest) hlength)

theorem EndsChecks.checkBody {callee : Frame ω → Machine ω σ → Outcome ω σ} {size : Nat}
    (h : EndsChecks callee size) (f : Frame ω) (m : Machine ω σ) {body : String}
    (hbody : body.toList.length < size) : (checkBody callee f m body).1 ≠ .outOfSteps :=
  h.enter { rest := body.toList, mode := .validate, outer := some (f.chain m.world) } m rfl
    (Frame.isForward_of_nil rfl) hbody

/-- A check ends in as many steps as there are characters ahead, and one more. -/
theorem run_check_ends (host : Host ω σ) (steps depth : Nat) :
    EndsChecks (run host steps depth) steps := by
  induction steps generalizing depth with
  | zero => exact fun f m _ _ hlength => absurd hlength (Nat.not_lt_zero _)
  | succ steps ih =>
      intro f m hmode hf hlength
      -- the body that is checked in this step is shorter than what is ahead
      have hstep : ¬ (step host (run host steps (depth + 1)) depth f m).RanOut := by
        refine not_ranOut_of_step (fun name body g n hreq => ?_) fun N hN => ?_
        · have hbody := (body_of_request hf hreq).2
          exact (ih (depth + 1)).checkBody g n (by omega)
        · rw [called?_of_validate host depth hmode m] at hN
          cases hN
      rw [run]
      cases hs : step host (run host steps (depth + 1)) depth f m with
      | stop o =>
          rw [hs] at hstep
          exact hstep
      | next f' m' =>
          obtain ⟨hmode', hf', -, hlt⟩ := isLater_of_step_validate hmode hf hs
          exact ih depth f' m' hmode' hf' (by omega)

/-- Validation always ends, whatever the text. Its loop over the statements ends, with the outcome
that validation reports, in any number of steps that is greater than the number of characters. For
each of its steps goes to a later place of the text, and a body that is checked in between is a
shorter piece of the text ahead. The scan of a block goes to a later place, too, and the readers of
gaps, words and parameters leave what is ahead of a place in the text that they were given. -/
theorem Interpreter.validate_ends (i : Interpreter ω σ) (script : String)
    (chain : Option (Chain ω)) :
    (∃ o : Outcome ω σ, o.ending ≠ .outOfSteps ∧
      i.validate script chain = i.conclude script.toList o.ending o.left o.machine ∧
      ∀ steps, script.toList.length < steps →
        enter (run i.host steps 0) { rest := script.toList, mode := .validate, outer := chain }
          { i.machine with lastReturn := none } = o) ∧
    (∀ (steps depth : Nat) (f : Frame ω) (m : Machine ω σ), f.mode = .validate → f.IsForward →
      (∀ f' m', step i.host (run i.host steps (depth + 1)) depth f m = .next f' m' →
        f'.mode = .validate ∧ f'.IsForward ∧ IsLater f.rest f'.rest) ∧
      ∀ name body f' m', request i.host f m = .ok (.define name body, f', m') →
        body.toList <:+: f.rest ∧ body.toList.length < f.rest.length) ∧
    (∀ b header marks, scanBlock b header = .ok marks → IsLater header marks.close) ∧
    ∀ text, skipGap text <:+ text ∧ (readWord text).2 <:+ text ∧ (readParam text).2 <:+ text := by
  refine ⟨⟨i.check script.toList chain, ?_, rfl, fun steps hsteps => ?_⟩,
    fun steps depth f m hmode hf => ⟨fun f' m' h => isLater_of_step_validate hmode hf h,
      fun name body f' m' h => body_of_request hf h⟩,
    fun b header marks h => isLater_of_scanBlock h,
    fun text => ⟨skipGap_suffix text, readWord_suffix text, readParam_suffix text⟩⟩
  · exact (run_check_ends i.host _ 0).enter _ _ rfl (Frame.isForward_of_nil rfl) (Nat.lt_succ_self _)
  · -- the steps that validation is given are the least ones that are enough
    have hextends : Extends (run i.host (script.toList.length + 1) 0) (run i.host steps 0) :=
      fun f m hend => run_eq_of_le hsteps hend
    exact enter_of_extends hextends _ _
      ((run_check_ends i.host _ 0).enter _ _ rfl (Frame.isForward_of_nil rfl) (Nat.lt_succ_self _))

end NumScript.Script
