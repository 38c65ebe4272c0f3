import NumScript.Proofs.Script.Progress

set_option autoImplicit false

/-! # Where a run goes on

A run leaves a place of its text in three ways (`LeadsOn`). It goes on behind a terminator further on,
whether the statement there is inside a block or behind it. It jumps back to the header of a loop. Or
it jumps over the second branch of a conditional, and then it lands one byte behind the closing
keyword, whatever stands there (`HasBranches`). A property of places that is kept on these three ways
holds of all places to which a run comes (`meets_of_step`).

Only the third way depends on what is not looked at: `;` is due behind the closing keyword, but any
other byte is passed in the same way.

## How to use it

Choose a property of places and one of the points that jumps lead to, and show `LeadsOn`: the first
is kept behind a terminator further on, and the jumps that a header leaves lead to points with the
second. `meets_of_step` is then the step of an induction over any run. The cursor on character
boundaries and the end of a text behind its last terminator are two such properties.
-/

namespace NumScript.Script

variable {ω σ : Type}

/-- The statement `s` is the header of a conditional with a second branch, and `marks` are the
landmarks of this block. -/
def HasBranches (s : List Char) (marks : Landmarks) : Prop :=
  ∃ rest header, readLeading s = (.keyword .ifBlock, rest) ∧
    operandsEnd? rest .ifBlock = some header ∧ scanBlock .conditional header = .ok marks ∧
    marks.alternate.isSome = true

/-- A run comes to such a place from the statement before it, or by a jump. -/
def ComesTo (P : List Char → Prop) (T : Point → Prop) (s : List Char) : Prop :=
  P s ∨ T (.before s)

/-- In this mode every way on leads to a place ahead with the property `P`, or leaves a jump to a
point with the property `T`. -/
structure LeadsOn (mode : Mode) (P : List Char → Prop) (T : Point → Prop) : Prop where
  later {s u : List Char} : ComesTo P T s → u ∈ laterStatements s → P u
  back {s : List Char} : ComesTo P T s → skipGap s ≠ [] → T (.before (skipGap s))
  across {s : List Char} {marks : Landmarks} : mode.followsBranches = true → ComesTo P T s →
    HasBranches s marks → T (oneByteOn marks.close)

/-- The frame is at such a place, and its jumps lead to such points. -/
def Frame.Meets (P : List Char → Prop) (T : Point → Prop) (f : Frame ω) : Prop :=
  P f.rest ∧ ∀ j ∈ f.jumps, T j.target

/-! ## What jumps are for

Two statements leave jumps, and where these lead is read off the outline of the statement. -/

section

variable {v : View ω} {mode : Mode} {start rest ahead : List Char} {k : Keyword} {p q : Progress}
  {j : Jump}

/-- The header of a loop leaves a jump back to itself, and the header of a conditional one over the
second branch. -/
theorem target_of_jump (h : Reader.statement v mode start k p = .ok (.jump j) q) :
    j.target = .before start ∨
      k = .ifBlock ∧ ∃ marks, scanBlock .conditional q.rest = .ok marks ∧
        marks.alternate.isSome = true ∧ j.target = oneByteOn marks.close := by
  have hkeyword : k = .ifBlock ∨ k = .whileBlock := asksFor_of_statement h
  rcases hkeyword with rfl | rfl
  · change Reader.conditional v mode p = _ at h
    rw [Reader.conditional_eq] at h
    split at h
    · cases h
    split at h
    · cases h
    split at h
    · cases h
    rename_i marks hscan
    split at h
    · cases h
    -- a jump is left where the guard holds and there is a second branch
    split at h
    · split at h
      · rename_i alternate halternate
        cases h
        exact .inr ⟨rfl, marks, hscan, by rw [halternate]; rfl, rfl⟩
      · cases h
    · cases h
  · change Reader.loop v mode start p = _ at h
    rw [Reader.loop_eq] at h
    split at h
    · cases h
    split at h
    · cases h
    split at h
    · cases h
    split at h
    · cases h
    split at h
    · cases h
      exact .inl rfl
    · cases h

/-- A jump is left where branches are followed, and the text goes on behind the operands then. -/
theorem Asks.operandsEnd_of_jump (h : Asks v mode start rest k (.jump j) ahead) :
    mode.followsBranches = true ∧ operandsEnd? rest k = some ahead := by
  cases h with
  | jump _ hend _ hmode _ => exact ⟨hmode, hend⟩
  | effect _ _ _ heffect => cases heffect

end

/-- The closing statement of a conditional with a second branch is one of the later statements. -/
theorem HasBranches.closing {s : List Char} {marks : Landmarks} (h : HasBranches s marks) :
    marks.closing ∈ laterStatements s ∧
      readLeading marks.closing = (.keyword .fi, marks.close) := by
  obtain ⟨rest, header, hl, hend, hscan, -⟩ := h
  obtain ⟨hmem, hclose, -⟩ := scanBlock_landmarks hscan
  rw [laterStatements_operandsEnd hend, laterStatements_readLeading hl] at hmem
  exact ⟨hmem, hclose⟩

theorem HasBranches.close_suffix {s : List Char} {marks : Landmarks} (h : HasBranches s marks) :
    marks.close <:+ s :=
  (readLeading_suffix h.closing.2).trans (suffix_of_mem_laterStatements h.closing.1)

theorem skipGap_ne_nil_of_keyword {s rest : List Char} {k : Keyword}
    (h : readLeading (skipGap s) = (.keyword k, rest)) : skipGap s ≠ [] := by
  intro hnil
  rw [hnil] at h
  cases h

/-! ## The mode of a frame

A frame executes or validates to its end. So what holds of one mode only can be carried along. -/

section

variable {host : Host ω σ} {callee : Frame ω → Machine ω σ → Outcome ω σ} {depth : Nat}
  {f f' : Frame ω} {m m' : Machine ω σ} {a : Activation ω} {w : World ω σ}

theorem mode_assign (host : Host ω σ) (a : Activation ω) (w : World ω σ) (name : String)
    (x : Float) : (assign host a w name x).1.mode = a.mode := by
  unfold assign
  split
  · rfl
  · rfl
  · split <;> rfl

theorem mode_of_declareName {sort : Declaration} {name : String} {a' : Activation ω}
    {w' : World ω σ} (h : declareName host sort a w name = .ok (a', w')) : a'.mode = a.mode := by
  unfold declareName at h
  split at h
  · cases sort with
    | var =>
        cases h
        rfl
    | exportVar =>
        dsimp only at h
        unfold exportName at h
        split at h
        · dsimp only at h
          split at h <;>
          · cases h
            rfl
        · cases h
          rfl
    | pop =>
        dsimp only at h
        unfold popName at h
        dsimp only at h
        split at h
        · cases h
          rfl
        · cases h
        · injection h with h
          rw [← show (assign host _ w name _).1 = a' from congrArg Prod.fst h, mode_assign]
  · cases h
    rfl

theorem mode_of_finishStatement (h : f.finishStatement m = .next f' m') : f'.mode = f.mode := by
  unfold Frame.finishStatement at h
  split at h
  · cases h
    rfl
  · cases h

theorem mode_of_declare {sort : Declaration} {names : List (List Char × List Char)}
    (h : declare host sort f m names = .next f' m') : f'.mode = f.mode := by
  induction names generalizing f m with
  | nil => exact mode_of_finishStatement h
  | cons read more ih =>
      unfold declare at h
      dsimp only at h
      split at h
      · cases h
      split at h
      · rename_i a world hname
        exact (ih h).trans (mode_of_declareName hname)
      · cases h

theorem mode_of_perform {a : Action} (h : perform host callee depth f m a = .next f' m') :
    f'.mode = f.mode := by
  cases a with
  | pass => exact mode_of_finishStatement h
  | jump j => exact (mode_of_finishStatement h :)
  | assign name x => exact (mode_of_finishStatement h).trans (mode_assign host _ _ _ _)
  | call name args =>
      simp only [perform] at h
      split at h
      · exact mode_of_finishStatement h
      · cases h
  | invoke name body args =>
      simp only [perform] at h
      split at h
      · exact mode_of_finishStatement h
      · cases h
  | define name body =>
      simp only [perform] at h
      split at h
      · exact mode_of_finishStatement h
      · cases h
  | declare sort names => exact mode_of_declare h
  | finish result => cases result <;> cases h

/-- A frame keeps its mode. -/
theorem mode_of_step (h : step host callee depth f m = .next f' m') : f'.mode = f.mode := by
  rw [step_eq] at h
  cases hreq : request host f m with
  | error o =>
      rw [hreq] at h
      cases h
  | ok asked =>
      obtain ⟨a, g, n⟩ := asked
      rw [hreq] at h
      exact (mode_of_perform h).trans (congrArg Activation.mode (statement_of_request hreq).1)

end

/-! ## A step

The invariant of a run over places: the place ahead has a property, and the jumps that wait lead to
places with one. Users choose both properties and show `LeadsOn`, which is about single statements.
-/

section

variable {host : Host ω σ} {callee : Frame ω → Machine ω σ → Outcome ω σ} {depth : Nat}
  {f f' : Frame ω} {m m' : Machine ω σ} {P : List Char → Prop} {T : Point → Prop}

/-- The next statement is ahead, or it is where the latest jump leads, which waits here. -/
theorem Frame.Meets.takeJump (hf : f.Meets P T) :
    f.takeJump.2 = .before f.rest ∧ P f.rest ∨
      ∃ j, f.jumps.head? = some j ∧ j.trigger = some f.rest ∧ f.takeJump.2 = j.target ∧
        T j.target := by
  unfold Frame.takeJump
  split
  · rename_i j below hjumps
    split
    · rename_i htrigger
      exact .inr ⟨j, by rw [hjumps]; rfl, htrigger, rfl, hf.2 j (by rw [hjumps]; exact .head _)⟩
    · exact .inl ⟨rfl, hf.1⟩
  · exact .inl ⟨rfl, hf.1⟩

theorem Frame.Meets.comesTo (hf : f.Meets P T) {s : List Char} (h : f.takeJump.2 = .before s) :
    ComesTo P T s := by
  rcases hf.takeJump with ⟨hpoint, hrest⟩ | ⟨j, -, -, hpoint, htarget⟩
  · rw [hpoint] at h
    cases h
    exact .inl hrest
  · rw [← hpoint, h] at htarget
    exact .inr htarget

/-- A step that goes on goes on at a place with the same property. -/
theorem meets_of_step (hP : LeadsOn f.mode P T) (hf : f.Meets P T)
    (h : step host callee depth f m = .next f' m') : f'.Meets P T := by
  rw [step_eq] at h
  cases hreq : request host f m with
  | error o =>
      rw [hreq] at h
      cases h
  | ok asked =>
      obtain ⟨a, g, n⟩ := asked
      rw [hreq] at h
      obtain ⟨s, k, rest, retained, hpoint, hl, hread, hjumps⟩ := reading_of_request hreq
      obtain ⟨hnext, hjumps'⟩ := rest_of_perform h
      have hs := hf.comesTo hpoint
      have hasks := asks_of_statement hread
      refine ⟨hP.later hs ?_, fun j hj => ?_⟩
      · have hmem := hasks.mem_laterStatements hnext
        rwa [laterStatements_readLeading hl, laterStatements_skipGap] at hmem
      rcases hjumps' j hj with hj | rfl
      · rw [hjumps] at hj
        exact hf.2 j (f.jumps_takeJump_subset hj)
      -- the statement leaves a jump of its own
      obtain ⟨hmode, hend⟩ := hasks.operandsEnd_of_jump
      rcases target_of_jump hread with htarget | ⟨rfl, marks, hscan, halternate, htarget⟩
      · rw [htarget]
        exact hP.back hs (skipGap_ne_nil_of_keyword hl)
      · rw [readLeading_skipGap] at hl
        rw [htarget]
        exact hP.across hmode hs ⟨rest, g.rest, hl, hend, hscan, halternate⟩

end

end NumScript.Script
