import NumScript.Command.Job
import NumScript.Proofs.Script.Halting
import NumScript.Proofs.Script.Landing
import NumScript.Proofs.Script.Visited

set_option autoImplicit false

/-! # How runs finish

A run finishes with a statement `return` or `exit`, or where nothing is left of its text but a gap
(`finished_of_step_stop`). A place where a statement is due is one behind a terminator. So in the
second case the text ends with a terminator, and a last statement without one is reported.

There is one way around this. The jump over the second branch of a conditional leads one byte behind
the closing keyword. It takes the terminator there for granted, so a run that comes to `else` finishes
if at most one character and a gap stand behind this keyword (`Moment.LandsAtEnd`).
-/

namespace NumScript.Script

variable {ω σ : Type}

/-! ## Ends of texts

A text whose last statement has its terminator, up to a gap. A terminator inside a comment does not
count, so this is said with the notion of being inside a comment. -/

/-- Up to a gap, the text ends with a terminator, and that does not stand in a comment. -/
def EndsTerminated (text : List Char) : Prop :=
  ∃ front gap, text = front ++ ';' :: gap ∧ gap ∈ laterStatements text ∧ skipGap gap = []

theorem exists_terminator_of_mem {inComment : Bool} {text s : List Char}
    (h : s ∈ statementsFrom inComment text) : ∃ front, text = front ++ ';' :: s := by
  induction text generalizing inComment with
  | nil => cases h
  | cons c rest ih =>
      have later {inComment : Bool} (h : s ∈ statementsFrom inComment rest) :
          ∃ front, c :: rest = front ++ ';' :: s := by
        obtain ⟨front, hfront⟩ := ih h
        exact ⟨c :: front, by rw [hfront, List.cons_append]⟩
      rw [statementsFrom] at h
      split at h
      · exact later h
      split at h
      · rename_i hc
        rcases List.mem_cons.1 h with rfl | h
        · exact ⟨[], by rw [hc, List.nil_append]⟩
        · exact later h
      · exact later h

theorem endsTerminated_of_mem {text s : List Char} (h : s ∈ laterStatements text)
    (hs : skipGap s = []) : EndsTerminated text := by
  obtain ⟨front, htext⟩ := exists_terminator_of_mem h
  exact ⟨front, s, htext, h, hs⟩

/-- The text `t` is what is ahead one byte behind the closing keyword of a conditional with a second
branch. -/
def BehindBranches (text t : List Char) : Prop :=
  ∃ s marks, s <:+ text ∧ HasBranches s marks ∧ marks.closing ∈ laterStatements text ∧
    oneByteOn marks.close = .before t

/-- At this moment a jump over a second branch is due, and it leads to the end of the text: nothing
but a gap is ahead one byte behind the closing keyword. -/
def Moment.LandsAtEnd (text : List Char) (M : Moment ω σ) : Prop :=
  ∃ j t, M.frame.jumps.head? = some j ∧ j.trigger = some M.frame.rest ∧ j.target = .before t ∧
    BehindBranches text t ∧ skipGap t = []

/-! ## Places of a run

All places but the first are behind terminators, with one exception, which is followed through the
run. A place at which nothing is left is where this matters. -/

/-- The place is one of the text, and the terminators ahead of it are terminators of the text. -/
def IsPlace (text s : List Char) : Prop :=
  s <:+ text ∧ laterStatements s ⊆ laterStatements text

theorem IsPlace.later {text s u : List Char} (hs : IsPlace text s) (hu : u ∈ laterStatements s) :
    IsPlace text u :=
  ⟨(suffix_of_mem_laterStatements hu).trans hs.1,
    fun _ ht => hs.2 (mem_laterStatements_trans hu ht)⟩

theorem IsPlace.skipGap {text s : List Char} (hs : IsPlace text s) : IsPlace text (skipGap s) :=
  ⟨(skipGap_suffix s).trans hs.1, by rw [laterStatements_skipGap]; exact hs.2⟩

theorem ne_hash_of_skipGapFrom {inComment : Bool} {s rest : List Char} {c : Char}
    (h : skipGapFrom inComment s = c :: rest) : c ≠ '#' := by
  fun_induction skipGapFrom inComment s with
  | case1 => cases h
  | case2 _ _ ih => exact ih h
  | case3 _ _ _ _ _ ih => exact ih h
  | case4 _ _ _ _ ih => exact ih h
  | case5 _ _ _ _ _ hhash =>
      cases h
      exact hhash

theorem laterStatements_oneByteOn {s t : List Char} (h : oneByteOn (skipGap s) = .before t) :
    laterStatements t ⊆ laterStatements s := by
  rw [← laterStatements_skipGap s]
  cases hs : skipGap s with
  | nil =>
      rw [hs] at h
      cases h
      exact List.Subset.refl _
  | cons c rest =>
      have hhash : c ≠ '#' := ne_hash_of_skipGapFrom hs
      rw [hs, oneByteOn] at h
      split at h
      · cases h
        by_cases hc : c = ';'
        · rw [hc, laterStatements_terminator]
          exact List.subset_cons_self _ _
        · rw [laterStatements_cons_of_ne _ hc hhash]
          exact List.Subset.refl _
      · cases h

/-- Where the run goes on after a statement, the text ends with a terminator if nothing is left. -/
def IsAhead (text s : List Char) : Prop :=
  IsPlace text s ∧ (skipGap s = [] → EndsTerminated text)

/-- A jump to a place in front of which nothing is left is one over a second branch. -/
def Point.IsLanding (text : List Char) : Point → Prop
  | .before s => IsPlace text s ∧ (skipGap s = [] → BehindBranches text s)
  | .inside _ => True

theorem isPlace_of_comesTo {text s : List Char}
    (h : ComesTo (IsAhead text) (Point.IsLanding text) s) : IsPlace text s :=
  h.elim And.left And.left

/-- A run keeps to such places. -/
theorem leadsOn_isAhead (mode : Mode) (text : List Char) :
    LeadsOn mode (IsAhead text) (Point.IsLanding text) where
  later hs hu :=
    have hplace := isPlace_of_comesTo hs
    ⟨hplace.later hu, fun hnil => endsTerminated_of_mem (hplace.2 hu) hnil⟩
  back hs hne := by
    refine ⟨(isPlace_of_comesTo hs).skipGap, fun hnil => absurd ?_ hne⟩
    rwa [skipGap_skipGap] at hnil
  across {s marks} _ hs hbranches := by
    have hplace := isPlace_of_comesTo hs
    obtain ⟨hclosing, hl⟩ := hbranches.closing
    cases hpoint : oneByteOn marks.close with
    | inside _ => trivial
    | before t =>
        refine ⟨⟨?_, ?_⟩, fun _ => ⟨s, marks, hplace.1, hbranches, hplace.2 hclosing, hpoint⟩⟩
        · exact (suffix_of_oneByteOn hpoint).trans (hbranches.close_suffix.trans hplace.1)
        · -- the byte that is passed begins no comment, as a gap was skipped before it
          have hclose : marks.close =
              skipGap ((skipGap marks.closing).dropWhile Expr.isWordChar) := by
            rw [readLeading_eq] at hl
            exact (congrArg Prod.snd hl).symm
          have hsubset := laterStatements_oneByteOn (hclose ▸ hpoint)
          rw [laterStatements_dropWhile, laterStatements_skipGap] at hsubset
          exact fun u hu => hplace.2 (mem_laterStatements_trans hclosing (hsubset hu))

/-! ## The end of a run

The last moment of a frame decides how it finishes, so the statement about runs is one about the
last step. The words `return` and `exit` are excluded to leave only the end of the text. -/

section

variable {host : Host ω σ} {callee : Frame ω → Machine ω σ → Outcome ω σ} {depth : Nat}
  {f : Frame ω} {m : Machine ω σ} {o : Outcome ω σ}

theorem exists_finish_of_perform {a : Action} (h : perform host callee depth f m a = .stop o)
    (hend : o.ending = .finished) : ∃ result, a = .finish result := by
  -- a statement that is done and finds no terminator fails
  have finish {g : Frame ω} {n : Machine ω σ} (h : g.finishStatement n = .stop o) : False := by
    rw [ending_of_finishStatement h] at hend
    cases hend
  cases a with
  | pass | jump _ | assign _ _ => exact (finish h).elim
  | call name args =>
      simp only [perform] at h
      split at h
      · exact (finish h).elim
      · cases h
        cases hend
  | invoke name body args =>
      simp only [perform] at h
      split at h
      · exact (finish h).elim
      · rename_i hne _
        cases h
        exact absurd hend hne
  | define name body =>
      simp only [perform] at h
      split at h
      · exact (finish h).elim
      · rename_i hne _
        cases h
        exact absurd hend hne
  | declare sort names =>
      obtain ⟨e, he⟩ := exists_failed_of_declare h
      rw [he] at hend
      cases hend
  | finish result => exact ⟨result, rfl⟩

/-- Before a statement, a run finishes only where nothing is left of the text. -/
theorem skipGap_of_request_finished (h : request host f m = .error o) (hend : o.ending = .finished) :
    ∃ s, f.takeJump.2 = .before s ∧ skipGap s = [] := by
  unfold request at h
  split at h
  · cases h
    cases hend
  rcases hjump : f.takeJump with ⟨start, point⟩
  rw [hjump] at h
  cases point with
  | inside text =>
      cases h
      cases hend
  | before s =>
      refine ⟨s, rfl, ?_⟩
      dsimp only at h
      split at h
      · rename_i rest hl
        cases h
        dsimp only at hend
        split at hend
        · rename_i hrest
          rw [readLeading_skipGap, hrest] at hl
          exact skipGap_eq_nil_of_nothing hl
        · cases hend
      · cases h
        cases hend
      · split at h
        · cases h
          cases hend
        · cases h

/-- A run finishes where nothing is left of the text, or with one of the two statements. -/
theorem finished_of_step_stop (h : step host callee depth f m = .stop o)
    (hend : o.ending = .finished) :
    ∃ s, f.takeJump.2 = .before s ∧
      (skipGap s = [] ∨ ∃ k rest, readLeading s = (.keyword k, rest) ∧
        (k = .returnValue ∨ k = .exit)) := by
  rw [step_eq] at h
  cases hreq : request host f m with
  | error o' =>
      rw [hreq] at h
      cases h
      obtain ⟨s, hs, hnil⟩ := skipGap_of_request_finished hreq hend
      exact ⟨s, hs, .inl hnil⟩
  | ok asked =>
      obtain ⟨a, g, n⟩ := asked
      rw [hreq] at h
      obtain ⟨result, rfl⟩ := exists_finish_of_perform h hend
      obtain ⟨s, k, rest, _, hpoint, hl, hread, -⟩ := reading_of_request hreq
      rw [readLeading_skipGap] at hl
      exact ⟨s, hpoint, .inr ⟨k, rest, hl, asksFor_of_statement hread⟩⟩

end

/-- A run that finishes has a last moment in its frame. -/
theorem exists_last_moment {host : Host ω σ} {P : List Char → Prop} {T : Point → Prop}
    {steps depth : Nat} {f : Frame ω} {m : Machine ω σ} (hP : ∀ mode, LeadsOn mode P T)
    (hf : f.Meets P T) (h : (run host steps depth f m).ending = .finished) :
    ∃ M ∈ moments host steps depth f m, M.frame.Meets P T ∧
      ∃ callee o, step host callee depth M.frame M.machine = .stop o ∧ o.ending = .finished := by
  induction steps generalizing f m with
  | zero => cases h
  | succ steps ih =>
      rw [run] at h
      cases hstep : step host (run host steps (depth + 1)) depth f m with
      | stop o =>
          rw [hstep] at h
          exact ⟨⟨f, m⟩, mem_moments_self .., hf, _, o, hstep, h⟩
      | next f' m' =>
          rw [hstep] at h
          obtain ⟨M, hM, hlast⟩ := ih (meets_of_step (hP f.mode) hf hstep) h
          exact ⟨M, mem_moments_of_next hstep hM, hlast⟩

namespace Interpreter

/-- A run of a script in which the words `return` and `exit` do not stand finishes only if the script
ends with a terminator, up to a gap, or if the last thing that the run does is to jump over the second
branch of a conditional to the end of the script. The jump does not look at what stands behind the
closing keyword. -/
theorem endsTerminated_of_evaluate (i : Interpreter ω σ) (steps : Nat) (script : String)
    (params : Option (List Float)) (hreturn : ¬ "return".toList <:+: script.toList)
    (hexit : ¬ "exit".toList <:+: script.toList)
    (h : (i.evaluate steps script params).1 = .finished) :
    EndsTerminated script.toList ∨
      ∃ M ∈ i.moments steps script params, M.LandsAtEnd script.toList := by
  by_cases hblank : skipGap script.toList = []
  · rw [i.evaluate_of_blank steps params hblank] at h
    cases h
  rw [i.evaluate_of_not_blank steps params hblank] at h
  have hstart : Frame.Meets (IsAhead script.toList) (Point.IsLanding script.toList)
      ({ rest := skipGap script.toList, params } : Frame ω) := by
    refine ⟨⟨⟨skipGap_suffix _, ?_⟩, fun hnil => ?_⟩, List.forall_mem_nil _⟩
    · rw [laterStatements_skipGap]
      exact List.Subset.refl _
    · rw [skipGap_skipGap] at hnil
      exact absurd hnil hblank
  -- the last moment of the frame of the script
  obtain ⟨M, hM, hmeets, callee, o, hstep, hend⟩ :=
    exists_last_moment (fun mode => leadsOn_isAhead mode script.toList) hstart h
  obtain ⟨s, hpoint, hfinish⟩ := finished_of_step_stop hstep hend
  have hplace := isPlace_of_comesTo (hmeets.comesTo hpoint)
  rcases hfinish with hnil | ⟨k, rest, hl, hk⟩
  · -- nothing is left behind the last statement, or where a jump leads
    rcases hmeets.takeJump with ⟨hahead, -, hterminated⟩ | ⟨j, hj, htrigger, htarget, hlanding⟩
    · rw [hpoint] at hahead
      cases hahead
      exact .inl (hterminated hnil)
    · rw [hpoint] at htarget
      rw [← htarget] at hlanding
      refine .inr ⟨M, ?_, j, s, hj, htrigger, htarget.symm, hlanding.2 hnil, hnil⟩
      unfold Interpreter.moments
      rwa [if_neg hblank]
  · -- neither word stands in the text
    have hword := (word_isInfix_of_readLeading hl).trans hplace.1.isInfix
    rcases hk with rfl | rfl
    · exact absurd hword hreturn
    · exact absurd hword hexit

theorem endsTerminated_of_evaluate_branches :
    let script := "var x; if 1; set x 2; else; fi;"
    ¬ "return".toList <:+: script.toList ∧ ¬ "exit".toList <:+: script.toList ∧
      (Command.interpreter.evaluate 10 script none).1 = .finished ∧
      (EndsTerminated script.toList ∨
        ∃ M ∈ Command.interpreter.moments 10 script none, M.LandsAtEnd script.toList) := by
  have hreturn : ¬ "return".toList <:+: "var x; if 1; set x 2; else; fi;".toList := by
    decide +kernel
  have hexit : ¬ "exit".toList <:+: "var x; if 1; set x 2; else; fi;".toList := by decide +kernel
  have h : (Command.interpreter.evaluate 10 "var x; if 1; set x 2; else; fi;" none).1 =
      .finished := by
    decide +kernel
  exact ⟨hreturn, hexit, h, endsTerminated_of_evaluate _ 10 _ none hreturn hexit h⟩

/-- A script that finishes though its last statement has no terminator. -/
theorem evaluate_not_endsTerminated :
    let script := "if 1; else; fi"
    ¬ "return".toList <:+: script.toList ∧ ¬ "exit".toList <:+: script.toList ∧
      (Command.interpreter.evaluate 10 script none).1 = .finished ∧
      ¬ EndsTerminated script.toList := by
  have hlater : ∀ s ∈ laterStatements "if 1; else; fi".toList, skipGap s ≠ [] := by decide +kernel
  refine ⟨by decide +kernel, by decide +kernel, by decide +kernel, ?_⟩
  rintro ⟨_, gap, -, hmem, hgap⟩
  exact hlater gap hmem hgap

end Interpreter

end NumScript.Script
