import Mathlib.Data.List.Forall2
import NumScript.Proofs.Expr.Spread
import NumScript.Proofs.Script.Terminators

set_option autoImplicit false

/-! # Texts that differ in their gaps

Two texts are *alike* if they are the same but for their gaps, and if between two characters that
would run into one token there is a gap in both or in neither. How the gaps start and go on does not
matter for words: a word ends where any gap starts. So from texts that are alike the readers read the
same words, come to the same terminators and leave texts that are alike.

Expressions ask for more. A parameter keeps the blanks a gap starts with, but neither a comment nor
what follows it. Texts are *strictly* alike if the gaps between such characters also start in the
same way: there is none, or it starts with a blank, or with a comment. From texts that are strictly
alike the readers read expressions that are spread alike (`Expr.Spread`).
-/

namespace NumScript.Script

/-! ## How a text starts

Three ways in which a text can start, as far as gaps are concerned. The minifier has the same three
states, so its recursion and the comparison of two texts go hand in hand. -/

/-- What a text starts with: a character that stays, a blank, or a comment. -/
def lead : List Char → Gap
  | [] => .closed
  | c :: _ => if Text.isBlank c then .open else if c = '#' then .comment else .closed

theorem skipGap_cons_blank {c : Char} (h : Text.isBlank c = true) (t : List Char) :
    skipGap (c :: t) = skipGap t := by
  simp [skipGap, skipGapFrom, h]

theorem skipGap_cons_hash (t : List Char) : skipGap ('#' :: t) = skipGapFrom true t :=
  rfl

theorem skipGap_cons_of_visible {c : Char} (hblank : Text.isBlank c = false) (hhash : c ≠ '#')
    (t : List Char) : skipGap (c :: t) = c :: t := by
  simp [skipGap, skipGapFrom, hblank, hhash]

/-- A comment goes on up to the end of its line. -/
theorem skipGapFrom_of_ne_newline {c : Char} (hc : c ≠ '\n') (t : List Char) :
    skipGapFrom true (c :: t) = skipGapFrom true t := by
  have hnext : (c != '\n') = true := by simpa using hc
  simp [skipGapFrom, hnext]

theorem statementsFrom_of_ne_newline {c : Char} (hc : c ≠ '\n') (t : List Char) :
    statementsFrom true (c :: t) = statementsFrom true t := by
  have hnext : (c != '\n') = true := by simpa using hc
  simp [statementsFrom, hnext]

theorem lead_of_visible {c : Char} (hblank : Text.isBlank c = false) (hhash : c ≠ '#')
    (t : List Char) : lead (c :: t) = .closed := by
  simp [lead, hblank, hhash]

theorem lead_of_blank {c : Char} (h : Text.isBlank c = true) (t : List Char) :
    lead (c :: t) = .open := by
  simp [lead, h]

theorem lead_hash (t : List Char) : lead ('#' :: t) = .comment :=
  rfl

theorem skipGap_of_lead_closed {t : List Char} (h : lead t = .closed) : skipGap t = t := by
  cases t with
  | nil => rfl
  | cons c t =>
      by_cases hblank : Text.isBlank c = true
      · simp [lead, hblank] at h
      · by_cases hhash : c = '#'
        · subst hhash
          cases h
        · exact skipGap_cons_of_visible (by simpa using hblank) hhash t

/-- After a gap stands no character of one. -/
theorem visible_of_skipGap {t r : List Char} {c : Char} (h : skipGap t = c :: r) :
    Text.isBlank c = false ∧ c ≠ '#' := by
  have hskip : skipGap (c :: r) = c :: r := by rw [← h, skipGap_skipGap]
  -- else the gap would go on
  have hlen (b : Bool) : skipGapFrom b r ≠ c :: r := by
    intro heq
    have := length_skipGapFrom_le b r
    rw [heq, List.length_cons] at this
    omega
  constructor
  · refine Bool.eq_false_iff.2 fun hblank => ?_
    rw [skipGap_cons_blank hblank] at hskip
    exact hlen false hskip
  · rintro rfl
    exact hlen true hskip

theorem lead_skipGap (t : List Char) : lead (skipGap t) = .closed := by
  cases h : skipGap t with
  | nil => rfl
  | cons c r => exact lead_of_visible (visible_of_skipGap h).1 (visible_of_skipGap h).2 r

theorem length_lt_of_skipGap {t r : List Char} {c : Char} (h : skipGap t = c :: r) :
    r.length < t.length := by
  have hle := length_skipGapFrom_le false t
  rw [show skipGapFrom false t = c :: r from h, List.length_cons] at hle
  omega

/-! ## Alike

The relation goes along both texts at once, over one character that stays in each step. What the
gaps between them consist of is left open, except for how they start where that is asked for. -/

/-- Whether two texts that start in these ways may be alike, or strictly alike. -/
def Gap.Same (strict : Bool) (g g' : Gap) : Prop :=
  if strict then g = g' else (g = .closed ↔ g' = .closed)

theorem Gap.Same.refl (strict : Bool) (g : Gap) : Gap.Same strict g g := by
  unfold Gap.Same
  split
  · rfl
  · rfl

theorem Gap.Same.closed_iff {strict : Bool} {g g' : Gap} (h : Gap.Same strict g g') :
    g = .closed ↔ g' = .closed := by
  unfold Gap.Same at h
  split at h
  · rw [h]
  · exact h

/-- `Alike strict last t t'`: after the character `last`, the two texts are alike, or strictly alike.
-/
inductive Alike (strict : Bool) : Option Char → List Char → List Char → Prop
  | nil {last : Option Char} {t t' : List Char} : skipGap t = [] → skipGap t' = [] →
      Alike strict last t t'
  | cons {last : Option Char} {t t' r r' : List Char} {c : Char} : skipGap t = c :: r →
      skipGap t' = c :: r' →
      (Gap.Same strict (lead t) (lead t') ∨ ∀ b ∈ last, needsSpace b c = false) →
      Alike strict (some c) r r' → Alike strict last t t'

namespace Alike

variable {strict : Bool} {last : Option Char} {s t t' r r' : List Char} {c : Char}

theorem of_strict (h : Alike true last t t') : Alike false last t t' := by
  induction h with
  | nil ht ht' => exact .nil ht ht'
  | cons ht ht' hor _ ih => exact .cons ht ht' (hor.imp_left fun hlead => hlead.closed_iff) ih

/-- Before the first character of a text any gap may stand. -/
theorem weaken (h : Alike strict last t t') : Alike strict none t t' := by
  cases h with
  | nil ht ht' => exact .nil ht ht'
  | cons ht ht' _ hr => exact .cons ht ht' (.inr fun _ h => by cases h) hr

theorem skipGap (h : Alike strict last t t') : Alike strict none (skipGap t) (skipGap t') := by
  cases h with
  | nil ht ht' => exact .nil (by rw [skipGap_skipGap, ht]) (by rw [skipGap_skipGap, ht'])
  | cons ht ht' _ hr =>
      exact .cons (by rw [skipGap_skipGap, ht]) (by rw [skipGap_skipGap, ht'])
        (.inr fun _ h => by cases h) hr

/-- Only the first character of a gap and what follows the gap matter. -/
theorem of_gap_left (h : Alike strict last t t') (hskip : Script.skipGap s = Script.skipGap t)
    (hlead : lead s = lead t) : Alike strict last s t' := by
  cases h with
  | nil ht ht' => exact .nil (hskip.trans ht) ht'
  | cons ht ht' hor hr => exact .cons (hskip.trans ht) ht' (by rwa [hlead]) hr

/-- One more character that stays before both texts. -/
theorem cons_visible (h : Alike strict (some c) r r') (hblank : Text.isBlank c = false)
    (hhash : c ≠ '#') : Alike strict last (c :: r) (c :: r') := by
  refine .cons (skipGap_cons_of_visible hblank hhash r) (skipGap_cons_of_visible hblank hhash r')
    (.inl ?_) h
  rw [lead_of_visible hblank hhash, lead_of_visible hblank hhash]
  exact .refl strict _

theorem refl (strict : Bool) (last : Option Char) (t : List Char) : Alike strict last t t := by
  cases h : Script.skipGap t with
  | nil => exact .nil h h
  | cons c r =>
      have := length_lt_of_skipGap h
      exact .cons h h (.inl (.refl strict _)) (refl strict (some c) r)
termination_by t.length

/-- Texts that are alike have statements that are alike. -/
theorem laterStatements (h : Alike strict last t t') :
    List.Forall₂ (Alike strict none) (laterStatements t) (laterStatements t') := by
  induction h with
  | @nil last t t' ht ht' =>
      rw [← laterStatements_skipGap t, ht, ← laterStatements_skipGap t', ht']
      exact .nil
  | @cons last t t' r r' c ht ht' _ hr ih =>
      have hvisible := visible_of_skipGap ht
      rw [← laterStatements_skipGap t, ht, ← laterStatements_skipGap t', ht']
      by_cases hc : c = ';'
      · rw [hc]
        exact .cons hr.weaken ih
      · rw [laterStatements_cons_of_ne r hc hvisible.2, laterStatements_cons_of_ne r' hc hvisible.2]
        exact ih

end Alike

/-! ## Words

A word is a run of characters that all need a space between them. A gap in one text means a gap in
the other then, and the word ends in both. -/

/-- No word starts with a gap. -/
theorem takeWhile_of_lead {p : Char → Bool} (hblank : ∀ c, Text.isBlank c = true → p c = false)
    (hhash : p '#' = false) {t : List Char} (h : lead t ≠ .closed ∨ skipGap t = []) :
    t.takeWhile p = [] ∧ t.dropWhile p = t := by
  refine Expr.takeWhile_of_head_false fun c hc => ?_
  obtain ⟨r, rfl⟩ : ∃ r, t = c :: r := by
    cases t with
    | nil => cases hc
    | cons d r => exact ⟨r, by rw [Option.some.inj hc]⟩
  by_cases hb : Text.isBlank c = true
  · exact hblank c hb
  by_cases hc : c = '#'
  · rw [hc, hhash]
  · have hb : Text.isBlank c = false := by simpa using hb
    rw [lead_of_visible hb hc, skipGap_cons_of_visible hb hc] at h
    simp at h

/-- Gaps cannot split a word: its characters need spaces between them. -/
theorem Alike.takeWhile {strict : Bool} {last : Option Char} {c : Char} {t t' : List Char}
    (h : Alike strict last t t') (hlast : last = some c) (hc : Expr.isWordChar c = true) :
    t.takeWhile Expr.isWordChar = t'.takeWhile Expr.isWordChar ∧
      Alike strict none (t.dropWhile Expr.isWordChar) (t'.dropWhile Expr.isWordChar) := by
  -- where a gap starts, a word has ended
  have hgap {t : List Char} (h : lead t ≠ .closed ∨ Script.skipGap t = []) :=
    takeWhile_of_lead (p := Expr.isWordChar) (fun _ => Expr.isWordChar_of_isBlank) (by decide) h
  induction h generalizing c with
  | nil ht ht' =>
      rw [(hgap (.inr ht)).1, (hgap (.inr ht)).2, (hgap (.inr ht')).1, (hgap (.inr ht')).2]
      exact ⟨rfl, .nil ht ht'⟩
  | @cons last t t' r r' d ht ht' hor hr ih =>
      by_cases hd : Expr.isWordChar d = true
      · have hneeds : needsSpace c d = true :=
          Expr.needsSpace_of_isMinifyWord (Expr.isMinifyWord_of_isWordChar hc)
            (Expr.isMinifyWord_of_isWordChar hd)
        have hlead : lead t = .closed ↔ lead t' = .closed := by
          refine (hor.resolve_right fun h => ?_).closed_iff
          rw [h c hlast] at hneeds
          cases hneeds
        by_cases hclosed : lead t = .closed
        · -- no gap in either text: the word goes on
          have hr' := ih rfl hd
          rw [skipGap_of_lead_closed hclosed] at ht
          rw [skipGap_of_lead_closed (hlead.1 hclosed)] at ht'
          rw [ht, ht', List.takeWhile_cons_of_pos hd, List.takeWhile_cons_of_pos hd,
            List.dropWhile_cons_of_pos hd, List.dropWhile_cons_of_pos hd, hr'.1]
          exact ⟨rfl, hr'.2⟩
        · rw [(hgap (.inl hclosed)).1, (hgap (.inl hclosed)).2,
            (hgap (.inl (mt hlead.2 hclosed))).1, (hgap (.inl (mt hlead.2 hclosed))).2]
          exact ⟨rfl, .cons ht ht' (.inr fun _ h => by cases h) hr⟩
      · -- neither text goes on with a character of a word
        have hstop {t r : List Char} (ht : Script.skipGap t = d :: r) :
            t.takeWhile Expr.isWordChar = [] ∧ t.dropWhile Expr.isWordChar = t := by
          by_cases hclosed : lead t = .closed
          · rw [skipGap_of_lead_closed hclosed] at ht
            simp [ht, hd]
          · exact hgap (.inl hclosed)
        rw [(hstop ht).1, (hstop ht).2, (hstop ht').1, (hstop ht').2]
        exact ⟨rfl, .cons ht ht' (.inr fun _ h => by cases h) hr⟩

/-- Both texts start with the same word. -/
theorem Alike.readWord {strict : Bool} {t t' : List Char} (h : Alike strict none t t') :
    (readWord t).1 = (readWord t').1 ∧ Alike strict none (readWord t).2 (readWord t').2 := by
  have hstart := h.skipGap
  unfold Script.readWord
  dsimp only
  cases h with
  | nil ht ht' =>
      rw [ht, ht']
      exact ⟨rfl, .refl strict none _⟩
  | @cons _ _ _ r r' c ht ht' _ hr =>
      rw [ht, ht'] at hstart ⊢
      by_cases hc : Expr.isWordChar c = true
      · obtain ⟨htake, hdrop⟩ := hr.takeWhile rfl hc
        rw [List.takeWhile_cons_of_pos hc, List.takeWhile_cons_of_pos hc,
          List.dropWhile_cons_of_pos hc, List.dropWhile_cons_of_pos hc, htake]
        exact ⟨rfl, hdrop.skipGap⟩
      · rw [List.takeWhile_cons_of_neg hc, List.takeWhile_cons_of_neg hc,
          List.dropWhile_cons_of_neg hc, List.dropWhile_cons_of_neg hc]
        exact ⟨rfl, hstart.skipGap⟩

/-! ## Parameters

The reader of a parameter goes over gaps in three phases: at its start, inside of it and in a
comment. In two texts that are alike it may be in different phases at characters that correspond. It
comes to the same end all the same, since an end is never part of a gap. -/

theorem readParamFrom_comment (t : List Char) :
    readParamFrom .comment t = readParam (skipGapFrom true t) :=
  (readParamFrom_skipGapFrom true t).symm

/-- A parameter ends where a gap is followed by one of `;` and `,` or by nothing. -/
theorem readParam_of_end {t r : List Char} {c : Char} (h : skipGap t = c :: r)
    (hc : c = ';' ∨ c = ',') : readParam t = ([], c :: r) := by
  rw [← readParam_skipGap, h]
  simp [readParam, readParamFrom, hc]

theorem readParam_of_nil {t : List Char} (h : skipGap t = []) : readParam t = ([], []) := by
  rw [← readParam_skipGap, h]
  rfl

theorem readParam_of_cons {t r : List Char} {c : Char} (h : skipGap t = c :: r)
    (hc : ¬ (c = ';' ∨ c = ',')) :
    readParam t = (c :: (readParamFrom .body r).1, (readParamFrom .body r).2) := by
  obtain ⟨hblank, hhash⟩ := visible_of_skipGap h
  rw [← readParam_skipGap, h]
  simp [readParam, readParamFrom, hc, hhash, hblank]

/-- Inside a parameter the blanks that a gap starts with are kept. -/
theorem readParamFrom_body (t : List Char) :
    ∃ gap, Expr.IsBlanks gap ∧ (gap = [] ↔ lead t ≠ .open) ∧
      readParamFrom .body t = (gap ++ (readParam t).1, (readParam t).2) := by
  have hnil : Expr.IsBlanks [] := fun _ h => absurd h List.not_mem_nil
  induction t with
  | nil => exact ⟨[], hnil, by simp [lead], rfl⟩
  | cons c t ih =>
      by_cases hblank : Text.isBlank c = true
      · -- one more blank is kept
        obtain ⟨gap, hgap, -, heq⟩ := ih
        refine ⟨c :: gap, ?_, by simp [lead_of_blank hblank], ?_⟩
        · intro d hd
          rcases List.mem_cons.1 hd with rfl | hd
          · exact hblank
          · exact hgap d hd
        · have hsemi : ¬ (c = ';' ∨ c = ',') := by
            rintro (rfl | rfl) <;> exact absurd hblank (by decide)
          have hhash : c ≠ '#' := by
            rintro rfl
            exact absurd hblank (by decide)
          rw [← readParam_skipGap, skipGap_cons_blank hblank, readParam_skipGap]
          simp [readParamFrom, hsemi, hhash, heq]
      by_cases hhash : c = '#'
      · -- from a comment on nothing of the gap is kept
        subst hhash
        refine ⟨[], hnil, by simp [lead_hash], ?_⟩
        rw [← readParam_skipGap, skipGap_cons_hash, ← readParamFrom_comment]
        simp [readParamFrom]
      · have hblank : Text.isBlank c = false := by simpa using hblank
        have hskip := skipGap_cons_of_visible hblank hhash t
        refine ⟨[], hnil, by simp [lead_of_visible hblank hhash], ?_⟩
        by_cases hc : c = ';' ∨ c = ','
        · rw [readParam_of_end hskip hc]
          simp [readParamFrom, hc]
        · rw [readParam_of_cons hskip hc]
          simp [readParamFrom, hc, hhash]

theorem Alike.ahead_readParamFrom {strict : Bool} {last : Option Char} {t t' : List Char}
    (h : Alike strict last t t') :
    Alike strict none (readParamFrom .body t).2 (readParamFrom .body t').2 := by
  induction h with
  | @nil last t t' ht ht' =>
      obtain ⟨_, -, -, heq⟩ := Script.readParamFrom_body t
      obtain ⟨_, -, -, heq'⟩ := Script.readParamFrom_body t'
      rw [heq, heq', readParam_of_nil ht, readParam_of_nil ht']
      exact .refl strict none []
  | @cons last t t' r r' c ht ht' hor hr ih =>
      obtain ⟨_, -, -, heq⟩ := Script.readParamFrom_body t
      obtain ⟨_, -, -, heq'⟩ := Script.readParamFrom_body t'
      rw [heq, heq']
      by_cases hc : c = ';' ∨ c = ','
      · rw [readParam_of_end ht hc, readParam_of_end ht' hc]
        exact hr.cons_visible (visible_of_skipGap ht).1 (visible_of_skipGap ht).2
      · rw [readParam_of_cons ht hc, readParam_of_cons ht' hc]
        exact ih

/-- What is ahead after a parameter is what is ahead after the rest of one. -/
theorem ahead_readParam (t : List Char) : (readParam t).2 = (readParamFrom .body t).2 := by
  obtain ⟨_, -, -, heq⟩ := Script.readParamFrom_body t
  rw [heq]

theorem Alike.readParam {strict : Bool} {t t' : List Char} (h : Alike strict none t t') :
    Alike strict none (readParam t).2 (readParam t').2 := by
  rw [ahead_readParam, ahead_readParam]
  exact h.ahead_readParamFrom

/-! ## Spread alike

What a parameter keeps of its gaps is decided by how they start. So texts that are strictly alike
start with parameters that are spread alike. Only the part up to the end of the parameter counts. -/

/-- `SpreadAlike last t t'`: after the character `last`, both texts go on with parameters that are
spread alike. -/
def SpreadAlike (last : Option Char) (t t' : List Char) : Prop :=
  Expr.Spread last (readParamFrom .body t).1 (readParamFrom .body t').1

theorem SpreadAlike.of_nil {last : Option Char} {t t' : List Char} (ht : skipGap t = [])
    (ht' : skipGap t' = []) : SpreadAlike last t t' := by
  obtain ⟨gap, hgap, -, heq⟩ := Script.readParamFrom_body t
  obtain ⟨gap', hgap', -, heq'⟩ := Script.readParamFrom_body t'
  rw [SpreadAlike, heq, heq', readParam_of_nil ht, readParam_of_nil ht', List.append_nil,
    List.append_nil]
  exact .nil hgap hgap'

section

variable {last : Option Char} {t t' r r' : List Char} {c : Char} (ht : skipGap t = c :: r)
  (ht' : skipGap t' = c :: r')

include ht ht'

theorem SpreadAlike.of_end (hc : c = ';' ∨ c = ',') : SpreadAlike last t t' := by
  obtain ⟨gap, hgap, -, heq⟩ := Script.readParamFrom_body t
  obtain ⟨gap', hgap', -, heq'⟩ := Script.readParamFrom_body t'
  rw [SpreadAlike, heq, heq', readParam_of_end ht hc, readParam_of_end ht' hc, List.append_nil,
    List.append_nil]
  exact .nil hgap hgap'

/-- One more character of the parameter. Blanks are kept on one side only if none are needed. -/
theorem SpreadAlike.of_cons (hc : ¬ (c = ';' ∨ c = ','))
    (hsame : (lead t = .open ↔ lead t' = .open) ∨ ∀ b ∈ last, needsSpace b c = false)
    (hr : SpreadAlike (some c) r r') : SpreadAlike last t t' := by
  obtain ⟨gap, hgap, hnil, heq⟩ := Script.readParamFrom_body t
  obtain ⟨gap', hgap', hnil', heq'⟩ := Script.readParamFrom_body t'
  rw [SpreadAlike, heq, heq', readParam_of_cons ht hc, readParam_of_cons ht' hc]
  refine .cons hgap hgap' (visible_of_skipGap ht).1 (hsame.imp_left fun hlead => ?_) hr
  rw [hnil, hnil', ne_eq, ne_eq, not_iff_not, hlead]

end

theorem Alike.spreadAlike {last : Option Char} {t t' : List Char} (h : Alike true last t t') :
    SpreadAlike last t t' := by
  induction h with
  | nil ht ht' => exact .of_nil ht ht'
  | @cons last t t' r r' c ht ht' hor hr ih =>
      by_cases hc : c = ';' ∨ c = ','
      · exact .of_end ht ht' hc
      · refine .of_cons ht ht' hc (hor.imp_left fun hlead => ?_) ih
        rw [show lead t = lead t' from hlead]

/-- At the start of a parameter no gap is kept. -/
theorem SpreadAlike.readParam {t t' : List Char} (h : SpreadAlike none (skipGap t) (skipGap t')) :
    Expr.Spread none (readParam t).1 (readParam t').1 := by
  obtain ⟨gap, -, hnil, heq⟩ := Script.readParamFrom_body (Script.skipGap t)
  obtain ⟨gap', -, hnil', heq'⟩ := Script.readParamFrom_body (Script.skipGap t')
  have hclosed : Gap.closed ≠ .open := by decide
  rw [SpreadAlike, heq, heq', hnil.2 (by rw [lead_skipGap]; exact hclosed),
    hnil'.2 (by rw [lead_skipGap]; exact hclosed), List.nil_append, List.nil_append,
    readParam_skipGap, readParam_skipGap] at h
  exact h

/-- A parameter ends before a `;`, before a `,` or with the text. -/
theorem readParamFrom_ahead (phase : ParamPhase) (t : List Char) :
    (readParamFrom phase t).2 = [] ∨
      ∃ c r, (readParamFrom phase t).2 = c :: r ∧ (c = ';' ∨ c = ',') := by
  induction phase, t using readParamFrom.induct with
  | case1 phase =>
      rw [readParamFrom]
      exact .inl rfl
  | case2 c rest ih =>
      rw [readParamFrom]
      exact ih
  | case3 phase c rest hphase hend =>
      rw [readParamFrom.eq_3 phase c rest hphase, if_pos hend]
      exact .inr ⟨c, rest, rfl, hend⟩
  | case4 phase rest hphase hend ih =>
      rw [readParamFrom.eq_3 phase '#' rest hphase, if_neg hend, if_pos rfl]
      exact ih
  | case5 phase c rest hphase hend hhash hgap ih =>
      rw [readParamFrom.eq_3 phase c rest hphase, if_neg hend, if_neg hhash, if_pos hgap]
      exact ih
  | case6 phase c rest hphase hend hhash hgap param ahead hread ih =>
      rw [readParamFrom.eq_3 phase c rest hphase, if_neg hend, if_neg hhash, if_neg hgap]
      exact ih

/-- What is ahead after a parameter starts with no gap. -/
theorem skipGap_readParam (t : List Char) : skipGap (readParam t).2 = (readParam t).2 := by
  rcases readParamFrom_ahead .gap t with h | ⟨c, r, h, rfl | rfl⟩ <;>
  · rw [readParam, h]
    rfl

theorem skipGap_readWord (t : List Char) : skipGap (readWord t).2 = (readWord t).2 :=
  skipGap_skipGap _

end NumScript.Script
