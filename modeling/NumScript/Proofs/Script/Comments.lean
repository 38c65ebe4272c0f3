import NumScript.Proofs.Script.Rewriting

set_option autoImplicit false

/-! # Comments as blanks

A comment is meant to be a gap like any other. Around words, separators and terminators it is one:
the readers pass a gap there in one go, whatever it consists of. So a script and the script with one
blank for each comment are alike (`alike_uncomment`).

Inside an expression it is not. A comment is cut out of a parameter together with the rest of the gap
it belongs to, so one right behind a character joins it with what follows. `1# one` and `2` on the
next line together are the number `12` (`Interpreter.exists_evaluate_uncomment_ne`). Where no
parameter has a comment alone between two characters that would run into one token, the script does
the same as with blanks (`Interpreter.evaluate_uncomment`).

Parameters are read from where a run may come to a statement. That is the start of the script, or
right behind a terminator, and in both cases the comments of the statement show what will be cut
out. There is one place more: a jump over a second branch leads one character behind a `fi`, also
where that character is no terminator. So what is read from there has to stand apart as well.
-/

namespace NumScript.Script

variable {ω σ : Type}

/-! ## Texts without comments

The condition is a test that goes over a parameter once. It stops at the end of the parameter, so
the comments of a statement that stand at words, separators or terminators do not count. -/

/-- The text with one blank for each comment; the newline after a comment stays. With `inComment`
the text starts inside a comment. -/
def uncommentFrom (inComment : Bool) : List Char → List Char
  | [] => []
  | c :: rest =>
    if inComment then
      if c = '\n' then c :: uncommentFrom false rest else uncommentFrom true rest
    else if c = '#' then ' ' :: uncommentFrom true rest
    else c :: uncommentFrom false rest

def uncomment (text : List Char) : List Char :=
  uncommentFrom false text

/-- Whether the comments stand apart in the rest of a parameter, after the character `last` and a
gap that starts with `gap`: no gap between two characters that would run into one token starts with
a comment. With `inComment` the text starts inside a comment. -/
def standApartFrom (last : Option Char) (gap : Gap) (inComment : Bool) : List Char → Bool
  | [] => true
  | c :: rest =>
    if inComment then standApartFrom last gap (c != '\n') rest
    else if Text.isBlank c then
      standApartFrom last (if gap = .closed then .open else gap) false rest
    else if c = '#' then standApartFrom last (if gap = .closed then .comment else gap) true rest
    else if c = ';' ∨ c = ',' then true
    else
      (gap != .comment || !last.any (needsSpace · c)) && standApartFrom (some c) .closed false rest

/-- In each parameter of the statement that the text starts with, the comments stand apart. -/
def paramsStandApart (text : List Char) : Bool :=
  match readLeading text with
  | (.keyword k, ahead) => (paramStarts ahead k).all (standApartFrom none .closed false)
  | _ => true

/-- What stands one character behind the closing keyword of a conditional, if the text starts with
that keyword. -/
def behindFi? (text : List Char) : Option (List Char) :=
  match readLeading text with
  | (.keyword .fi, _ :: rest) => some rest
  | _ => none

/-- In every parameter that a run of the text may read, the comments stand apart. -/
def CommentsStandApart (text : List Char) : Prop :=
  ∀ u ∈ text :: laterStatements text,
    paramsStandApart u = true ∧ (behindFi? u).all paramsStandApart = true

instance (text : List Char) : Decidable (CommentsStandApart text) :=
  inferInstanceAs (Decidable (∀ _ ∈ _, _))

/-! ## One character at a time

The equations of the two functions for a character of each kind. The rest of the proofs go by these.
-/

section

variable {c : Char}

theorem uncomment_cons (hhash : c ≠ '#') (t : List Char) :
    uncomment (c :: t) = c :: uncomment t := by
  simp [uncomment, uncommentFrom, hhash]

theorem uncommentFrom_of_ne_newline (hc : c ≠ '\n') (t : List Char) :
    uncommentFrom true (c :: t) = uncommentFrom true t := by
  simp [uncommentFrom, hc]

variable (last : Option Char) (t : List Char)

theorem standApartFrom_of_blank (hblank : Text.isBlank c = true) {gap : Gap}
    (hgap : gap ≠ .closed) :
    standApartFrom last gap false (c :: t) = standApartFrom last gap false t ∧
      standApartFrom last .closed false (c :: t) = standApartFrom last .open false t := by
  simp [standApartFrom, hblank, hgap]

theorem standApartFrom_of_hash {gap : Gap} (hgap : gap ≠ .closed) :
    standApartFrom last gap false ('#' :: t) = standApartFrom last gap true t := by
  cases gap with
  | closed => exact absurd rfl hgap
  | «open» | comment => rfl

theorem standApartFrom_of_visible (hblank : Text.isBlank c = false) (hhash : c ≠ '#')
    (hend : ¬ (c = ';' ∨ c = ',')) (gap : Gap) :
    standApartFrom last gap false (c :: t) = true ↔
      (gap = .comment → last.any (needsSpace · c) = false) ∧
        standApartFrom (some c) .closed false t = true := by
  simp only [standApartFrom, Bool.false_eq_true, if_false, hblank, hhash, hend, Bool.and_eq_true,
    Bool.or_eq_true, bne_iff_ne, Bool.not_eq_true', ne_eq]
  rw [← Decidable.imp_iff_not_or]

end

/-! ## Gaps

A gap of the one text is a gap of the other, which starts with a blank where the first starts with a
comment. So the two texts are alike, but they are not strictly alike. -/

theorem skipGap_uncommentFrom (inComment : Bool) (t : List Char) :
    skipGap (uncommentFrom inComment t) = uncomment (skipGapFrom inComment t) := by
  induction t generalizing inComment with
  | nil => rfl
  | cons c t ih =>
      cases inComment with
      | true =>
          by_cases hc : c = '\n'
          · subst hc
            exact ih false
          · rw [uncommentFrom_of_ne_newline hc, skipGapFrom_of_ne_newline hc, ih true]
      | false =>
          by_cases hhash : c = '#'
          · subst hhash
            exact ih true
          change skipGap (uncomment (c :: t)) = uncomment (skipGap (c :: t))
          rw [uncomment_cons hhash]
          cases hblank : Text.isBlank c with
          | true =>
              rw [skipGap_cons_blank hblank, skipGap_cons_blank hblank]
              exact ih false
          | false =>
              rw [skipGap_cons_of_visible hblank hhash, skipGap_cons_of_visible hblank hhash,
                uncomment_cons hhash]

theorem skipGap_uncomment (t : List Char) : skipGap (uncomment t) = uncomment (skipGap t) :=
  skipGap_uncommentFrom false t

/-- A gap that starts with a comment then starts with a blank, any other starts in the same way. -/
theorem lead_uncomment (t : List Char) :
    lead (uncomment t) = if lead t = .comment then .open else lead t := by
  cases t with
  | nil => rfl
  | cons c t =>
      by_cases hhash : c = '#'
      · rw [hhash]
        rfl
      · have hlead : lead (uncomment (c :: t)) = lead (c :: t) := by
          rw [uncomment_cons hhash, lead, lead]
        rw [hlead, if_neg]
        rw [lead]
        split <;> simp

theorem lead_uncomment_closed_iff (t : List Char) :
    lead (uncomment t) = .closed ↔ lead t = .closed := by
  rw [lead_uncomment]
  split
  · simp [*]
  · rfl

/-- A script is alike to the one with blanks for its comments. -/
theorem alike_uncomment (last : Option Char) (t : List Char) : Alike false last t (uncomment t) := by
  cases hskip : skipGap t with
  | nil => exact .nil hskip (by rw [skipGap_uncomment, hskip]; rfl)
  | cons c r =>
      have hlt := length_lt_of_skipGap hskip
      have hskip' : skipGap (uncomment t) = c :: uncomment r := by
        rw [skipGap_uncomment, hskip, uncomment_cons (visible_of_skipGap hskip).2]
      exact .cons hskip hskip' (.inl (lead_uncomment_closed_iff t).symm)
        (alike_uncomment (some c) r)
termination_by t.length

/-! ## Statements

Terminators inside of comments are gone with them, and the others stay, so the statements of the one
text are those of the other with blanks for their comments. -/

theorem laterStatements_uncommentFrom (inComment : Bool) (t : List Char) :
    laterStatements (uncommentFrom inComment t) = (statementsFrom inComment t).map uncomment := by
  induction t generalizing inComment with
  | nil => rfl
  | cons c t ih =>
      cases inComment with
      | true =>
          by_cases hc : c = '\n'
          · subst hc
            exact ih false
          · rw [uncommentFrom_of_ne_newline hc, statementsFrom_of_ne_newline hc, ih true]
      | false =>
          by_cases hhash : c = '#'
          · subst hhash
            exact ih true
          change laterStatements (uncomment (c :: t)) = (laterStatements (c :: t)).map uncomment
          rw [uncomment_cons hhash]
          by_cases hsemi : c = ';'
          · subst hsemi
            exact congrArg _ (ih false)
          · rw [laterStatements_cons_of_ne _ hsemi hhash, laterStatements_cons_of_ne t hsemi hhash]
            exact ih false

theorem uncommentFrom_append {inComment : Bool} {x : List Char} (t : List Char)
    (hx : [] ∈ statementsFrom inComment x) :
    uncommentFrom inComment (x ++ t) = uncommentFrom inComment x ++ uncomment t := by
  induction x generalizing inComment with
  | nil => cases hx
  | cons c x ih =>
      rw [List.cons_append]
      cases inComment with
      | true =>
          by_cases hc : c = '\n'
          · subst hc
            exact congrArg _ (ih hx)
          · rw [statementsFrom_of_ne_newline hc] at hx
            rw [uncommentFrom_of_ne_newline hc, uncommentFrom_of_ne_newline hc, ih hx]
      | false =>
          by_cases hhash : c = '#'
          · subst hhash
            exact congrArg _ (ih hx)
          change uncomment (c :: (x ++ t)) = uncomment (c :: x) ++ uncomment t
          rw [uncomment_cons hhash, uncomment_cons hhash, List.cons_append]
          by_cases hsemi : c = ';'
          · subst hsemi
            rcases List.mem_cons.1 hx with hnil | hx
            · rw [← hnil]
              rfl
            · exact congrArg _ (ih hx)
          · rw [statementsFrom_cons_of_ne x hsemi hhash] at hx
            exact congrArg _ (ih hx)

/-! ## Parameters

Where the condition holds, the blank that replaces a comment stands between two characters that may
stand side by side, or a gap was there already. So the two parameters are spread alike, and this is
where the condition is used. -/

/-- A gap is passed in one go. -/
theorem standApartFrom_skipGapFrom (last : Option Char) {gap : Gap} (hgap : gap ≠ .closed)
    (inComment : Bool) (t : List Char) :
    standApartFrom last gap inComment t =
      standApartFrom last gap false (skipGapFrom inComment t) := by
  induction t generalizing inComment with
  | nil => rfl
  | cons c t ih =>
      cases inComment with
      | true => exact ih (c != '\n')
      | false =>
          by_cases hhash : c = '#'
          · subst hhash
            rw [standApartFrom_of_hash last t hgap]
            exact ih true
          change _ = standApartFrom last gap false (skipGap (c :: t))
          cases hblank : Text.isBlank c with
          | true =>
              rw [(standApartFrom_of_blank last t hblank hgap).1, skipGap_cons_blank hblank]
              exact ih false
          | false => rw [skipGap_cons_of_visible hblank hhash]

theorem standApartFrom_closed (last : Option Char) (t : List Char) :
    standApartFrom last .closed false t = standApartFrom last (lead t) false (skipGap t) := by
  cases t with
  | nil => rfl
  | cons c t =>
      by_cases hhash : c = '#'
      · subst hhash
        exact standApartFrom_skipGapFrom last (by decide : Gap.comment ≠ .closed) true t
      cases hblank : Text.isBlank c with
      | true =>
          rw [(standApartFrom_of_blank last t hblank (by decide : Gap.open ≠ .closed)).2,
            lead_of_blank hblank, skipGap_cons_blank hblank]
          exact standApartFrom_skipGapFrom last (by decide) false t
      | false => rw [lead_of_visible hblank hhash, skipGap_cons_of_visible hblank hhash]

/-- What the condition says, from one character of a parameter to the next. -/
theorem standApartFrom_iff {last : Option Char} {t r : List Char} {c : Char}
    (hskip : skipGap t = c :: r) (hend : ¬ (c = ';' ∨ c = ',')) :
    standApartFrom last .closed false t = true ↔
      (lead t = .comment → last.any (needsSpace · c) = false) ∧
        standApartFrom (some c) .closed false r = true := by
  obtain ⟨hblank, hhash⟩ := visible_of_skipGap hskip
  rw [standApartFrom_closed, hskip, standApartFrom_of_visible last r hblank hhash hend]

/-- At the start of a parameter any gap may stand. -/
theorem standApartFrom_skipGap {t : List Char} (h : standApartFrom none .closed false t = true) :
    standApartFrom none .closed false (skipGap t) = true := by
  cases hskip : skipGap t with
  | nil => rfl
  | cons c r =>
      have hskip' : skipGap (c :: r) = c :: r := by rw [← hskip, skipGap_skipGap]
      by_cases hend : c = ';' ∨ c = ','
      · rcases hend with rfl | rfl <;> rfl
      · exact (standApartFrom_iff hskip' hend).2
          ⟨fun _ => rfl, ((standApartFrom_iff hskip hend).1 h).2⟩

/-- A blank takes the place of a comment only where none is needed. -/
theorem spreadAlike_uncomment {last : Option Char} {t : List Char}
    (h : standApartFrom last .closed false t = true) : SpreadAlike last t (uncomment t) := by
  cases hskip : skipGap t with
  | nil => exact .of_nil hskip (by rw [skipGap_uncomment, hskip]; rfl)
  | cons c r =>
      have hlt := length_lt_of_skipGap hskip
      have hskip' : skipGap (uncomment t) = c :: uncomment r := by
        rw [skipGap_uncomment, hskip, uncomment_cons (visible_of_skipGap hskip).2]
      by_cases hend : c = ';' ∨ c = ','
      · exact .of_end hskip hskip' hend
      · obtain ⟨hneeds, hr⟩ := (standApartFrom_iff hskip hend).1 h
        refine .of_cons hskip hskip' hend ?_ (spreadAlike_uncomment hr)
        by_cases hlead : lead t = .comment
        · refine .inr ?_
          rintro b rfl
          simpa using hneeds hlead
        · rw [lead_uncomment, if_neg hlead]
          exact .inl Iff.rfl
termination_by t.length

theorem spread_uncomment {p : List Char} (h : standApartFrom none .closed false p = true) :
    Expr.Spread none (readParam p).1 (readParam (uncomment p)).1 := by
  apply SpreadAlike.readParam
  rw [skipGap_uncomment]
  exact spreadAlike_uncomment (standApartFrom_skipGap h)

/-! ## What the readers leave

The readers leave of the text with blanks what they leave of the other, with blanks again. So the
parameters of a statement start at places that correspond. -/

theorem word_uncomment (t : List Char) :
    (uncomment t).takeWhile Expr.isWordChar = t.takeWhile Expr.isWordChar ∧
      (uncomment t).dropWhile Expr.isWordChar = uncomment (t.dropWhile Expr.isWordChar) := by
  induction t with
  | nil => exact ⟨rfl, rfl⟩
  | cons c t ih =>
      by_cases hhash : c = '#'
      · subst hhash
        exact ⟨rfl, rfl⟩
      · rw [uncomment_cons hhash]
        by_cases hc : Expr.isWordChar c = true
        · rw [List.takeWhile_cons_of_pos hc, List.takeWhile_cons_of_pos hc,
            List.dropWhile_cons_of_pos hc, List.dropWhile_cons_of_pos hc, ih.1]
          exact ⟨rfl, ih.2⟩
        · rw [List.takeWhile_cons_of_neg hc, List.takeWhile_cons_of_neg hc,
            List.dropWhile_cons_of_neg hc, List.dropWhile_cons_of_neg hc, uncomment_cons hhash]
          exact ⟨rfl, rfl⟩

theorem readWord_uncomment (t : List Char) :
    readWord (uncomment t) = ((readWord t).1, uncomment (readWord t).2) := by
  unfold readWord
  dsimp only
  rw [skipGap_uncomment, (word_uncomment _).1, (word_uncomment _).2, skipGap_uncomment]

theorem readLeading_uncomment (t : List Char) :
    readLeading (uncomment t) = ((readLeading t).1, uncomment (readLeading t).2) := by
  rw [readLeading_eq, readLeading_eq, readWord_uncomment]

theorem ahead_readParam_uncomment (t : List Char) :
    (readParam (uncomment t)).2 = uncomment (readParam t).2 := by
  cases hskip : skipGap t with
  | nil =>
      have hskip' : skipGap (uncomment t) = [] := by rw [skipGap_uncomment, hskip]; rfl
      rw [readParam_of_nil hskip, readParam_of_nil hskip']
      rfl
  | cons c r =>
      have hlt := length_lt_of_skipGap hskip
      have hhash := (visible_of_skipGap hskip).2
      have hskip' : skipGap (uncomment t) = c :: uncomment r := by
        rw [skipGap_uncomment, hskip, uncomment_cons hhash]
      by_cases hend : c = ';' ∨ c = ','
      · rw [readParam_of_end hskip hend, readParam_of_end hskip' hend]
        exact (uncomment_cons hhash r).symm
      · rw [readParam_of_cons hskip hend, readParam_of_cons hskip' hend]
        dsimp only
        rw [← ahead_readParam, ← ahead_readParam]
        exact ahead_readParam_uncomment r
termination_by t.length

theorem afterSeparator?_uncomment (t : List Char) :
    afterSeparator? (uncomment t) = (afterSeparator? t).map uncomment := by
  cases t with
  | nil => rfl
  | cons c t =>
      by_cases hhash : c = '#'
      · subst hhash
        rfl
      · rw [uncomment_cons hhash]
        by_cases hc : c = ','
        · subst hc
          rfl
        · simp [afterSeparator?, hc]

theorem keptByReading_uncomment : KeptByReading fun s s' => s' = uncomment s where
  word := by
    rintro s _ rfl
    rw [readWord_uncomment]
  isTerminated := by
    rintro s _ rfl
    exact (alike_uncomment none s).readWord.2.isTerminated_eq (skipGap_skipGap _)
      (skipGap_skipGap _)
  separator := by
    rintro s _ rfl
    rw [ahead_readParam_uncomment, afterSeparator?_uncomment]
    cases afterSeparator? (readParam s).2 with
    | none => exact .none
    | some next => exact .some rfl

theorem paramStarts_uncomment (t : List Char) (k : Keyword) :
    paramStarts (uncomment t) k = (paramStarts t k).map uncomment :=
  eq_map_of_forall₂ (keptByReading_uncomment.paramStarts rfl k)

theorem readAlike_uncomment {t : List Char} (h : paramsStandApart t = true) :
    ReadAlike t (uncomment t) := by
  intro k rest hread
  rw [paramsStandApart, hread] at h
  rw [readLeading_uncomment, hread, paramStarts_uncomment, SameParams,
    List.forall₂_map_right_iff, List.forall₂_same]
  exact fun p hp => spread_uncomment (List.all_eq_true.1 h p hp)

theorem readLeading_of_behindFi? {t r : List Char} (h : behindFi? t = some r) :
    ∃ c, readLeading t = (.keyword .fi, c :: r) := by
  unfold behindFi? at h
  split at h
  · rename_i c _ hl
    cases h
    exact ⟨c, hl⟩
  · cases h

/-- A word is not followed by a gap, since the gap has been passed. -/
theorem ne_hash_of_readLeading {t r : List Char} {leading : Leading} {c : Char}
    (h : readLeading t = (leading, c :: r)) : c ≠ '#' := by
  have hskip := skipGap_readWord t
  rw [readLeading_eq] at h
  rw [congrArg Prod.snd h] at hskip
  exact (visible_of_skipGap hskip).2

theorem CommentsStandApart.textTwins {t : List Char} (h : CommentsStandApart t) :
    TextTwins t (uncomment t) := by
  have hmem {u u' : List Char} (hu : (u, u') ∈ twins t (uncomment t)) :
      u' = uncomment u ∧ u ∈ laterStatements t := by
    rw [twins, show laterStatements (uncomment t) = _ from laterStatements_uncommentFrom false t]
      at hu
    exact mem_zip_map hu
  refine ⟨alike_uncomment none t, readAlike_uncomment (h t (.head _)).1, fun hu => ?_,
    fun {u u' c r r'} hu hl hl' => ?_⟩
  · obtain ⟨rfl, hlater⟩ := hmem hu
    exact readAlike_uncomment (h _ (.tail _ hlater)).1
  · obtain ⟨rfl, hlater⟩ := hmem hu
    have hbehind := (h u (.tail _ hlater)).2
    rw [readLeading_uncomment, hl, uncomment_cons (ne_hash_of_readLeading hl)] at hl'
    cases hl'
    rw [behindFi?, hl] at hbehind
    exact readAlike_uncomment hbehind

/-! ## Parts of a text

The condition has to hold of the texts of subroutines as well. It is asked for at every statement of
the script, those inside a definition included, and a statement of a body is read alone as it is
read in the script. -/

theorem IsClosed.of_cons {c : Char} {r : List Char} (h : IsClosed (c :: r)) (hhash : c ≠ '#') :
    r = [] ∨ IsClosed r := by
  by_cases hsemi : c = ';'
  · rw [hsemi, IsClosed, laterStatements_terminator] at h
    exact (List.mem_cons.1 h).imp_left Eq.symm
  · rw [IsClosed, laterStatements_cons_of_ne r hsemi hhash] at h
    exact .inr h

theorem paramsStandApart_skipGap (t : List Char) :
    paramsStandApart (skipGap t) = paramsStandApart t := by
  rw [paramsStandApart, paramsStandApart, readLeading_skipGap]

theorem behindFi?_skipGap (t : List Char) : behindFi? (skipGap t) = behindFi? t := by
  rw [behindFi?, behindFi?, readLeading_skipGap]

theorem standApartFrom_of_append {last : Option Char} {gap : Gap} {inComment : Bool}
    {p t : List Char} (h : standApartFrom last gap inComment (p ++ t) = true) :
    standApartFrom last gap inComment p = true := by
  induction p generalizing last gap inComment with
  | nil => rfl
  | cons c p ih =>
      rw [List.cons_append, standApartFrom] at h
      rw [standApartFrom]
      by_cases hin : inComment = true
      · rw [if_pos hin] at h ⊢
        exact ih h
      rw [if_neg hin] at h ⊢
      by_cases hblank : Text.isBlank c = true
      · rw [if_pos hblank] at h ⊢
        exact ih h
      rw [if_neg hblank] at h ⊢
      by_cases hhash : c = '#'
      · rw [if_pos hhash] at h ⊢
        exact ih h
      rw [if_neg hhash] at h ⊢
      by_cases hend : c = ';' ∨ c = ','
      · rw [if_pos hend]
      · rw [if_neg hend, Bool.and_eq_true] at h ⊢
        exact ⟨h.1, ih h.2⟩

/-- A statement that ends with a terminator is read alone. -/
theorem paramsStandApart_of_append {s t : List Char} (hs : s = [] ∨ IsClosed s)
    (h : paramsStandApart (s ++ t) = true) : paramsStandApart s = true := by
  rcases hs with rfl | hs
  · rfl
  cases hl : readLeading s with
  | mk leading ahead =>
      have hahead : IsClosed ahead := by rwa [IsClosed, laterStatements_readLeading hl]
      rw [paramsStandApart, readLeading_append t hl hahead.ne_nil] at h
      rw [paramsStandApart, hl]
      cases leading with
      | nothing | unknown _ => rfl
      | keyword k =>
          dsimp only at h ⊢
          rw [paramStarts_append hahead, List.all_map] at h
          exact List.all_eq_true.2 fun p hp =>
            standApartFrom_of_append (List.all_eq_true.1 h p hp)

theorem behindFi?_of_append {s t : List Char} (hs : s = [] ∨ IsClosed s)
    (h : (behindFi? (s ++ t)).all paramsStandApart = true) :
    (behindFi? s).all paramsStandApart = true := by
  rcases hs with rfl | hs
  · rfl
  cases hb : behindFi? s with
  | none => rfl
  | some r =>
      obtain ⟨c, hl⟩ := readLeading_of_behindFi? hb
      have hahead : IsClosed (c :: r) := by rwa [IsClosed, laterStatements_readLeading hl]
      rw [behindFi?, readLeading_append t hl hahead.ne_nil] at h
      exact paramsStandApart_of_append (hahead.of_cons (ne_hash_of_readLeading hl)) h

theorem CommentsStandApart.of_mem {t u : List Char} (h : CommentsStandApart t)
    (hu : u ∈ laterStatements t) : CommentsStandApart u := by
  intro v hv
  rcases List.mem_cons.1 hv with rfl | hv
  · exact h v (.tail _ hu)
  · exact h v (.tail _ (mem_laterStatements_trans hu hv))

theorem CommentsStandApart.of_append {x t : List Char} (h : CommentsStandApart (x ++ t))
    (hx : IsClosed x) : CommentsStandApart x := by
  intro u hu
  have hclosed : u = [] ∨ IsClosed u := by
    rcases List.mem_cons.1 hu with rfl | hu
    · exact .inr hx
    · exact hx.of_mem hu
  have hmem : u ++ t ∈ (x ++ t) :: laterStatements (x ++ t) := by
    rw [hx.laterStatements_append]
    rcases List.mem_cons.1 hu with rfl | hu
    · exact .head _
    · exact .tail _ (List.mem_append_left _ (List.mem_map_of_mem hu))
  exact ⟨paramsStandApart_of_append hclosed (h _ hmem).1, behindFi?_of_append hclosed (h _ hmem).2⟩

theorem CommentsStandApart.of_skipGap {t : List Char} (h : CommentsStandApart t) :
    CommentsStandApart (skipGap t) := by
  intro u hu
  rw [laterStatements_skipGap] at hu
  rcases List.mem_cons.1 hu with rfl | hu
  · rw [paramsStandApart_skipGap, behindFi?_skipGap]
    exact h t (.head _)
  · exact h u (.tail _ hu)

theorem rewriter_uncomment : Rewriter CommentsStandApart uncomment where
  texts h := h.textTwins
  laterStatements _ := laterStatements_uncommentFrom false _
  append _ hx := uncommentFrom_append _ hx
  skipGap _ := skipGap_uncomment _
  map_nil := rfl
  nil := by decide
  of_mem h hu := h.of_mem hu
  of_append h hx := h.of_append hx
  of_skipGap h := h.of_skipGap

/-! ## Runs

The earlier subroutines stay as they are in both runs, so nothing is asked of their comments. -/

/-- A script in which the comments of parameters stand apart, and the script with one blank for each
comment, end alike and leave the same world and the same last result. -/
theorem Interpreter.evaluate_uncomment (i : Interpreter ω σ) (steps : Nat) (script : String)
    (hscript : CommentsStandApart script.toList) (params : Option (List Float)) :
    let o := i.evaluate steps script params
    let o' := i.evaluate steps (String.ofList (uncomment script.toList)) params
    o.1.SameCode o'.1 ∧ o.2.machine.world = o'.2.machine.world ∧
      o.2.machine.lastReturn = o'.2.machine.lastReturn := by
  obtain ⟨hending, hmachine⟩ := rewriter_uncomment.evaluate i steps hscript params
  exact ⟨hending, hmachine.world, hmachine.lastReturn⟩

/-- The main statement for comments around all tokens of a script: right behind keywords, names and
separators, and inside an expression. -/
theorem Interpreter.evaluate_uncomment_set :
    let i : Interpreter Unit Unit := .ofWorld { notify := fun _ _ w => w }
      { root := ⟨[("x", Variable.zero .number)]⟩, state := () } {}
    let script := "# count; \nset# one\nx# two\n x + # three\n 1;# four\nif# five\nx;set x 2;fi;"
    let uncommented := " \nset \nx \n x +  \n 1; \nif \nx;set x 2;fi;"
    CommentsStandApart script.toList ∧
      String.ofList (uncomment script.toList) = uncommented ∧
      (i.evaluate 10 script none).1.SameCode (i.evaluate 10 uncommented none).1 ∧
      (i.evaluate 10 script none).2.machine.world =
        (i.evaluate 10 uncommented none).2.machine.world := by
  intro i script uncommented
  have hscript : CommentsStandApart script.toList := by decide +kernel
  have huncommented : String.ofList (uncomment script.toList) = uncommented := by decide +kernel
  obtain ⟨hending, hworld, -⟩ := Interpreter.evaluate_uncomment i 10 script hscript none
  rw [huncommented] at hending hworld
  exact ⟨hscript, huncommented, hending, hworld⟩

/-- A comment can join two numbers that a blank keeps apart. -/
theorem Interpreter.exists_evaluate_uncomment_ne :
    let i : Interpreter Unit Unit := .ofWorld { notify := fun _ _ w => w }
      { root := ⟨[("x", Variable.zero .number)]⟩, state := () } {}
    let script := "set x 1# one\n2;"
    (i.evaluate 10 script none).1 = .finished ∧
      (i.evaluate 10 (String.ofList (uncomment script.toList)) none).1 =
        .failed (.badExpression "1 \n2" (.missingOperator 2)) := by
  decide +kernel

end NumScript.Script
