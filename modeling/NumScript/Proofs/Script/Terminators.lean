import NumScript.Proofs.Script.Outline

set_option autoImplicit false

/-! # Terminators and the readers

The readers go over a text from its front, and `laterStatements` finds the terminators of the whole
text at once. Here the two are brought together: no reader goes past a terminator, so the terminators
of what it leaves are those of what it was given. And a reader that does not come to the end of its
text does not see how the text goes on, so it reads the same in any longer text (`_append`).
-/

namespace NumScript.Script

/-! ## Gaps

A gap may stand anywhere between tokens, so every fact comes in the form that passing it changes
nothing: the same is ahead behind it, and the same terminators. -/

theorem skipGap_skipGapFrom (inComment : Bool) (s : List Char) :
    skipGap (skipGapFrom inComment s) = skipGapFrom inComment s := by
  fun_induction skipGapFrom inComment s with
  | case1 => rfl
  | case2 _ _ ih => exact ih
  | case3 _ _ _ _ _ ih => exact ih
  | case4 _ _ _ _ ih => exact ih
  | case5 _ c rest _ hblank hhash => simp [skipGap, skipGapFrom, hblank, hhash]

@[simp] theorem skipGap_skipGap (s : List Char) : skipGap (skipGap s) = skipGap s :=
  skipGap_skipGapFrom false s

theorem skipGapFrom_suffix (inComment : Bool) (t : List Char) : skipGapFrom inComment t <:+ t := by
  fun_induction skipGapFrom inComment t with
  | case1 => exact List.suffix_refl _
  | case2 _ _ ih => exact ih.trans (List.suffix_cons _ _)
  | case3 _ _ _ _ _ ih => exact ih.trans (List.suffix_cons _ _)
  | case4 _ _ _ _ ih => exact ih.trans (List.suffix_cons _ _)
  | case5 => exact List.suffix_refl _

theorem skipGapFrom_append {inComment : Bool} {s : List Char} (t : List Char)
    (h : skipGapFrom inComment s ≠ []) :
    skipGapFrom inComment (s ++ t) = skipGapFrom inComment s ++ t := by
  fun_induction skipGapFrom inComment s with
  | case1 => exact absurd rfl h
  | case2 c rest ih => simp [skipGapFrom, ih h]
  | case3 inComment c rest hin hblank ih => simp [skipGapFrom, hin, hblank, ih h]
  | case4 inComment rest hin hblank ih => simp [skipGapFrom, hin, hblank, ih h]
  | case5 inComment c rest hin hblank hhash => simp [skipGapFrom, hin, hblank, hhash]

theorem skipGap_append {s : List Char} (t : List Char) (h : skipGap s ≠ []) :
    skipGap (s ++ t) = skipGap s ++ t :=
  skipGapFrom_append t h

theorem statementsFrom_skipGapFrom (inComment : Bool) (s : List Char) :
    statementsFrom false (skipGapFrom inComment s) = statementsFrom inComment s := by
  fun_induction skipGapFrom inComment s with
  | case1 => rfl
  | case2 c rest ih => simp [statementsFrom, ih]
  | case3 inComment c rest hin hblank ih =>
      have hsemi : c ≠ ';' := by
        rintro rfl
        exact absurd hblank (by decide)
      have hhash : (c == '#') = false := by
        rw [beq_eq_false_iff_ne]
        rintro rfl
        exact absurd hblank (by decide)
      simp [statementsFrom, hin, hsemi, hhash, ih]
  | case4 inComment rest hin hblank ih => simp [statementsFrom, hin, ih]
  | case5 inComment c rest hin hblank hhash => simp [statementsFrom, hin]

@[simp] theorem laterStatements_skipGap (s : List Char) :
    laterStatements (skipGap s) = laterStatements s :=
  statementsFrom_skipGapFrom false s

/-! ## Words

A word is made of characters none of which is a terminator or starts a gap. To see how a text goes
on, a word would have to reach its end. -/

@[simp] theorem readWord_skipGap (s : List Char) : readWord (skipGap s) = readWord s := by
  unfold readWord
  rw [skipGap_skipGap]

@[simp] theorem readLeading_skipGap (s : List Char) : readLeading (skipGap s) = readLeading s := by
  unfold readLeading
  rw [readWord_skipGap]

def Leading.ofWord (word : List Char) : Leading :=
  if word = [] then .nothing
  else
    match Keyword.ofWord? (String.ofList word) with
    | some k => .keyword k
    | none => .unknown (String.ofList word)

theorem readLeading_eq (s : List Char) :
    readLeading s = (.ofWord (readWord s).1, (readWord s).2) := by
  unfold readLeading Leading.ofWord
  dsimp only
  split
  · rfl
  · cases Keyword.ofWord? (String.ofList (readWord s).1) <;> rfl

@[simp] theorem laterStatements_dropWhile (s : List Char) :
    laterStatements (s.dropWhile Expr.isWordChar) = laterStatements s := by
  induction s with
  | nil => rfl
  | cons c rest ih =>
      by_cases hc : Expr.isWordChar c = true
      · have hsemi : c ≠ ';' := by
          rintro rfl
          exact absurd hc (by decide)
        have hhash : (c == '#') = false := by
          rw [beq_eq_false_iff_ne]
          rintro rfl
          exact absurd hc (by decide)
        rw [List.dropWhile_cons_of_pos hc, ih]
        simp [laterStatements, statementsFrom, hsemi, hhash]
      · rw [List.dropWhile_cons_of_neg hc]

theorem laterStatements_readWord (s : List Char) :
    laterStatements (readWord s).2 = laterStatements s := by
  simp [readWord]

theorem laterStatements_readLeading {s rest : List Char} {leading : Leading}
    (h : readLeading s = (leading, rest)) : laterStatements rest = laterStatements s := by
  rw [readLeading_eq] at h
  cases h
  exact laterStatements_readWord s

theorem dropWhile_append_of_ne_nil {s : List Char} {p : Char → Bool} (t : List Char)
    (h : s.dropWhile p ≠ []) :
    (s ++ t).takeWhile p = s.takeWhile p ∧ (s ++ t).dropWhile p = s.dropWhile p ++ t := by
  induction s with
  | nil => exact absurd rfl h
  | cons c rest ih =>
      by_cases hc : p c = true
      · rw [List.dropWhile_cons_of_pos hc] at h
        obtain ⟨htake, hdrop⟩ := ih h
        simp [hc, htake, hdrop]
      · simp [hc]

theorem readWord_append {s : List Char} (t : List Char) (h : (readWord s).2 ≠ []) :
    readWord (s ++ t) = ((readWord s).1, (readWord s).2 ++ t) := by
  have hdrop : (skipGap s).dropWhile Expr.isWordChar ≠ [] := by
    intro h'
    exact h (by rw [readWord, h']; rfl)
  have hstart : skipGap s ≠ [] := by
    intro h'
    exact hdrop (by rw [h']; rfl)
  obtain ⟨htake, hdrop'⟩ := dropWhile_append_of_ne_nil t hdrop
  have hend := skipGap_append t h
  unfold readWord
  rw [skipGap_append t hstart]
  dsimp only
  rw [htake, hdrop', hend]

theorem readLeading_append {s rest : List Char} {leading : Leading} (t : List Char)
    (h : readLeading s = (leading, rest)) (hrest : rest ≠ []) :
    readLeading (s ++ t) = (leading, rest ++ t) := by
  rw [readLeading_eq] at h
  cases h
  rw [readLeading_eq, readWord_append t hrest]

/-! ## Parameters

A parameter is read over comments, which it cuts out, up to a `;` or `,`. Inside a comment neither
counts, for the reader as for the list of terminators. -/

theorem statementsFrom_cons_of_ne {c : Char} (rest : List Char) (hsemi : c ≠ ';')
    (hhash : c ≠ '#') : statementsFrom false (c :: rest) = statementsFrom false rest := by
  have hhash : (c == '#') = false := beq_eq_false_iff_ne.2 hhash
  simp [statementsFrom, hsemi, hhash]

theorem laterStatements_cons_of_ne {c : Char} (rest : List Char) (hsemi : c ≠ ';')
    (hhash : c ≠ '#') : laterStatements (c :: rest) = laterStatements rest :=
  statementsFrom_cons_of_ne rest hsemi hhash

theorem statementsFrom_readParamFrom (phase : ParamPhase) (s : List Char) :
    statementsFrom false (readParamFrom phase s).2 = statementsFrom (phase = .comment) s := by
  fun_induction readParamFrom phase s with
  | case1 => rfl
  | case2 c rest ih =>
      rw [ih]
      by_cases hc : c = '\n'
      · simp [statementsFrom, hc]
      · simp [statementsFrom, hc, bne_iff_ne.2 hc]
  | case3 phase c rest hphase hend => rw [decide_eq_false hphase]
  | case4 phase rest hphase hend ih =>
      rw [ih, decide_eq_false hphase]
      rfl
  | case5 phase c rest hphase hend hhash hgap ih =>
      rw [not_or] at hend
      rw [ih, decide_eq_false hphase, statementsFrom_cons_of_ne rest hend.1 hhash]
      rfl
  | case6 phase c rest hphase hend hhash hgap param ahead hread ih =>
      rw [not_or] at hend
      rw [hread] at ih
      rw [decide_eq_false hphase, statementsFrom_cons_of_ne rest hend.1 hhash]
      exact ih

theorem laterStatements_readParam (s : List Char) :
    laterStatements (readParam s).2 = laterStatements s :=
  statementsFrom_readParamFrom .gap s

/-- A gap before a parameter is passed. -/
theorem readParamFrom_skipGapFrom (inComment : Bool) (text : List Char) :
    readParamFrom .gap (skipGapFrom inComment text) =
      readParamFrom (if inComment then .comment else .gap) text := by
  fun_induction skipGapFrom inComment text with
  | case1 => rfl
  | case2 c rest ih =>
      rw [ih, if_pos rfl, readParamFrom]
      by_cases hc : c = '\n'
      · rw [if_pos hc, if_neg (by simp [hc])]
      · rw [if_neg hc, if_pos (bne_iff_ne.2 hc)]
  | case3 inComment c rest hin hblank ih =>
      have hend : ¬ (c = ';' ∨ c = ',') := by
        rintro (rfl | rfl) <;> exact absurd hblank (by decide)
      have hhash : c ≠ '#' := by
        rintro rfl
        exact absurd hblank (by decide)
      rw [ih, if_neg hin, if_neg Bool.false_ne_true, readParamFrom.eq_3 _ _ _ (by simp), if_neg hend,
        if_neg hhash, if_pos ⟨rfl, hblank⟩]
  | case4 inComment rest hin hblank ih =>
      rw [ih, if_neg hin, if_pos rfl, readParamFrom.eq_3 _ _ _ (by simp), if_neg (by decide),
        if_pos rfl]
  | case5 inComment c rest hin hblank hhash => rw [if_neg hin]

@[simp] theorem readParam_skipGap (text : List Char) : readParam (skipGap text) = readParam text :=
  readParamFrom_skipGapFrom false text

theorem readParamFrom_append {phase : ParamPhase} {s : List Char} (t : List Char)
    (h : (readParamFrom phase s).2 ≠ []) :
    readParamFrom phase (s ++ t) =
      ((readParamFrom phase s).1, (readParamFrom phase s).2 ++ t) := by
  fun_induction readParamFrom phase s with
  | case1 => exact absurd rfl h
  | case2 c rest ih => exact ih h
  | case3 phase c rest hphase hend =>
      rw [List.cons_append, readParamFrom.eq_3 _ _ _ hphase, if_pos hend]
  | case4 phase rest hphase hend ih =>
      rw [List.cons_append, readParamFrom.eq_3 _ _ _ hphase, if_neg hend, if_pos rfl, ih h]
  | case5 phase c rest hphase hend hhash hgap ih =>
      rw [List.cons_append, readParamFrom.eq_3 _ _ _ hphase, if_neg hend, if_neg hhash,
        if_pos hgap, ih h]
  | case6 phase c rest hphase hend hhash hgap param ahead hread ih =>
      rw [hread] at ih
      rw [List.cons_append, readParamFrom.eq_3 _ _ _ hphase, if_neg hend, if_neg hhash,
        if_neg hgap, ih h]

theorem readParam_append {s : List Char} (t : List Char) (h : (readParam s).2 ≠ []) :
    readParam (s ++ t) = ((readParam s).1, (readParam s).2 ++ t) :=
  readParamFrom_append t h

/-! ## Lists

Lists are read by one function, given how an item is read, so the facts are about any reader that
neither passes a terminator nor looks behind one. -/

theorem afterSeparator?_append {s : List Char} (t : List Char) (h : s ≠ []) :
    afterSeparator? (s ++ t) = (afterSeparator? s).map (· ++ t) := by
  obtain ⟨c, rest, rfl⟩ := List.exists_cons_of_ne_nil h
  by_cases hc : c = ','
  · rw [hc]
    rfl
  · simp [afterSeparator?, hc]

theorem exists_of_isTerminated {s : List Char} (h : isTerminated s = true) :
    ∃ next, s = ';' :: next := by
  obtain ⟨next, hnext⟩ := Option.isSome_iff_exists.1 h
  exact ⟨next, afterTerminator?_eq_some_iff.1 hnext⟩

theorem isTerminated_append {s : List Char} (t : List Char) (h : s ≠ []) :
    isTerminated (s ++ t) = isTerminated s := by
  obtain ⟨c, rest, rfl⟩ := List.exists_cons_of_ne_nil h
  by_cases hc : c = ';'
  · rw [hc]
    rfl
  · simp [isTerminated, afterTerminator?, hc]

def appendAhead (t : List Char) (reads : List (List Char × List Char)) :
    List (List Char × List Char) :=
  reads.map fun read => (read.1, read.2 ++ t)

theorem endOfList_cons (start : List Char) (read : List Char × List Char)
    (more : List (List Char × List Char)) :
    endOfList start (read :: more) = endOfList read.2 more :=
  rfl

theorem endOfList_appendAhead (start t : List Char) (reads : List (List Char × List Char)) :
    endOfList (start ++ t) (appendAhead t reads) = endOfList start reads ++ t := by
  induction reads generalizing start with
  | nil => rfl
  | cons read more ih => exact ih read.2

theorem laterStatements_separator (s : List Char) :
    laterStatements (',' :: s) = laterStatements s :=
  rfl

theorem readList_of_separator {read : List Char → List Char × List Char}
    {hread : ∀ text, (read text).2.length ≤ text.length} {s rest : List Char}
    (h : afterSeparator? (read s).2 = some rest) :
    readList read hread s = read s :: readList read hread rest := by
  rw [readList]
  split
  · rename_i rest' h'
    rw [h] at h'
    cases h'
    rfl
  · rename_i h'
    rw [h] at h'
    cases h'

theorem readList_of_last {read : List Char → List Char × List Char}
    {hread : ∀ text, (read text).2.length ≤ text.length} {s : List Char}
    (h : afterSeparator? (read s).2 = none) : readList read hread s = [read s] := by
  rw [readList]
  split
  · rename_i rest' h'
    rw [h] at h'
    cases h'
  · rfl

theorem laterStatements_endOfList {read : List Char → List Char × List Char}
    {hread : ∀ text, (read text).2.length ≤ text.length}
    (hlater : ∀ s, laterStatements (read s).2 = laterStatements s) (start s : List Char) :
    laterStatements (endOfList start (readList read hread s)) = laterStatements s := by
  induction s using readList.induct read hread generalizing start with
  | case1 s rest hsep ih =>
      rw [readList_of_separator hsep, endOfList_cons, ih, ← hlater s,
        afterSeparator?_eq_some_iff.1 hsep, laterStatements_separator]
  | case2 s hsep =>
      rw [readList_of_last hsep]
      exact hlater s

theorem readList_append {read : List Char → List Char × List Char}
    {hread : ∀ text, (read text).2.length ≤ text.length} {t : List Char}
    (happend : ∀ s, (read s).2 ≠ [] → read (s ++ t) = ((read s).1, (read s).2 ++ t))
    (start s : List Char) (h : endOfList start (readList read hread s) ≠ []) :
    readList read hread (s ++ t) = appendAhead t (readList read hread s) := by
  induction s using readList.induct read hread generalizing start with
  | case1 s rest hsep ih =>
      have hahead := afterSeparator?_eq_some_iff.1 hsep
      -- the separator is left, so the item was read to its end
      have hs := happend s (by rw [hahead]; exact List.cons_ne_nil _ _)
      have hsep' : afterSeparator? (read (s ++ t)).2 = some (rest ++ t) := by
        rw [hs, hahead]
        rfl
      rw [readList_of_separator hsep, endOfList_cons] at h
      rw [readList_of_separator hsep, readList_of_separator hsep', ih _ h, hs]
      rfl
  | case2 s hsep =>
      rw [readList_of_last hsep] at h
      have hs := happend s h
      have hsep' : afterSeparator? (read (s ++ t)).2 = none := by
        have hahead : afterSeparator? ((read s).2 ++ t) = (afterSeparator? (read s).2).map (· ++ t) :=
          afterSeparator?_append t h
        rw [hs]
        rw [hsep] at hahead
        exact hahead
      rw [readList_of_last hsep, readList_of_last hsep', hs]
      rfl

theorem endOfList_readList_nil (read : List Char → List Char × List Char)
    (hread : ∀ text, (read text).2.length ≤ text.length) (start : List Char) :
    endOfList start (readList read hread []) = [] := by
  have hnil : (read []).2 = [] := List.eq_nil_of_length_eq_zero (by simpa using hread [])
  rw [readList_of_last (by rw [hnil]; rfl)]
  exact hnil

/-! ## Operands

The readers of all statements leave the same place behind, which `operandsEnd?` gives without
reading their names and values. -/

theorem laterStatements_operandsEnd {rest e : List Char} {k : Keyword}
    (h : operandsEnd? rest k = some e) : laterStatements e = laterStatements rest := by
  -- names and parameters keep the terminators, and so do lists of them
  have hnames := @laterStatements_endOfList readWord length_readWord_le laterStatements_readWord
  have hparams := @laterStatements_endOfList readParam length_readParam_le laterStatements_readParam
  cases k <;> simp only [operandsEnd?] at h
  case set =>
    split at h
    · simp at h
    · cases h
      rw [laterStatements_readParam, laterStatements_readWord]
  case call | goto =>
    split at h
    · simp at h
    · cases h
      unfold argumentTexts
      split
      · exact laterStatements_readWord rest
      · exact (hparams _ _).trans (laterStatements_readWord rest)
  case var | exportVar | pop =>
    split at h
    · simp at h
    · cases h
      exact hnames _ _
  case ifBlock | whileBlock | returnValue =>
    split at h
    · simp at h
    · cases h
      exact laterStatements_readParam rest
  case define =>
    split at h
    · simp at h
    · cases h
      exact laterStatements_readWord rest
  all_goals
    cases h
    rfl

theorem readNames_append {s : List Char} (t start : List Char)
    (h : endOfList start (readNames s) ≠ []) :
    readNames (s ++ t) = appendAhead t (readNames s) :=
  readList_append (fun _ h => readWord_append t h) start s h

theorem readParams_append {s : List Char} (t start : List Char)
    (h : endOfList start (readParams s) ≠ []) :
    readParams (s ++ t) = appendAhead t (readParams s) :=
  readList_append (fun _ h => readParam_append t h) start s h

theorem argumentTexts_append {s : List Char} (t : List Char)
    (h : endOfList s (argumentTexts s) ≠ []) :
    argumentTexts (s ++ t) = appendAhead t (argumentTexts s) := by
  have hs : s ≠ [] := by
    rintro rfl
    exact h (endOfList_readList_nil readParam length_readParam_le [])
  unfold argumentTexts at h ⊢
  rw [isTerminated_append t hs]
  split
  · rfl
  · rename_i hterm
    rw [if_neg hterm] at h
    exact readParams_append t s h

theorem operandsEnd?_nil {k : Keyword} {e : List Char} (h : operandsEnd? [] k = some e) : e = [] := by
  have hlist := endOfList_readList_nil
  cases k <;> cases h
  case call | goto => exact hlist readParam length_readParam_le _
  case var | exportVar | pop => exact hlist readWord length_readWord_le _
  all_goals rfl

/-- Operands that are followed by something end there in any longer text. -/
theorem operandsEnd?_append {rest e : List Char} {k : Keyword} (t : List Char)
    (h : operandsEnd? rest k = some e) (he : e ≠ []) :
    operandsEnd? (rest ++ t) k = some (e ++ t) := by
  -- after nothing there would be nothing left
  have hrest : rest ≠ [] := by
    rintro rfl
    exact he (operandsEnd?_nil h)
  have hterm := isTerminated_append t hrest
  cases k <;> simp only [operandsEnd?] at h ⊢
  case set =>
    split at h
    · simp at h
    · rename_i hnot
      cases h
      have hword : (readWord rest).2 ≠ [] := by
        intro hnil
        exact he (by rw [hnil]; rfl)
      rw [hterm, if_neg hnot, readWord_append t hword, readParam_append t he]
  case call | goto =>
    split at h
    · simp at h
    · rename_i hnot
      cases h
      have hword : (readWord rest).2 ≠ [] := by
        intro hnil
        exact he (by rw [hnil]; exact endOfList_readList_nil readParam length_readParam_le [])
      rw [hterm, if_neg hnot, readWord_append t hword, argumentTexts_append t he,
        endOfList_appendAhead]
  case var | exportVar | pop =>
    split at h
    · simp at h
    · rename_i hnot
      cases h
      rw [hterm, if_neg hnot, readNames_append t rest he, endOfList_appendAhead]
  case ifBlock | whileBlock | returnValue =>
    split at h
    · simp at h
    · rename_i hnot
      cases h
      rw [hterm, if_neg hnot, readParam_append t he]
  case define =>
    split at h
    · simp at h
    · rename_i hnot
      cases h
      rw [hterm, if_neg hnot, readWord_append t he]
  all_goals
    cases h
    rfl

/-! ## The statements after a terminator

A run goes from statement to statement, and so do the proofs about it: the later statements of a
text are the one behind its next terminator and the later statements of that. -/

theorem laterStatements_terminator (s : List Char) :
    laterStatements (';' :: s) = s :: laterStatements s :=
  rfl

/-- The statement after another one starts where the operands of that one end. -/
theorem laterStatements_of_operandsEnd {s rest next : List Char} {k : Keyword}
    (hl : readLeading s = (.keyword k, rest)) (hend : operandsEnd? rest k = some (';' :: next)) :
    laterStatements s = next :: laterStatements next := by
  rw [← laterStatements_readLeading hl, ← laterStatements_operandsEnd hend,
    laterStatements_terminator]

/-- The statements after the first one start after a shorter text, which has the same ones after
its own first. -/
theorem statementsFrom_cases (inComment : Bool) (s : List Char) :
    statementsFrom inComment s = [] ∨
      ∃ t, t.length < s.length ∧ statementsFrom inComment s = t :: laterStatements t := by
  induction s generalizing inComment with
  | nil => exact .inl rfl
  | cons c rest ih =>
      have hskip (b : Bool) : statementsFrom b rest = [] ∨
          ∃ t, t.length < (c :: rest).length ∧ statementsFrom b rest = t :: laterStatements t := by
        rcases ih b with h | ⟨t, hlt, h⟩
        · exact .inl h
        · exact .inr ⟨t, Nat.lt_succ_of_lt hlt, h⟩
      rw [statementsFrom]
      split
      · exact hskip _
      · split
        · exact .inr ⟨rest, Nat.lt_succ_self _, rfl⟩
        · exact hskip _

/-- Induction over the statements of a text, from the last one to the first. -/
@[elab_as_elim]
theorem laterStatements_induction {motive : List Char → Prop}
    (last : ∀ s, laterStatements s = [] → motive s)
    (more : ∀ s t, laterStatements s = t :: laterStatements t → motive t → motive s)
    (s : List Char) : motive s := by
  rcases statementsFrom_cases false s with h | ⟨t, _, h⟩
  · exact last s h
  · exact more s t h (laterStatements_induction last more t)
termination_by s.length

/-- The statements after a later statement are later statements. -/
theorem mem_laterStatements_trans {s t u : List Char} (ht : t ∈ laterStatements s)
    (hu : u ∈ laterStatements t) : u ∈ laterStatements s := by
  induction s using laterStatements_induction with
  | last s h =>
      rw [h] at ht
      simp at ht
  | more s r h ih =>
      rw [h] at ht ⊢
      rcases List.mem_cons.1 ht with rfl | ht
      · exact .tail _ hu
      · exact .tail _ (ih ht)

/-! ## Texts that end with a terminator

Such texts can be put in front of any other text without a change of what is read in them. What
stands before a later statement is of this kind, and so is the body of a subroutine. -/

def IsClosed (s : List Char) : Prop :=
  [] ∈ laterStatements s

theorem exists_of_mem_statementsFrom {inComment : Bool} {s t : List Char}
    (h : t ∈ statementsFrom inComment s) :
    ∃ p, s = p ++ t ∧ [] ∈ statementsFrom inComment p := by
  induction s generalizing inComment with
  | nil => cases h
  | cons c rest ih =>
      -- one case for each way a character is passed: in a comment, as a terminator, otherwise
      rw [statementsFrom] at h
      split at h
      · rename_i hin
        obtain ⟨p, hp, hmem⟩ := ih h
        refine ⟨c :: p, by rw [hp]; rfl, ?_⟩
        rwa [statementsFrom, if_pos hin]
      · rename_i hin
        split at h
        · rename_i hc
          rcases List.mem_cons.1 h with rfl | h
          · refine ⟨[c], rfl, ?_⟩
            rw [statementsFrom, if_neg hin, if_pos hc]
            exact .head _
          · obtain ⟨p, hp, hmem⟩ := ih h
            refine ⟨c :: p, by rw [hp]; rfl, ?_⟩
            rw [statementsFrom, if_neg hin, if_pos hc]
            exact .tail _ hmem
        · rename_i hc
          obtain ⟨p, hp, hmem⟩ := ih h
          refine ⟨c :: p, by rw [hp]; rfl, ?_⟩
          rwa [statementsFrom, if_neg hin, if_neg hc]

/-- What stands before a later statement ends with a terminator. -/
theorem exists_isClosed_append {s t : List Char} (h : t ∈ laterStatements s) :
    ∃ p, s = p ++ t ∧ IsClosed p :=
  exists_of_mem_statementsFrom h

theorem suffix_of_mem_laterStatements {s t : List Char} (h : t ∈ laterStatements s) : t <:+ s := by
  obtain ⟨p, rfl, -⟩ := exists_isClosed_append h
  exact List.suffix_append p t

theorem isInfix_of_mem_laterStatements {t u : List Char} (h : u ∈ laterStatements t) : u <:+: t :=
  (suffix_of_mem_laterStatements h).isInfix

/-- The text of a subroutine is a piece of the text that defines it. -/
theorem bodyBetween_isInfix (w z : List Char) : bodyBetween (';' :: w) z <:+: w :=
  (List.take_prefix _ _).isInfix.trans (skipGapFrom_suffix false w).isInfix

theorem statementsFrom_append {inComment : Bool} {p : List Char} (t : List Char)
    (h : [] ∈ statementsFrom inComment p) :
    statementsFrom inComment (p ++ t) =
      (statementsFrom inComment p).map (· ++ t) ++ laterStatements t := by
  induction p generalizing inComment with
  | nil => cases h
  | cons c rest ih =>
      rw [List.cons_append, statementsFrom, statementsFrom] at *
      split at h
      · rename_i hin
        rw [if_pos hin, if_pos hin, ih h]
      · rename_i hin
        rw [if_neg hin, if_neg hin]
        split at h
        · rename_i hc
          rw [if_pos hc, if_pos hc]
          rcases List.mem_cons.1 h with hnil | h
          · rw [← hnil]
            rfl
          · rw [ih h]
            rfl
        · rename_i hc
          rw [if_neg hc, if_neg hc, ih h]

theorem IsClosed.laterStatements_append {p : List Char} (h : IsClosed p) (t : List Char) :
    laterStatements (p ++ t) = (laterStatements p).map (· ++ t) ++ laterStatements t :=
  statementsFrom_append t h

theorem IsClosed.skipGap_ne_nil {p : List Char} (h : IsClosed p) : skipGap p ≠ [] := by
  intro hnil
  unfold IsClosed at h
  rw [← laterStatements_skipGap, hnil] at h
  cases h

/-- Where a text ends with a terminator, so do its later statements, but for the empty last one. -/
theorem IsClosed.of_mem {p s : List Char} (h : IsClosed p) (hs : s ∈ laterStatements p) :
    s = [] ∨ IsClosed s := by
  induction p using laterStatements_induction with
  | last p hnil =>
      rw [hnil] at hs
      simp at hs
  | more p r hr ih =>
      rw [IsClosed, hr] at h
      rw [hr] at hs
      have hclosed : r = [] ∨ IsClosed r := by
        rcases List.mem_cons.1 h with hnil | h
        · exact .inl hnil.symm
        · exact .inr h
      rcases List.mem_cons.1 hs with rfl | hs
      · exact hclosed
      · rcases hclosed with rfl | hclosed
        · cases hs
        · exact ih hclosed hs

end NumScript.Script
