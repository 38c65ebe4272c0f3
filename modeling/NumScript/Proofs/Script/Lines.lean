import Mathlib.Data.List.Forall2
import NumScript.Proofs.Expr.Padding
import NumScript.Proofs.Script.Rendering
import NumScript.Proofs.Script.Terminators

set_option autoImplicit false

/-! # Reading the lines of a program

What the readers find in a line: its keyword, its names, its expressions up to the blanks around
them, and at the end its terminator. The text that follows the line does not matter.
-/

namespace NumScript.Script

/-! ## Gaps and words

The readers undo what the rules of writing do: a gap is skipped to its end, and a word is read up to
a character that does not continue it. -/

theorem skipGapFrom_comment {words : List Char} (h : '\n' ∉ words) (text : List Char) :
    skipGapFrom true (words ++ '\n' :: text) = skipGapFrom false text := by
  induction words with
  | nil => rfl
  | cons c words ih =>
      obtain ⟨hne, hmem⟩ := List.ne_and_not_mem_of_not_mem_cons h
      have hc : (c != '\n') = true := bne_iff_ne.2 (Ne.symm hne)
      rw [List.cons_append, skipGapFrom, if_pos rfl, hc, ih hmem]

theorem IsGap.skipGap_append {gap : List Char} (h : IsGap gap) (text : List Char) :
    skipGap (gap ++ text) = skipGap text := by
  induction h with
  | nil => rfl
  | @blank c gap hc _ ih =>
      rw [← ih, List.cons_append, skipGap, skipGapFrom, if_neg Bool.false_ne_true, if_pos hc]
      rfl
  | @comment words gap hwords _ ih =>
      have hassoc : '#' :: (words ++ '\n' :: gap) ++ text = '#' :: (words ++ '\n' :: (gap ++ text)) := by
        simp
      have hcomment := skipGapFrom_comment hwords (gap ++ text)
      rw [← ih, hassoc]
      exact hcomment

theorem skipGap_terminator (text : List Char) : skipGap (';' :: text) = ';' :: text :=
  rfl

theorem IsGap.skipGap_terminator {gap : List Char} (h : IsGap gap) (text : List Char) :
    skipGap (gap ++ ';' :: text) = ';' :: text :=
  h.skipGap_append _

theorem IsGap.laterStatements_append {gap : List Char} (h : IsGap gap) (text : List Char) :
    laterStatements (gap ++ text) = laterStatements text := by
  rw [← laterStatements_skipGap, h.skipGap_append, laterStatements_skipGap]

theorem isBlank_eq_false_of_isWordChar {c : Char} (h : Expr.isWordChar c = true) :
    Text.isBlank c = false := by
  rw [Bool.eq_false_iff]
  intro hc
  rw [Expr.isWordChar_of_isBlank hc] at h
  exact Bool.false_ne_true h

theorem skipGap_of_isWordChar {c : Char} (text : List Char) (h : Expr.isWordChar c = true) :
    skipGap (c :: text) = c :: text := by
  have hblank := isBlank_eq_false_of_isWordChar h
  have hhash : c ≠ '#' := by
    rintro rfl
    exact absurd h (by decide)
  simp [skipGap, skipGapFrom, hblank, hhash]

theorem IsTrail.skipGap {trail : List Char} (h : IsTrail trail) : skipGap trail = [] := by
  cases h with
  | @gap gap hgap =>
      have := hgap.skipGap_append []
      rwa [List.append_nil] at this
  | @comment gap words hgap hwords =>
      rw [hgap.skipGap_append]
      show skipGapFrom true words = []
      clear hgap
      induction words with
      | nil => rfl
      | cons c words ih =>
          obtain ⟨hne, hmem⟩ := List.ne_and_not_mem_of_not_mem_cons hwords
          have hc : (c != '\n') = true := bne_iff_ne.2 (Ne.symm hne)
          rw [skipGapFrom, if_pos rfl, hc, ih hmem]

def IsWord (word : List Char) : Prop :=
  word ≠ [] ∧ ∀ c ∈ word, Expr.isWordChar c = true

theorem IsIdentifier.isWord {name : String} (h : IsIdentifier name) : IsWord name.toList := by
  obtain ⟨c, rest, hname, hc, hrest⟩ := h
  rw [hname]
  refine ⟨List.cons_ne_nil _ _, fun d hd => ?_⟩
  rcases List.mem_cons.1 hd with rfl | hd
  · unfold Expr.isWordStart at hc
    unfold Expr.isWordChar Char.isAlphanum
    rcases Bool.or_eq_true _ _ ▸ hc with hc | hc <;> simp [hc]
  · exact hrest d hd

theorem Keyword.isWord (k : Keyword) : IsWord k.word.toList := by
  cases k <;> exact ⟨by decide, List.all_eq_true.1 (by decide)⟩

theorem IsWord.skipGap_append {word : List Char} (h : IsWord word) (text : List Char) :
    skipGap (word ++ text) = word ++ text := by
  obtain ⟨c, rest, rfl⟩ := List.exists_cons_of_ne_nil h.1
  exact skipGap_of_isWordChar _ (h.2 c (.head _))

theorem readWord_append_of_isWord {gap word text : List Char} (hgap : IsGap gap) (hword : IsWord word)
    (htext : EndsWord text) : readWord (gap ++ (word ++ text)) = (word, skipGap text) := by
  unfold readWord
  rw [hgap.skipGap_append, hword.skipGap_append]
  dsimp only
  rw [Expr.takeWhile_append_of_head hword.2 htext, Expr.dropWhile_append_of_head hword.2 htext]

theorem EndsWord.append {text : List Char} (h : EndsWord text) (more : List Char) :
    EndsWord (text ++ ';' :: more) := by
  cases text with
  | nil =>
      intro c hc
      cases hc
      rfl
  | cons c rest => exact h

theorem endsWord_of_isGap {gap : List Char} (h : IsGap gap) {c : Char} (hc : Expr.isWordChar c = false)
    (text : List Char) : EndsWord (gap ++ c :: text) := by
  cases h with
  | nil => simpa [EndsWord] using hc
  | @blank b gap hb _ =>
      intro d hd
      cases hd
      exact Expr.isWordChar_of_isBlank hb
  | comment _ _ =>
      intro d hd
      cases hd
      rfl

/-! ## Expressions

A parameter is read with the blanks behind it, and not with those before it. So what is read is not
the expression itself, but a text that means the same and is quoted in the same way. -/

theorem readParam_gap_append {gap : List Char} (h : IsGap gap) (text : List Char) :
    readParam (gap ++ text) = readParam text := by
  rw [← readParam_skipGap, h.skipGap_append, readParam_skipGap]

theorem isGap_of_isBlanks {blanks : List Char} (h : Expr.IsBlanks blanks) : IsGap blanks := by
  induction blanks with
  | nil => exact .nil
  | cons c blanks ih => exact .blank (h c (.head _)) (ih fun d hd => h d (.tail _ hd))

/-- The characters that an expression in a script cannot have. -/
def IsSpecial (c : Char) : Prop :=
  c = ';' ∨ c = ',' ∨ c = '#'

theorem readParamFrom_body_append {core : List Char} (h : ∀ c ∈ core, ¬ IsSpecial c)
    (text : List Char) :
    readParamFrom .body (core ++ text) =
      (core ++ (readParamFrom .body text).1, (readParamFrom .body text).2) := by
  induction core with
  | nil => rfl
  | cons c core ih =>
      have hc := h c (.head _)
      unfold IsSpecial at hc
      rw [List.cons_append, readParamFrom.eq_3 _ _ _ (by simp), if_neg fun hend =>
          hc (hend.elim .inl fun hcomma => .inr (.inl hcomma)),
        if_neg fun hhash => hc (.inr (.inr hhash)), if_neg (by simp), ih fun d hd => h d (.tail _ hd)]
      rfl

theorem readParamFrom_body_gap {gap : List Char} (h : IsGap gap) {x : Char} (hx : x = ';' ∨ x = ',')
    (text : List Char) :
    ∃ blanks, Expr.IsBlanks blanks ∧
      readParamFrom .body (gap ++ x :: text) = (blanks, x :: text) := by
  have hstop (phase : ParamPhase) (hphase : phase ≠ .comment) :
      readParamFrom phase (x :: text) = ([], x :: text) := by
    rw [readParamFrom.eq_3 _ _ _ hphase, if_pos hx]
  induction h with
  | nil => exact ⟨[], fun _ h => absurd h List.not_mem_nil, hstop .body (by decide)⟩
  | @blank c gap hc _ ih =>
      -- a blank after an expression is still read as a part of it
      obtain ⟨blanks, hblanks, hread⟩ := ih
      have hspecial : ∀ d ∈ [c], ¬ IsSpecial d := by
        intro d hd
        rcases List.mem_singleton.1 hd with rfl
        rintro (rfl | rfl | rfl) <;> exact absurd hc (by decide)
      refine ⟨c :: blanks, fun d hd => ?_, ?_⟩
      · rcases List.mem_cons.1 hd with rfl | hd
        · exact hc
        · exact hblanks d hd
      · have happend := readParamFrom_body_append hspecial (gap ++ x :: text)
        rw [hread] at happend
        exact happend
  | @comment words gap hwords hgap _ =>
      -- the text after a comment starts with a gap again
      refine ⟨[], fun _ h => absurd h List.not_mem_nil, ?_⟩
      have hcomment := readParamFrom_skipGapFrom true (words ++ '\n' :: (gap ++ x :: text))
      rw [skipGapFrom_comment hwords, if_pos rfl] at hcomment
      have hgap' := readParam_gap_append hgap (x :: text)
      rw [readParam, readParam, hstop .gap (by decide)] at hgap'
      have hskip : readParamFrom .gap (skipGapFrom false (gap ++ x :: text)) =
          readParamFrom .gap (gap ++ x :: text) :=
        readParamFrom_skipGapFrom false _
      have hassoc : '#' :: (words ++ '\n' :: gap) ++ x :: text =
          '#' :: (words ++ '\n' :: (gap ++ x :: text)) := by simp
      rw [hassoc, readParamFrom.eq_3 _ _ _ (by simp), if_neg (by decide), if_pos rfl, ← hcomment,
        hskip, hgap']

/-- The two texts mean the same as expressions, and are quoted in the same way. -/
def SameExpression (e e' : List Char) : Prop :=
  (∀ names, Expr.evaluate names e = Expr.evaluate names e') ∧ Text.trim e = Text.trim e'

/-- An expression without the blanks that it starts with. -/
theorem IsExpression.exists_core {e : List Char} (h : IsExpression e) :
    ∃ blanks c core, e = blanks ++ c :: core ∧ Expr.IsBlanks blanks ∧ Text.isBlank c = false ∧
      ∀ d ∈ c :: core, ¬ IsSpecial d := by
  obtain ⟨⟨d, hd, hblank⟩, hspecial⟩ := h
  induction e with
  | nil => simp at hd
  | cons c e ih =>
      by_cases hc : Text.isBlank c = true
      · -- the character that is not blank comes later
        have hd' : d ∈ e := by
          rcases List.mem_cons.1 hd with rfl | hd
          · rw [hc] at hblank
            simp at hblank
          · exact hd
        obtain ⟨blanks, c', core, rfl, hblanks, hc', hcore⟩ :=
          ih (fun x hx => hspecial x (.tail _ hx)) hd'
        refine ⟨c :: blanks, c', core, rfl, fun x hx => ?_, hc', hcore⟩
        rcases List.mem_cons.1 hx with rfl | hx
        · exact hc
        · exact hblanks x hx
      · refine ⟨[], c, e, rfl, fun _ h => absurd h List.not_mem_nil, by simpa using hc, ?_⟩
        intro x hx hsp
        obtain ⟨hsemi, hcomma, hhash⟩ := hspecial x hx
        rcases hsp with hsp | hsp | hsp
        · exact hsemi hsp
        · exact hcomma hsp
        · exact hhash hsp

/-- An expression is read up to the blanks around it. -/
theorem ExpressionText.readParam {e text : List Char} (h : ExpressionText e text) {x : Char}
    (hx : x = ';' ∨ x = ',') (more : List Char) :
    ∃ e', readParam (text ++ x :: more) = (e', x :: more) ∧ SameExpression e e' := by
  cases h with
  | @intro before after hbefore he hafter =>
      obtain ⟨blanks, c, core, rfl, hblanks, hc, hspecial⟩ := he.exists_core
      obtain ⟨blanks', hblanks', hread⟩ := readParamFrom_body_gap hafter hx more
      -- the blanks before the expression are lost, and those after it up to a comment are kept
      refine ⟨c :: core ++ blanks', ?_, fun names => ?_, ?_⟩
      · have hassoc : before ++ (blanks ++ c :: core ++ after) ++ x :: more =
            before ++ (blanks ++ (c :: (core ++ (after ++ x :: more)))) := by simp
        have hc' := hspecial c (.head _)
        unfold IsSpecial at hc'
        rw [hassoc, readParam_gap_append hbefore, readParam_gap_append (isGap_of_isBlanks hblanks),
          NumScript.Script.readParam, readParamFrom.eq_3 _ _ _ (by simp), if_neg fun hend =>
            hc' (hend.elim .inl fun hcomma => .inr (.inl hcomma)),
          if_neg fun hhash => hc' (.inr (.inr hhash)), if_neg (by simp [hc]),
          readParamFrom_body_append fun d hd => hspecial d (.tail _ hd), hread]
        rfl
      · rw [Expr.evaluate_blanks_append names hblanks, Expr.evaluate_append_blanks names hblanks']
      · rw [Expr.trim_blanks_append hblanks, Expr.trim_append_blanks hblanks']

theorem ExpressionText.isTerminated {e text : List Char} (h : ExpressionText e text)
    (more : List Char) : ¬ isTerminated (skipGap (text ++ more)) = true := by
  cases h with
  | @intro before after hbefore he hafter =>
      obtain ⟨blanks, c, core, rfl, hblanks, hc, hspecial⟩ := he.exists_core
      have hassoc : before ++ (blanks ++ c :: core ++ after) ++ more =
          before ++ (blanks ++ (c :: (core ++ (after ++ more)))) := by simp
      have hc' := hspecial c (.head _)
      unfold IsSpecial at hc'
      have hskip : skipGap (c :: (core ++ (after ++ more))) = c :: (core ++ (after ++ more)) := by
        have hhash : c ≠ '#' := fun hhash => hc' (.inr (.inr hhash))
        simp [skipGap, skipGapFrom, hc, hhash]
      rw [hassoc, hbefore.skipGap_append, (isGap_of_isBlanks hblanks).skipGap_append, hskip]
      intro hterm
      obtain ⟨next, hnext⟩ := exists_of_isTerminated hterm
      injection hnext with hsemi _
      exact hc' (.inl hsemi)

/-! ## Lines

The gap before a line is skipped when its first word is read. -/

theorem Line.readLeading {k : Keyword} {operands line : List Char} (h : Line k operands line)
    (text : List Char) :
    readLeading (line ++ text) = (.keyword k, skipGap (operands ++ ';' :: text)) := by
  cases h with
  | @intro before hbefore hends =>
      have hassoc : before ++ (k.word.toList ++ (operands ++ [';'])) ++ text =
          before ++ (k.word.toList ++ (operands ++ ';' :: text)) := by simp
      rw [hassoc, readLeading_eq, readWord_append_of_isWord hbefore k.isWord (hends.append text)]
      have hk : String.ofList k.word.toList = k.word := String.ofList_toList
      unfold Leading.ofWord
      rw [if_neg k.isWord.1, hk, Keyword.ofWord?_word]

theorem Line.readLeading_skipGap {k : Keyword} {operands line start text : List Char}
    (h : Line k operands line) (hstart : skipGap start = skipGap (line ++ text)) :
    NumScript.Script.readLeading (skipGap start) =
      (.keyword k, skipGap (operands ++ ';' :: text)) := by
  rw [hstart, NumScript.Script.readLeading_skipGap, h.readLeading]

theorem Line.ne_nil {k : Keyword} {operands line : List Char} (h : Line k operands line) :
    line ≠ [] := by
  cases h
  simp

/-- A line without the gap before it. -/
theorem Line.exists_skipGap {k : Keyword} {operands line : List Char} (h : Line k operands line) :
    ∃ line', Line k operands line' ∧ ∀ text, skipGap (line ++ text) = line' ++ text := by
  cases h with
  | @intro before hbefore hends =>
      refine ⟨[] ++ (k.word.toList ++ (operands ++ [';'])), .intro .nil hends, fun text => ?_⟩
      rw [List.append_assoc, hbefore.skipGap_append, List.append_assoc, k.isWord.skipGap_append]
      simp

/-! ## Lists

The lists of a line are read item by item, each up to the separator or the terminator behind it. -/

theorem readList_congr {read : List Char → List Char × List Char}
    {hread : ∀ text, (read text).2.length ≤ text.length} {s s' : List Char} (h : read s = read s') :
    readList read hread s = readList read hread s' := by
  cases hsep : afterSeparator? (read s).2 with
  | none =>
      rw [readList_of_last hsep, h]
      rw [h] at hsep
      rw [readList_of_last hsep]
  | some rest =>
      rw [readList_of_separator hsep, h]
      rw [h] at hsep
      rw [readList_of_separator hsep]

@[simp] theorem readNames_skipGap (text : List Char) : readNames (skipGap text) = readNames text :=
  readList_congr (readWord_skipGap text)

@[simp] theorem readParams_skipGap (text : List Char) : readParams (skipGap text) = readParams text :=
  readList_congr (readParam_skipGap text)

/-- The expressions of a list are read up to the blanks around them. -/
theorem ExpressionsText.readParams {es : List (List Char)} {text : List Char}
    (h : ExpressionsText es text) (more start : List Char) :
    List.Forall₂ SameExpression es ((readParams (text ++ ';' :: more)).map Prod.fst) ∧
      endOfList start (readParams (text ++ ';' :: more)) = ';' :: more := by
  induction h generalizing start with
  | @one e text h =>
      obtain ⟨e', hread, hsame⟩ := h.readParam (.inl rfl) more
      have hlist : NumScript.Script.readParams (text ++ ';' :: more) = [(e', ';' :: more)] := by
        rw [NumScript.Script.readParams, readList_of_last (by rw [hread]; rfl), hread]
      rw [hlist]
      exact ⟨.cons hsame .nil, rfl⟩
  | @more e text text' es h _ ih =>
      obtain ⟨e', hread, hsame⟩ := h.readParam (.inr rfl) (text' ++ ';' :: more)
      obtain ⟨hrest, hend⟩ := ih (',' :: (text' ++ ';' :: more))
      have hassoc : text ++ ',' :: text' ++ ';' :: more = text ++ ',' :: (text' ++ ';' :: more) := by
        simp
      have hlist : NumScript.Script.readParams (text ++ ',' :: (text' ++ ';' :: more)) =
          (e', ',' :: (text' ++ ';' :: more)) ::
            NumScript.Script.readParams (text' ++ ';' :: more) := by
        rw [NumScript.Script.readParams, readList_of_separator (by rw [hread]; rfl), hread]
        rfl
      rw [hassoc, hlist]
      exact ⟨.cons hsame hrest, hend⟩

/-- The names of a list are read. -/
theorem NamesText.readNames {first : String} {names : List String} {text : List Char}
    (h : NamesText first names text) (more start : List Char) :
    (readNames (text ++ ';' :: more)).map Prod.fst = (first :: names).map String.toList ∧
      endOfList start (readNames (text ++ ';' :: more)) = ';' :: more := by
  have hstop (c : Char) (rest : List Char) (hblank : Text.isBlank c = false) (hhash : c ≠ '#') :
      skipGap (c :: rest) = c :: rest := by
    simp [skipGap, skipGapFrom, hblank, hhash]
  induction h generalizing start with
  | @one name before after hbefore hname hafter =>
      have hread : readWord (before ++ (name.toList ++ (after ++ ';' :: more))) =
          (name.toList, ';' :: more) := by
        rw [readWord_append_of_isWord hbefore hname.isWord (endsWord_of_isGap hafter rfl more),
          hafter.skipGap_append, hstop ';' more rfl (by decide)]
      have hlist : NumScript.Script.readNames (before ++ (name.toList ++ (after ++ ';' :: more))) =
          [(name.toList, ';' :: more)] := by
        rw [NumScript.Script.readNames, readList_of_last (by rw [hread]; rfl), hread]
      rw [List.append_assoc, List.append_assoc, hlist]
      exact ⟨rfl, rfl⟩
  | @more name next names before after text hbefore hname hafter _ ih =>
      obtain ⟨hrest, hend⟩ := ih (',' :: (text ++ ';' :: more))
      have hassoc : before ++ (name.toList ++ (after ++ ',' :: text)) ++ ';' :: more =
          before ++ (name.toList ++ (after ++ ',' :: (text ++ ';' :: more))) := by simp
      have hread : readWord (before ++ (name.toList ++ (after ++ ',' :: (text ++ ';' :: more)))) =
          (name.toList, ',' :: (text ++ ';' :: more)) := by
        rw [readWord_append_of_isWord hbefore hname.isWord (endsWord_of_isGap hafter rfl _),
          hafter.skipGap_append, hstop ',' _ rfl (by decide)]
      have hlist : NumScript.Script.readNames
          (before ++ (name.toList ++ (after ++ ',' :: (text ++ ';' :: more)))) =
          (name.toList, ',' :: (text ++ ';' :: more)) ::
            NumScript.Script.readNames (text ++ ';' :: more) := by
        rw [NumScript.Script.readNames, readList_of_separator (by rw [hread]; rfl), hread]
        rfl
      rw [hassoc, hlist, List.map_cons, hrest]
      exact ⟨rfl, hend⟩

theorem NamesText.toList_ne_nil {first : String} {names : List String} {text : List Char}
    (h : NamesText first names text) : ∀ name ∈ first :: names, name.toList ≠ [] := by
  induction h with
  | one _ hname _ =>
      intro name hmem
      rw [List.mem_singleton.1 hmem]
      exact hname.isWord.1
  | more _ hname _ _ ih =>
      intro name hmem
      rcases List.mem_cons.1 hmem with rfl | hmem
      · exact hname.isWord.1
      · exact ih name hmem

end NumScript.Script
