import NumScript.Script.Minify

set_option autoImplicit false

/-! # Minified texts are canonical

A minified text shows what the text shows, comments and spaces aside. It has no comments, and only
those spaces that keep two characters from running into one token (`Compact`). A text of this form
is not changed when it is minified, so minifying twice is minifying once (`minify_canonical`).

Two characters that a minified text shows side by side are told apart from others that look the same
by what is shown up to them. They stood side by side before, or they need no space.
-/

namespace NumScript.Script

/-! ## What a text shows

The minifier goes over a text in one pass, while the text without comments and without spaces takes
two. They are compared along the pass, with what came since the last character that was kept. -/

/-- The text without its comments; the newline after a comment stays. With `inComment` the text
starts inside a comment. -/
def dropCommentsFrom (inComment : Bool) : List Char → List Char
  | [] => []
  | c :: rest =>
    if inComment then
      if c = '\n' then c :: dropCommentsFrom false rest else dropCommentsFrom true rest
    else if c = '#' then dropCommentsFrom true rest
    else c :: dropCommentsFrom false rest

def dropComments (text : List Char) : List Char :=
  dropCommentsFrom false text

def dropSpaces (text : List Char) : List Char :=
  text.filter fun c => !Text.isSpace c

/-- The characters of a text that are neither spaces nor part of a comment. With `inComment` the
text starts inside a comment. -/
def shownFrom (inComment : Bool) (text : List Char) : List Char :=
  dropSpaces (dropCommentsFrom inComment text)

def shown (text : List Char) : List Char :=
  shownFrom false text

section

variable {c : Char}

theorem dropSpaces_cons_of_space (h : Text.isSpace c = true) (t : List Char) :
    dropSpaces (c :: t) = dropSpaces t := by
  simp [dropSpaces, h]

theorem dropSpaces_cons_of_not_space (h : Text.isSpace c = false) (t : List Char) :
    dropSpaces (c :: t) = c :: dropSpaces t := by
  simp [dropSpaces, h]

theorem shownFrom_comment (c : Char) (t : List Char) :
    shownFrom true (c :: t) = shownFrom (c != '\n') t := by
  unfold shownFrom
  by_cases hc : c = '\n'
  · subst hc
    exact dropSpaces_cons_of_space (by decide) _
  · have hnext : (c != '\n') = true := by simpa using hc
    simp [dropCommentsFrom, hc, hnext]

theorem shown_cons (hhash : c ≠ '#') (t : List Char) :
    shown (c :: t) = dropSpaces (c :: dropComments t) := by
  simp [shown, shownFrom, dropCommentsFrom, dropComments, hhash]

theorem shown_cons_of_space (hhash : c ≠ '#') (h : Text.isSpace c = true) (t : List Char) :
    shown (c :: t) = shown t := by
  rw [shown_cons hhash, dropSpaces_cons_of_space h]
  rfl

theorem shown_cons_of_not_space (hhash : c ≠ '#') (h : Text.isSpace c = false) (t : List Char) :
    shown (c :: t) = c :: shown t := by
  rw [shown_cons hhash, dropSpaces_cons_of_not_space h]
  rfl

end

theorem isSpace_blank : Text.isSpace ' ' = true := by
  decide

/-- After one more character of a comment. -/
theorem decide_comment (c : Char) :
    decide ((if c = '\n' then Gap.open else Gap.comment) = Gap.comment) = (c != '\n') := by
  by_cases hc : c = '\n' <;> simp [hc]

/-- A minified text shows what the text shows. -/
theorem dropSpaces_minifyAfter (last : Option Char) (gap : Gap) (t : List Char) :
    dropSpaces (minifyAfter last gap t) = shownFrom (gap = .comment) t := by
  fun_induction minifyAfter last gap t with
  | case1 last gap => cases gap <;> rfl
  | case2 last c t ih =>
      rw [ih, decide_eq_true rfl, shownFrom_comment, decide_comment]
  | case3 last gap t hgap ih =>
      rw [ih, decide_eq_false hgap]
      rfl
  | case4 last gap c t hgap hhash hspace ih =>
      rw [ih, decide_eq_false hgap]
      exact (shown_cons_of_space hhash hspace t).symm
  | case5 last gap c t hgap hhash hspace _ ih | case6 last gap c t hgap hhash hspace _ ih =>
      rw [Bool.not_eq_true] at hspace
      rw [decide_eq_false hgap]
      simp only [dropSpaces_cons_of_space isSpace_blank, dropSpaces_cons_of_not_space hspace, ih]
      exact (shown_cons_of_not_space hhash hspace t).symm

/-! ## The form of a minified text

The form says what is not there: comments, and spaces that are not needed. A text of this form gives
the minifier nothing to do. -/

/-- After the character `last`, a text without comments whose only spaces keep two characters from
running into one token. -/
inductive Compact : Option Char → List Char → Prop
  | nil {last : Option Char} : Compact last []
  | char {last : Option Char} {c : Char} {t : List Char} : c ≠ '#' → Text.isSpace c = false →
      Compact (some c) t → Compact last (c :: t)
  | space {a c : Char} {t : List Char} : c ≠ '#' → Text.isSpace c = false →
      needsSpace a c = true → Compact (some c) t → Compact (some a) (' ' :: c :: t)

theorem compact_minifyAfter (last : Option Char) (gap : Gap) (t : List Char) :
    Compact last (minifyAfter last gap t) := by
  fun_induction minifyAfter last gap t with
  | case1 last gap => exact .nil
  | case2 last c t ih | case3 last gap t hgap ih => exact ih
  | case4 last gap c t hgap hhash hspace ih => exact ih
  | case5 last gap c t hgap hhash hspace hkept ih =>
      cases last with
      | none => cases hkept.2
      | some a => exact .space hhash (Bool.not_eq_true _ ▸ hspace) hkept.2 ih
  | case6 last gap c t hgap hhash hspace hkept ih =>
      exact .char hhash (Bool.not_eq_true _ ▸ hspace) ih

namespace Compact

variable {last : Option Char} {t : List Char}

/-- A text of this form is its own minified form. -/
theorem minifyAfter_eq (h : Compact last t) : minifyAfter last .closed t = t := by
  induction h with
  | nil => rfl
  | char hhash hspace _ ih => simp [minifyAfter, hhash, hspace, ih]
  | space hhash hspace hneeds _ ih =>
      simp [minifyAfter, hhash, hspace, hneeds, isSpace_blank, ih]

theorem hash_not_mem (h : Compact last t) : '#' ∉ t := by
  induction h with
  | nil => exact List.not_mem_nil
  | char hhash _ _ ih => simp [Ne.symm hhash, ih]
  | space hhash _ _ _ ih => simp [Ne.symm hhash, ih]

/-- Each space is single and stands between characters that need one. -/
theorem space_cases (h : Compact last t) {front back : List Char} {c : Char}
    (ht : t = front ++ c :: back) (hc : Text.isSpace c = true) :
    c = ' ' ∧ ∃ a ∈ (last.toList ++ front).getLast?, ∃ b ∈ back.head?, needsSpace a b = true := by
  induction h generalizing front with
  | nil => simp at ht
  | @char last d t _ hspace _ ih =>
      cases front with
      | nil =>
          obtain ⟨rfl, -⟩ := List.cons.inj ht
          rw [hspace] at hc
          cases hc
      | cons e front =>
          rw [List.cons_append] at ht
          obtain ⟨rfl, htail⟩ := List.cons.inj ht
          obtain ⟨hblank, a, ha, hb⟩ := ih htail
          exact ⟨hblank, a, by simpa using ha, hb⟩
  | @space a d t _ hspace hneeds _ ih =>
      rcases front with _ | ⟨e, _ | ⟨e', front⟩⟩
      · obtain ⟨rfl, rfl⟩ := List.cons.inj ht
        exact ⟨rfl, a, by simp, d, rfl, hneeds⟩
      · obtain ⟨-, htail⟩ := List.cons.inj ht
        obtain ⟨rfl, -⟩ := List.cons.inj htail
        rw [hspace] at hc
        cases hc
      · rw [List.cons_append, List.cons_append] at ht
        obtain ⟨-, htail⟩ := List.cons.inj ht
        obtain ⟨rfl, hback⟩ := List.cons.inj htail
        obtain ⟨hblank, a', ha, hb⟩ := ih hback
        exact ⟨hblank, a', by simpa using ha, hb⟩

end Compact

/-! ## Characters side by side

Dropping spaces and comments moves characters together. That they may stand together is what the
kept spaces are for, so whatever stands side by side afterwards did so before, or needs no space. -/

/-- The text shows `a` and then `b`, behind the characters `front`. They stand side by side, or they
need no space. With `inComment` the text starts inside a comment. -/
def ShowsPair (inComment : Bool) (t front : List Char) (a b : Char) : Prop :=
  ∃ before dropped after, t = before ++ a :: (dropped ++ b :: after) ∧
    shownFrom inComment (before ++ [a]) = front ++ [a] ∧
    shownFrom inComment (before ++ a :: (dropped ++ [b])) = front ++ [a, b] ∧
    (dropped = [] ∨ needsSpace a b = false)

section

variable {inComment : Bool} {t front back : List Char} {a b c : Char}

/-- A character that is not shown makes no difference. -/
theorem ShowsPair.cons_dropped {next : Bool} (h : ShowsPair next t front a b)
    (hc : ∀ r, shownFrom inComment (c :: r) = shownFrom next r) :
    ShowsPair inComment (c :: t) front a b := by
  obtain ⟨before, dropped, after, rfl, hfirst, hsecond, hor⟩ := h
  refine ⟨c :: before, dropped, after, rfl, ?_, ?_, hor⟩
  · rw [List.cons_append, hc, hfirst]
  · rw [List.cons_append, hc, hsecond]

theorem ShowsPair.cons_shown (h : ShowsPair false t front a b) (hhash : c ≠ '#')
    (hspace : Text.isSpace c = false) : ShowsPair false (c :: t) (c :: front) a b := by
  obtain ⟨before, dropped, after, rfl, hfirst, hsecond, hor⟩ := h
  have hcons (r : List Char) : shownFrom false (c :: r) = c :: shownFrom false r :=
    shown_cons_of_not_space hhash hspace r
  refine ⟨c :: before, dropped, after, rfl, ?_, ?_, hor⟩
  · rw [List.cons_append, hcons, hfirst, List.cons_append]
  · rw [List.cons_append, hcons, hsecond, List.cons_append]

/-- A minified text goes on after the character `a` with the next one that is shown. -/
theorem exists_next {last : Option Char} {gap : Gap} (hlast : last = some a)
    (h : minifyAfter last gap t = b :: back) (hb : Text.isSpace b = false) :
    ∃ dropped after, t = dropped ++ b :: after ∧
      shownFrom (gap = .comment) (dropped ++ [b]) = [b] ∧
      (gap = .closed ∧ dropped = [] ∨ needsSpace a b = false) := by
  -- the induction is the pass of the minifier: what is dropped is collected in front of `b`
  fun_induction minifyAfter last gap t with
  | case1 last gap => cases h
  | case2 last c t ih =>
      obtain ⟨dropped, after, rfl, hshown, hor⟩ := ih hlast h
      refine ⟨c :: dropped, after, rfl, ?_, .inr (hor.resolve_left ?_)⟩
      · rw [List.cons_append, decide_eq_true rfl, shownFrom_comment, ← decide_comment, hshown]
      · rintro ⟨hclosed, -⟩
        split at hclosed <;> cases hclosed
  | case3 last gap t hgap ih =>
      obtain ⟨dropped, after, rfl, hshown, hor⟩ := ih hlast h
      refine ⟨'#' :: dropped, after, rfl, ?_, .inr (hor.resolve_left ?_)⟩
      · rw [List.cons_append, decide_eq_false hgap]
        exact hshown
      · rintro ⟨⟨⟩, -⟩
  | case4 last gap c t hgap hhash hspace ih =>
      obtain ⟨dropped, after, rfl, hshown, hor⟩ := ih hlast h
      refine ⟨c :: dropped, after, rfl, ?_, .inr (hor.resolve_left ?_)⟩
      · rw [List.cons_append, decide_eq_false hgap]
        exact (shown_cons_of_space hhash hspace _).trans hshown
      · rintro ⟨⟨⟩, -⟩
  | case5 last gap c t hgap hhash hspace hkept ih =>
      obtain ⟨rfl, -⟩ := List.cons.inj h
      rw [isSpace_blank] at hb
      cases hb
  | case6 last gap c t hgap hhash hspace hkept ih =>
      obtain ⟨rfl, -⟩ := List.cons.inj h
      refine ⟨[], t, rfl, ?_, ?_⟩
      · rw [decide_eq_false hgap]
        exact shown_cons_of_not_space hhash hb []
      · cases gap with
        | closed => exact .inl ⟨rfl, rfl⟩
        | comment => exact absurd rfl hgap
        | «open» =>
            rw [hlast] at hkept
            exact .inr (by simpa using hkept)

/-- Two characters that stand side by side from a character on that is shown: the first of them is
this one, or both come later. -/
theorem showsPair_of_shown (hhash : c ≠ '#') (hspace : Text.isSpace c = false)
    (hb : Text.isSpace b = false) (h : c :: minifyAfter (some c) .closed t = front ++ a :: b :: back)
    (hlater : ∀ {front}, minifyAfter (some c) .closed t = front ++ a :: b :: back →
      ShowsPair false t (dropSpaces front) a b) :
    ShowsPair false (c :: t) (dropSpaces front) a b := by
  cases front with
  | nil =>
      obtain ⟨rfl, hnext⟩ := List.cons.inj h
      obtain ⟨dropped, after, rfl, hshown, hor⟩ := exists_next rfl hnext hb
      refine ⟨[], dropped, after, rfl, ?_, ?_, hor.imp_left And.right⟩
      · exact shown_cons_of_not_space hhash hspace []
      · exact (shown_cons_of_not_space hhash hspace _).trans (congrArg (c :: ·) hshown)
  | cons d front =>
      rw [List.cons_append] at h
      obtain ⟨rfl, hrest⟩ := List.cons.inj h
      rw [dropSpaces_cons_of_not_space hspace]
      exact (hlater hrest).cons_shown hhash hspace

/-- Two characters that stand side by side in a minified text. -/
theorem showsPair_of_minifyAfter {last : Option Char} {gap : Gap}
    (h : minifyAfter last gap t = front ++ a :: b :: back) (ha : Text.isSpace a = false)
    (hb : Text.isSpace b = false) : ShowsPair (gap = .comment) t (dropSpaces front) a b := by
  fun_induction minifyAfter last gap t generalizing front with
  | case1 last gap => simp at h
  | case2 last c t ih =>
      refine (ih h).cons_dropped fun r => ?_
      rw [decide_eq_true rfl, shownFrom_comment, decide_comment]
  | case3 last gap t hgap ih =>
      refine (ih h).cons_dropped fun r => ?_
      rw [decide_eq_false hgap]
      rfl
  | case4 last gap c t hgap hhash hspace ih =>
      refine (ih h).cons_dropped fun r => ?_
      rw [decide_eq_false hgap]
      exact shown_cons_of_space hhash hspace r
  | case5 last gap c t hgap hhash hspace _ ih =>
      rw [Bool.not_eq_true] at hspace
      rw [decide_eq_false hgap]
      cases front with
      | nil =>
          -- the space that is kept is none of the two
          obtain ⟨rfl, -⟩ := List.cons.inj h
          rw [isSpace_blank] at ha
          cases ha
      | cons d front =>
          rw [List.cons_append] at h
          obtain ⟨rfl, hrest⟩ := List.cons.inj h
          rw [dropSpaces_cons_of_space isSpace_blank]
          exact showsPair_of_shown hhash hspace hb hrest ih
  | case6 last gap c t hgap hhash hspace _ ih =>
      rw [Bool.not_eq_true] at hspace
      rw [decide_eq_false hgap]
      exact showsPair_of_shown hhash hspace hb h ih

end

/-! ## Canonical texts -/

/-- A minified text has no comments, and its spaces are single ones between two word characters or
two operator characters. It shows what the text shows. What it shows side by side stood side by side
before, or needs no space. And it is its own minified form. -/
theorem minify_canonical (s : List Char) :
    '#' ∉ minify s ∧
    (∀ front c back, minify s = front ++ c :: back → Text.isSpace c = true →
      c = ' ' ∧ ∃ a ∈ front.getLast?, ∃ b ∈ back.head?,
        (isMinifyWord a = true ∧ isMinifyWord b = true) ∨
          (isMinifyOperator a = true ∧ isMinifyOperator b = true)) ∧
    dropSpaces (minify s) = dropSpaces (dropComments s) ∧
    (∀ front a b back, minify s = front ++ a :: b :: back → Text.isSpace a = false →
      Text.isSpace b = false → ShowsPair false s (dropSpaces front) a b) ∧
    minify (minify s) = minify s := by
  have hcompact : Compact none (minify s) := compact_minifyAfter none .closed s
  refine ⟨hcompact.hash_not_mem, ?_, dropSpaces_minifyAfter none .closed s, ?_,
    hcompact.minifyAfter_eq⟩
  · intro front c back hs hc
    obtain ⟨hblank, a, ha, b, hb, hneeds⟩ := hcompact.space_cases hs hc
    simp only [needsSpace, Bool.or_eq_true, Bool.and_eq_true] at hneeds
    exact ⟨hblank, a, ha, b, hb, hneeds⟩
  · intro front a b back hs ha hb
    have hpair : ShowsPair (Gap.closed = .comment) s (dropSpaces front) a b :=
      showsPair_of_minifyAfter hs ha hb
    exact hpair

/-- The main statement for a text with a comment in front of an operator: one space is kept there,
and `a` and `>` come to stand side by side. -/
theorem minify_canonical_comment :
    let s := "a > # over\n- 1".toList
    minify s = "a> -1".toList ∧ '#' ∉ minify s ∧
      (∃ a ∈ ['a', '>'].getLast?, ∃ b ∈ ['-', '1'].head?,
        (isMinifyWord a = true ∧ isMinifyWord b = true) ∨
          (isMinifyOperator a = true ∧ isMinifyOperator b = true)) ∧
      ShowsPair false s [] 'a' '>' ∧ minify (minify s) = minify s := by
  intro s
  have hminify : minify s = "a> -1".toList := by decide +kernel
  obtain ⟨hhash, hspace, -, hpair, htwice⟩ := minify_canonical s
  exact ⟨hminify, hhash, (hspace ['a', '>'] ' ' ['-', '1'] hminify (by decide)).2,
    hpair [] 'a' '>' [' ', '-', '1'] hminify (by decide) (by decide), htwice⟩

end NumScript.Script
