import NumScript.Proofs.Expr.Spelling

set_option autoImplicit false

/-! # Blanks around an expression

Blanks at the two ends of an expression change neither its value nor the way it is quoted.

Statements take their parameters as they are written, with the blanks around them, so this is what
makes a script and its minified form evaluate the same expressions and quote them alike in errors.
-/

namespace NumScript.Expr

def IsBlanks (text : List Char) : Prop :=
  ∀ c ∈ text, Text.isBlank c = true

/-! ## Lexemes -/

theorem takeWhile_append_of_head_false {p : Char → Bool} {text more : List Char}
    (hmore : ∀ c ∈ more.head?, p c = false) :
    (text ++ more).takeWhile p = text.takeWhile p ∧
      (text ++ more).dropWhile p = text.dropWhile p ++ more := by
  induction text with
  | nil =>
      have hnil : ∀ c ∈ ([] : List Char), p c = true := fun _ h => absurd h List.not_mem_nil
      exact ⟨takeWhile_append_of_head hnil hmore, dropWhile_append_of_head hnil hmore⟩
  | cons c text ih =>
      by_cases hc : p c = true
      · simp [hc, ih.1, ih.2]
      · simp [hc]

theorem IsBlanks.head {blanks : List Char} (h : IsBlanks blanks) {p : Char → Bool}
    (hp : ∀ c, Text.isBlank c = true → p c = false) : ∀ c ∈ blanks.head?, p c = false :=
  fun c hc => hp c (h c (List.mem_of_mem_head? hc))

theorem isNumberChar_of_isBlank {c : Char} (h : Text.isBlank c = true) : isNumberChar c = false := by
  simp only [Text.isBlank, Bool.or_eq_true, beq_iff_eq] at h
  rcases h with (((rfl | rfl) | rfl) | rfl) | rfl <;> decide

theorem isWordChar_of_isBlank {c : Char} (h : Text.isBlank c = true) : isWordChar c = false := by
  simp only [Text.isBlank, Bool.or_eq_true, beq_iff_eq] at h
  rcases h with (((rfl | rfl) | rfl) | rfl) | rfl <;> decide

theorem isSymbolChar_of_isBlank {c : Char} (h : Text.isBlank c = true) : isSymbolChar c = false := by
  simp only [isSymbolChar, h, Bool.true_or, Bool.not_true]

theorem Lexeme.first_append_blanks (c : Char) {rest blanks : List Char} (h : IsBlanks blanks) :
    Lexeme.first c (rest ++ blanks) = ((Lexeme.first c rest).1, (Lexeme.first c rest).2 ++ blanks) := by
  obtain ⟨hnum, hnum'⟩ := @takeWhile_append_of_head_false isNumberChar rest _
    (h.head fun _ => isNumberChar_of_isBlank)
  obtain ⟨hword, hword'⟩ := @takeWhile_append_of_head_false isWordChar rest _
    (h.head fun _ => isWordChar_of_isBlank)
  obtain ⟨hsym, hsym'⟩ := @takeWhile_append_of_head_false isSymbolChar rest _
    (h.head fun _ => isSymbolChar_of_isBlank)
  unfold Lexeme.first
  rw [hnum, hnum', hword, hword', hsym, hsym']
  split
  · rfl
  split
  · rfl
  split
  · rfl
  split
  · rfl
  split
  · rfl
  split <;> rfl

theorem lexemes_append_blanks {text blanks : List Char} (h : IsBlanks blanks) :
    lexemes (text ++ blanks) = lexemes text := by
  induction text using lexemes.induct with
  | case1 =>
      have := @lexemes_blanks_append blanks [] h
      rwa [List.append_nil] at this
  | case2 c rest ih =>
      rw [List.cons_append, lexemes, lexemes, Lexeme.first_append_blanks c h, ih]

/-! ## Values -/

theorem count_eq_zero_of_isBlanks {blanks : List Char} (h : IsBlanks blanks) {c : Char}
    (hc : Text.isBlank c = false) : blanks.count c = 0 := by
  rw [List.count_eq_zero]
  intro hmem
  rw [h c hmem] at hc
  exact Bool.false_ne_true hc.symm

/-- The value of an expression depends on its lexemes and its brackets only. -/
theorem evaluate_congr (names : Names) {text text' : List Char} (hlex : lexemes text = lexemes text')
    (hopen : text.count '(' = text'.count '(') (hclose : text.count ')' = text'.count ')') :
    evaluate names text = evaluate names text' := by
  unfold evaluate toPostfix checkBrackets
  rw [hlex, hopen, hclose]

theorem evaluate_blanks_append (names : Names) {text blanks : List Char} (h : IsBlanks blanks) :
    evaluate names (blanks ++ text) = evaluate names text := by
  refine evaluate_congr names (lexemes_blanks_append h) ?_ ?_
  · rw [List.count_append, count_eq_zero_of_isBlanks h (by decide), Nat.zero_add]
  · rw [List.count_append, count_eq_zero_of_isBlanks h (by decide), Nat.zero_add]

theorem evaluate_append_blanks (names : Names) {text blanks : List Char} (h : IsBlanks blanks) :
    evaluate names (text ++ blanks) = evaluate names text := by
  refine evaluate_congr names (lexemes_append_blanks h) ?_ ?_
  · rw [List.count_append, count_eq_zero_of_isBlanks h (by decide), Nat.add_zero]
  · rw [List.count_append, count_eq_zero_of_isBlanks h (by decide), Nat.add_zero]

/-! ## Quotes -/

/-- A quote keeps every character that is no space. -/
theorem mem_trim {text : List Char} {c : Char} (hc : Text.isSpace c = false) (h : c ∈ text) :
    c ∈ Text.trim text := by
  have hdrop {s : List Char} (h : c ∈ s) : c ∈ s.dropWhile Text.isSpace := by
    rw [← List.takeWhile_append_dropWhile (p := Text.isSpace) (l := s), List.mem_append] at h
    refine h.resolve_left fun h => ?_
    rw [eq_true_of_mem_takeWhile c h] at hc
    cases hc
  unfold Text.trim
  exact List.mem_reverse.2 (hdrop (List.mem_reverse.2 (hdrop h)))

theorem trim_blanks_append {text blanks : List Char} (h : IsBlanks blanks) :
    Text.trim (blanks ++ text) = Text.trim text := by
  unfold Text.trim
  rw [List.dropWhile_append_of_pos fun c hc => Text.isSpace_of_isBlank (h c hc)]

theorem trim_append_blanks {text blanks : List Char} (h : IsBlanks blanks) :
    Text.trim (text ++ blanks) = Text.trim text := by
  have hspace : ∀ c ∈ blanks, Text.isSpace c = true := fun c hc => Text.isSpace_of_isBlank (h c hc)
  have hreverse (s : List Char) :
      (s ++ blanks).reverse.dropWhile Text.isSpace = s.reverse.dropWhile Text.isSpace := by
    rw [List.reverse_append, List.dropWhile_append_of_pos fun c hc => hspace c (List.mem_reverse.1 hc)]
  unfold Text.trim
  rw [List.dropWhile_append]
  split
  · rename_i hnil
    rw [List.isEmpty_iff] at hnil
    have hblanks : (blanks ++ []).dropWhile Text.isSpace = [] :=
      List.dropWhile_append_of_pos hspace
    rw [List.append_nil] at hblanks
    rw [hnil, hblanks]
  · rw [hreverse]

end NumScript.Expr
