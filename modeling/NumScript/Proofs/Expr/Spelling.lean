import NumScript.Proofs.Expr.Grammar

set_option autoImplicit false

/-! # Spelled sentences

A sentence is spelled by writing its lexemes one after the other with blanks between them. The
blanks may be left out where the next character would not continue the lexeme before it. Whatever
the blanks, the lexemes of the text are those of the sentence (`lexemes_of_spells`), and the
brackets of a sentence are as many on either side (`checkBrackets_of_spells`). Conversely every text
is a spelling of its lexemes (`spells_lexemes`).
-/

namespace NumScript.Expr

/-! ## Lexemes as they are written

A lexeme is proper if it has the form of its sort. Proper lexemes are written one after the other,
and a blank is needed between two of them only where the second would continue the first. -/

namespace Lexeme

def text : Lexeme → List Char
  | number text => text
  | word text => text
  | opening => ['(']
  | closing => [')']
  | symbol text => text

/-- Whether a character right after a lexeme would be taken for a part of it. -/
def isContinuedBy : Lexeme → Char → Bool
  | number _, c => isNumberChar c
  | word _, c => isWordChar c
  | opening, _ => false
  | closing, _ => false
  | symbol text, c => !text.all isSingleSymbol && isSymbolChar c

def startsSymbol (c : Char) : Bool :=
  !(Text.isBlank c || c.isDigit || isWordStart c || c == '(' || c == ')')

/-- A lexeme that has the form of its sort. -/
def Proper : Lexeme → Prop
  | number text => ∃ c rest, text = c :: rest ∧ c.isDigit = true ∧ ∀ d ∈ rest, isNumberChar d = true
  | word text => ∃ c rest, text = c :: rest ∧ isWordStart c = true ∧ ∀ d ∈ rest, isWordChar d = true
  | opening => True
  | closing => True
  | symbol text =>
    (∃ c, text = [c] ∧ isSingleSymbol c = true) ∨
      ∃ c rest, text = c :: rest ∧ startsSymbol c = true ∧ isSingleSymbol c = false ∧
        ∀ d ∈ rest, isSymbolChar d = true

end Lexeme

/-- `Spells s text`: the text is the lexemes of `s` with blanks before, between and after them, and
no lexeme runs into what follows it. -/
inductive Spells : List Lexeme → List Char → Prop where
  | nil {blanks : List Char} : (∀ c ∈ blanks, Text.isBlank c = true) → Spells [] blanks
  | cons {blanks text : List Char} {l : Lexeme} {s : List Lexeme} :
      (∀ c ∈ blanks, Text.isBlank c = true) → (∀ c ∈ text.head?, l.isContinuedBy c = false) →
      Spells s text → Spells (l :: s) (blanks ++ l.text ++ text)

theorem Function.lexeme_proper (f : Function) : f.lexeme.Proper := by
  cases f <;> exact ⟨_, _, rfl, by decide, List.all_eq_true.1 (by decide)⟩

theorem Operator.lexeme_proper {op : Operator} (h : op.isBracket = false) : op.lexeme.Proper := by
  cases op
  case add | sub | mul | div | mod | pow => exact .inl ⟨_, rfl, by decide⟩
  case leftBracket | rightBracket => exact absurd h (by decide)
  all_goals exact .inr ⟨_, _, rfl, by decide, by decide, List.all_eq_true.1 (by decide)⟩

theorem Phrase.proper {part : Part} {s : List Lexeme} (h : Phrase part s) : ∀ l ∈ s, l.Proper := by
  induction h with
  | number hnum =>
      intro l hl
      rw [List.mem_singleton.1 hl]
      exact hnum.1
  | name hname =>
      intro l hl
      rw [List.mem_singleton.1 hl]
      exact hname.1
  | group _ ih =>
      intro l hl
      simp only [List.mem_append, List.mem_cons, List.not_mem_nil, or_false] at hl
      rcases hl with (rfl | hl) | rfl
      · trivial
      · exact ih l hl
      · trivial
  | atom _ ih => exact ih
  | apply f _ ih =>
      intro l hl
      rcases List.mem_cons.1 hl with rfl | hl
      · exact f.lexeme_proper
      · exact ih l hl
  | minus _ ih =>
      intro l hl
      rcases List.mem_cons.1 hl with rfl | hl
      · exact .inl ⟨_, rfl, by decide⟩
      · exact ih l hl
  | factor _ ih => exact ih
  | binary op hop _ _ ihs ihs' =>
      intro l hl
      rcases List.mem_append.1 hl with hl | hl
      · exact ihs l hl
      · rcases List.mem_cons.1 hl with rfl | hl
        · exact Operator.lexeme_proper hop
        · exact ihs' l hl

/-! ## The lexemes of a spelled sentence

Reading back is an induction on the spelling. In each step a lexeme is read as far as its class of
characters goes, which is to its end, since the spelling says that the next character does not
continue it. -/

theorem takeWhile_append_of_head {p : Char → Bool} {rest text : List Char}
    (hrest : ∀ c ∈ rest, p c = true) (htext : ∀ c ∈ text.head?, p c = false) :
    (rest ++ text).takeWhile p = rest := by
  rw [List.takeWhile_append_of_pos hrest]
  cases text with
  | nil => simp
  | cons c text => simp [htext c rfl]

theorem dropWhile_append_of_head {p : Char → Bool} {rest text : List Char}
    (hrest : ∀ c ∈ rest, p c = true) (htext : ∀ c ∈ text.head?, p c = false) :
    (rest ++ text).dropWhile p = text := by
  rw [List.dropWhile_append_of_pos hrest]
  cases text with
  | nil => rfl
  | cons c text => simp [htext c rfl]

theorem lexemes_blanks_append {blanks text : List Char}
    (h : ∀ c ∈ blanks, Text.isBlank c = true) : lexemes (blanks ++ text) = lexemes text := by
  induction blanks with
  | nil => rfl
  | cons c blanks ih =>
      have hc : Lexeme.first c (blanks ++ text) = (none, blanks ++ text) := by
        simp [Lexeme.first, h c (by simp)]
      rw [List.cons_append, lexemes, hc]
      exact ih fun d hd => h d (by simp [hd])

theorem isBlank_eq_false_of_isDigit {c : Char} (h : c.isDigit = true) : Text.isBlank c = false := by
  rw [Text.isBlank]
  refine Bool.eq_false_iff.2 fun hb => ?_
  simp only [Bool.or_eq_true, beq_iff_eq] at hb
  rcases hb with (((rfl | rfl) | rfl) | rfl) | rfl <;> exact absurd h (by decide)

theorem isBlank_eq_false_of_isWordStart {c : Char} (h : isWordStart c = true) :
    Text.isBlank c = false := by
  rw [Text.isBlank]
  refine Bool.eq_false_iff.2 fun hb => ?_
  simp only [Bool.or_eq_true, beq_iff_eq] at hb
  rcases hb with (((rfl | rfl) | rfl) | rfl) | rfl <;> exact absurd h (by decide)

theorem isDigit_eq_false_of_isWordStart {c : Char} (h : isWordStart c = true) :
    c.isDigit = false := by
  simp only [isWordStart, Bool.or_eq_true, beq_iff_eq] at h
  rcases h with h | rfl
  · refine Bool.eq_false_iff.2 fun hd => ?_
    change (decide (c.val ≥ 'A'.val ∧ c.val ≤ 'Z'.val) ||
      (decide (c.val ≥ 'a'.val) && decide (c.val ≤ 'z'.val))) = true at h
    change (decide (c.val ≥ '0'.val) && decide (c.val ≤ '9'.val)) = true at hd
    simp only [Bool.or_eq_true, Bool.and_eq_true, decide_eq_true_eq, ge_iff_le,
      UInt32.le_iff_toNat_le] at h hd
    change (65 ≤ c.toNat ∧ c.toNat ≤ 90) ∨ (97 ≤ c.toNat ∧ c.toNat ≤ 122) at h
    change 48 ≤ c.toNat ∧ c.toNat ≤ 57 at hd
    omega
  · decide

/-- A proper lexeme is read back, if what follows does not continue it. -/
theorem lexemes_append_of_proper {l : Lexeme} {text : List Char} (hl : l.Proper)
    (htext : ∀ c ∈ text.head?, l.isContinuedBy c = false) :
    lexemes (l.text ++ text) = l :: lexemes text := by
  -- the run of the class that the lexeme starts with ends where the lexeme does
  cases l with
  | number t =>
      obtain ⟨c, rest, rfl, hc, hrest⟩ := hl
      have hf : Lexeme.first c (rest ++ text) = (some (.number (c :: rest)), text) := by
        rw [Lexeme.first, isBlank_eq_false_of_isDigit hc, hc, takeWhile_append_of_head hrest htext,
          dropWhile_append_of_head hrest htext]
        rfl
      rw [Lexeme.text, List.cons_append, lexemes, hf]
      rfl
  | word t =>
      obtain ⟨c, rest, rfl, hc, hrest⟩ := hl
      have hf : Lexeme.first c (rest ++ text) = (some (.word (c :: rest)), text) := by
        rw [Lexeme.first, isBlank_eq_false_of_isWordStart hc, isDigit_eq_false_of_isWordStart hc,
          hc, takeWhile_append_of_head hrest htext, dropWhile_append_of_head hrest htext]
        rfl
      rw [Lexeme.text, List.cons_append, lexemes, hf]
      rfl
  | opening =>
      rw [Lexeme.text, List.singleton_append, lexemes]
      rfl
  | closing =>
      rw [Lexeme.text, List.singleton_append, lexemes]
      rfl
  | symbol t =>
      rcases hl with ⟨c, rfl, hc⟩ | ⟨c, rest, rfl, hc, hsingle, hrest⟩
      · have hf : Lexeme.first c text = (some (.symbol [c]), text) := by
          simp only [isSingleSymbol, Bool.or_eq_true, beq_iff_eq] at hc
          rcases hc with ((((rfl | rfl) | rfl) | rfl) | rfl) | rfl <;> rfl
        rw [Lexeme.text, List.singleton_append, lexemes, hf]
        rfl
      · have htext' : ∀ d ∈ text.head?, isSymbolChar d = false := by
          intro d hd
          have := htext d hd
          simpa [Lexeme.isContinuedBy, hsingle] using this
        have hf : Lexeme.first c (rest ++ text) = (some (.symbol (c :: rest)), text) := by
          simp only [Lexeme.startsSymbol, Bool.not_eq_true', Bool.or_eq_false_iff,
            beq_eq_false_iff_ne] at hc
          obtain ⟨⟨⟨⟨hblank, hdigit⟩, hword⟩, hopen⟩, hclose⟩ := hc
          rw [Lexeme.first, hblank, hdigit, hword, hsingle, takeWhile_append_of_head hrest htext',
            dropWhile_append_of_head hrest htext']
          simp [hopen, hclose]
        rw [Lexeme.text, List.cons_append, lexemes, hf]
        rfl

/-- The lexemes of a spelled sentence are its own. -/
theorem lexemes_of_spells {s : List Lexeme} {text : List Char} (h : Spells s text)
    (hs : ∀ l ∈ s, l.Proper) : lexemes text = s := by
  induction h with
  | nil hblanks =>
      have h : lexemes (_ ++ []) = lexemes [] := lexemes_blanks_append hblanks
      rw [List.append_nil] at h
      rw [h, lexemes]
  | cons hblanks hglue _ ih =>
      rw [List.append_assoc, lexemes_blanks_append hblanks,
        lexemes_append_of_proper (hs _ (by simp)) hglue, ih fun l hl => hs l (by simp [hl])]

/-! ## Every text spells its lexemes

The converse needs no grammar. Whatever a text is, reading it greedily splits it into proper lexemes
that do not run into each other. So statements about spelled sentences can be turned into statements
about texts whose lexemes form a sentence. -/

theorem Spells.cons_blank {s : List Lexeme} {text : List Char} {c : Char} (h : Spells s text)
    (hc : Text.isBlank c = true) : Spells s (c :: text) := by
  cases h with
  | nil hblanks => exact .nil fun d hd => (List.mem_cons.1 hd).elim (fun h => h ▸ hc) (hblanks d)
  | @cons blanks text l s hblanks hglue htext =>
      have hmore : ∀ d ∈ c :: blanks, Text.isBlank d = true :=
        fun d hd => (List.mem_cons.1 hd).elim (fun h => h ▸ hc) (hblanks d)
      exact .cons hmore hglue htext

theorem head?_dropWhile_eq_false (p : Char → Bool) (text : List Char) :
    ∀ c ∈ (text.dropWhile p).head?, p c = false := by
  intro c hc
  have h := List.head?_dropWhile_not p text
  rw [Option.mem_def.1 hc] at h
  exact h

theorem eq_true_of_mem_takeWhile {α : Type} {p : α → Bool} {l : List α} :
    ∀ a ∈ l.takeWhile p, p a = true :=
  List.all_eq_true.1 List.all_takeWhile

/-- The first lexeme of a text is proper, and nothing after it continues it. -/
theorem Lexeme.first_spec (c : Char) (rest : List Char) :
    (Text.isBlank c = true ∧ Lexeme.first c rest = (none, rest)) ∨
      ∃ l, (Lexeme.first c rest).1 = some l ∧ l.Proper ∧
        c :: rest = l.text ++ (Lexeme.first c rest).2 ∧
        ∀ d ∈ (Lexeme.first c rest).2.head?, l.isContinuedBy d = false := by
  -- the tests that failed are kept, since a symbol starts with what none of them lets through
  unfold Lexeme.first
  split
  · rename_i hb
    exact .inl ⟨hb, rfl⟩
  rename_i hb
  have hsplit (p : Char → Bool) : c :: rest = c :: rest.takeWhile p ++ rest.dropWhile p := by
    rw [List.cons_append, List.takeWhile_append_dropWhile]
  right
  split
  · rename_i hd
    exact ⟨_, rfl, ⟨c, _, rfl, hd, eq_true_of_mem_takeWhile⟩, hsplit _, head?_dropWhile_eq_false _ _⟩
  rename_i hd
  split
  · rename_i hw
    exact ⟨_, rfl, ⟨c, _, rfl, hw, eq_true_of_mem_takeWhile⟩, hsplit _, head?_dropWhile_eq_false _ _⟩
  rename_i hw
  split
  · rename_i ho
    exact ⟨_, rfl, trivial, by rw [ho]; rfl, fun _ _ => rfl⟩
  rename_i ho
  split
  · rename_i hc
    exact ⟨_, rfl, trivial, by rw [hc]; rfl, fun _ _ => rfl⟩
  rename_i hc
  split
  · rename_i hs
    exact ⟨_, rfl, .inl ⟨c, rfl, hs⟩, rfl, fun _ _ => by simp [isContinuedBy, hs]⟩
  · rename_i hs
    refine ⟨_, rfl, .inr ⟨c, _, rfl, ?_, by simpa using hs, eq_true_of_mem_takeWhile⟩, hsplit _, ?_⟩
    · simp [startsSymbol, hb, hd, hw, ho, hc]
    · intro d hd
      simp [isContinuedBy, head?_dropWhile_eq_false _ _ d hd]

/-- Every text is a spelling of its lexemes, and these are proper. -/
theorem spells_lexemes (text : List Char) :
    Spells (lexemes text) text ∧ ∀ l ∈ lexemes text, l.Proper := by
  induction text using lexemes.induct with
  | case1 =>
      rw [lexemes]
      exact ⟨.nil fun _ h => absurd h List.not_mem_nil, fun _ h => absurd h List.not_mem_nil⟩
  | case2 c rest ih =>
      rw [lexemes]
      rcases Lexeme.first_spec c rest with ⟨hb, heq⟩ | ⟨l, hl, hproper, htext, hglue⟩
      · rw [heq] at ih ⊢
        exact ⟨ih.1.cons_blank hb, ih.2⟩
      · rw [hl]
        constructor
        · have h : Spells (l :: _) ([] ++ l.text ++ _) :=
            .cons (fun _ h => absurd h List.not_mem_nil) hglue ih.1
          rw [List.nil_append, ← htext] at h
          exact h
        · intro l' hl'
          rcases List.mem_cons.1 hl' with rfl | hl'
          · exact hproper
          · exact ih.2 l' hl'

theorem mem_text_of_lexeme_mem {text : List Char} {l : Lexeme} (h : l ∈ lexemes text) :
    ∀ c ∈ l.text, c ∈ text := by
  have hspells := (spells_lexemes text).1
  generalize lexemes text = s at h hspells
  induction hspells with
  | nil _ => cases h
  | cons _ _ _ ih =>
      intro c hc
      rcases List.mem_cons.1 h with rfl | h
      · simp [hc]
      · simp [ih h c hc]

/-! ## Brackets

The bracket count is taken on the characters of a text and not on its lexemes. Both come to the same
because no other lexeme contains a bracket. -/

theorem Phrase.count_opening {part : Part} {s : List Lexeme} (h : Phrase part s) :
    s.count .opening = s.count .closing := by
  induction h with
  | number _ => rfl
  | name _ => rfl
  | group _ ih => simp [List.count_append, ih]
  | atom _ ih => exact ih
  | apply f _ ih => simpa [Function.lexeme] using ih
  | minus _ ih => simpa using ih
  | factor _ ih => exact ih
  | binary op _ _ _ ihs ihs' => simp [Operator.lexeme, ihs, ihs']

/-- Apart from the two brackets no proper lexeme contains a bracket. -/
theorem Lexeme.Proper.count_text {l : Lexeme} (h : l.Proper) :
    l.text.count '(' = [l].count .opening ∧ l.text.count ')' = [l].count .closing := by
  have none_in {t : List Char} (ht : ∀ c ∈ t, c ≠ '(' ∧ c ≠ ')') :
      t.count '(' = 0 ∧ t.count ')' = 0 :=
    ⟨List.count_eq_zero.2 fun hmem => (ht _ hmem).1 rfl,
      List.count_eq_zero.2 fun hmem => (ht _ hmem).2 rfl⟩
  have apart {p : Char → Bool} (hopen : p '(' = false) (hclose : p ')' = false) {c : Char}
      (hc : p c = true) : c ≠ '(' ∧ c ≠ ')' := by
    constructor <;> rintro rfl
    · exact absurd hc (by simp [hopen])
    · exact absurd hc (by simp [hclose])
  cases l with
  | number t =>
      obtain ⟨c, rest, rfl, hc, hrest⟩ := h
      refine none_in fun d hd => ?_
      rcases List.mem_cons.1 hd with rfl | hd
      · exact apart (by decide) (by decide) hc
      · exact apart (by decide) (by decide) (hrest d hd)
  | word t =>
      obtain ⟨c, rest, rfl, hc, hrest⟩ := h
      refine none_in fun d hd => ?_
      rcases List.mem_cons.1 hd with rfl | hd
      · exact apart (by decide) (by decide) hc
      · exact apart (by decide) (by decide) (hrest d hd)
  | opening => decide
  | closing => decide
  | symbol t =>
      rcases h with ⟨c, rfl, hc⟩ | ⟨c, rest, rfl, hc, -, hrest⟩
      · refine none_in fun d hd => ?_
        rw [List.mem_singleton.1 hd]
        exact apart (by decide) (by decide) hc
      · refine none_in fun d hd => ?_
        rcases List.mem_cons.1 hd with rfl | hd
        · exact apart (by decide) (by decide) hc
        · exact apart (by decide) (by decide) (hrest d hd)

theorem count_of_spells {s : List Lexeme} {text : List Char} (h : Spells s text)
    (hs : ∀ l ∈ s, l.Proper) :
    text.count '(' = s.count .opening ∧ text.count ')' = s.count .closing := by
  have blanks_count {blanks : List Char} (hb : ∀ c ∈ blanks, Text.isBlank c = true) (c : Char)
      (hc : Text.isBlank c = false) : blanks.count c = 0 :=
    List.count_eq_zero.2 fun hmem => absurd (hb c hmem) (by simp [hc])
  induction h with
  | nil hb => exact ⟨blanks_count hb _ (by decide), blanks_count hb _ (by decide)⟩
  | @cons blanks text l s hb _ _ ih =>
      obtain ⟨hopen, hclose⟩ := (hs l (by simp)).count_text
      obtain ⟨ihopen, ihclose⟩ := ih fun l hl => hs l (by simp [hl])
      rw [← List.singleton_append (l := s)]
      simp only [List.count_append]
      rw [blanks_count hb _ (by decide), blanks_count hb _ (by decide), hopen, hclose, ihopen,
        ihclose]
      exact ⟨by omega, by omega⟩

theorem checkBrackets_of_spells {s : List Lexeme} {text : List Char} (hs : Sentence s)
    (h : Spells s text) : checkBrackets text = .ok () := by
  obtain ⟨hopen, hclose⟩ := count_of_spells h hs.proper
  rw [checkBrackets, if_pos (by rw [hopen, hclose, hs.count_opening])]

end NumScript.Expr
