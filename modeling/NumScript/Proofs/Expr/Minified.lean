import NumScript.Proofs.Expr.Conservation
import NumScript.Proofs.Expr.Spread

set_option autoImplicit false

/-! # Minified expressions

The minifier drops spaces of all sorts, while an expression skips only blanks. Where all spaces are
blanks an expression and its minified form are spread alike, so one can be put into postfix order if
the other can, and the outcome is the same. Any other space is a symbol character that no operator
is written with. An expression with such a space is wrong, but its minified form need not be
(`exists_toPostfix_minify_of_error`). So an expression can be put into postfix order if its minified
form can and all its spaces are blanks (`toPostfix_eq_ok_iff_minify`).

An expression that holds a `#` is left out. To the minifier it starts a comment, to an expression it
is a symbol; in a script the two never meet, since a parameter is freed of its comments before it is
evaluated. -/

namespace NumScript.Expr

open NumScript.Script (minify minifyAfter minifyAfter_nil minifyAfter_of_space
  minifyAfter_of_not_space isMinifyOperator needsSpace Gap)

/-- All spaces of a text are blanks. -/
def HasBlanksOnly (t : List Char) : Prop :=
  ∀ c ∈ t, Text.isSpace c = true → Text.isBlank c = true

/-! ## Spaces that are blanks

The minifier keeps a space exactly where `needsSpace` asks for one, and being spread alike asks for
the same. So this is an induction on the text along the recursion of the minifier. -/

/-- A text is spread like its minified form. An open gap stands for blanks before the text. -/
theorem spread_minifyAfter {last : Option Char} {gap : Gap} {t : List Char} (hhash : '#' ∉ t)
    (ht : HasBlanksOnly t) (hgap : gap ≠ .comment) {blanks : List Char} (hblanks : IsBlanks blanks)
    (hclosed : blanks = [] ↔ gap = .closed) :
    Spread last (blanks ++ t) (minifyAfter last gap t) := by
  have hnone : IsBlanks [] := fun _ h => absurd h List.not_mem_nil
  -- the blanks before the text grow until the next character that is kept
  induction t generalizing last gap blanks with
  | nil =>
      rw [List.append_nil, minifyAfter_nil]
      exact .nil hblanks hnone
  | cons c t ih =>
      obtain ⟨hc, hmore⟩ : '#' ≠ c ∧ '#' ∉ t := by simpa using hhash
      have hrest : HasBlanksOnly t := fun d hd => ht d (.tail c hd)
      cases hspace : Text.isSpace c with
      | true =>
          have hblank : IsBlanks [c] := fun d hd => List.mem_singleton.1 hd ▸ ht c (.head t) hspace
          have hlonger : IsBlanks (blanks ++ [c]) := fun d hd =>
            (List.mem_append.1 hd).elim (hblanks d) (hblank d)
          have h : Spread last (blanks ++ [c] ++ t) (minifyAfter last .open t) :=
            ih hmore hrest (by decide) hlonger (by simp)
          rwa [minifyAfter_of_space hc.symm hspace last hgap, List.append_cons]
      | false =>
          have hblank : Text.isBlank c = false := Bool.eq_false_iff.2 fun hb => by
            rw [Text.isSpace_of_isBlank hb] at hspace
            cases hspace
          have hnext : Spread (some c) t (minifyAfter (some c) .closed t) :=
            ih hmore hrest (by decide) hnone (iff_of_true rfl rfl)
          rw [minifyAfter_of_not_space hc.symm hspace last hgap]
          split
          · -- one blank is kept
            rename_i hkept
            have hone : IsBlanks [' '] := List.all_eq_true.1 (by decide)
            have hne : blanks ≠ [] := fun h => absurd (hkept.1 ▸ hclosed.1 h) (by decide)
            have h : Spread last (blanks ++ c :: t) ([' '] ++ c :: minifyAfter (some c) .closed t) :=
              .cons hblanks hone hblank (.inl (by simp [hne])) hnext
            exact h
          · -- no blank is kept, since there was none or since none is needed
            rename_i hkept
            suffices h : (blanks = [] ↔ [] = []) ∨ ∀ b ∈ last, needsSpace b c = false from
              .cons hblanks hnone hblank h hnext
            cases gap with
            | closed => exact .inl (by simp [hclosed])
            | comment => exact absurd rfl hgap
            | «open» =>
                refine .inr fun b hb => ?_
                rw [Option.mem_def.1 hb] at hkept
                simpa using hkept

theorem spread_minify {t : List Char} (hhash : '#' ∉ t) (ht : HasBlanksOnly t) :
    Spread none t (minify t) :=
  spread_minifyAfter hhash ht (by decide) (fun _ h => absurd h List.not_mem_nil)
    (iff_of_true rfl rfl)

/-! ## Other spaces

No class of characters but the one of symbols contains such a space, so it is found again in a
symbol among the lexemes, wherever it stands in the text. -/

theorem isWordChar_of_isSpace {c : Char} (h : Text.isSpace c = true) : isWordChar c = false := by
  simp only [Text.isSpace, Bool.or_eq_true, Bool.and_eq_true, decide_eq_true_eq, beq_iff_eq] at h
  rw [isWordChar, Bool.or_eq_false_iff, beq_eq_false_iff_ne]
  refine ⟨Bool.eq_false_iff.2 fun hc => ?_, ?_⟩
  · have hcode := toNat_of_isAlphanum hc
    omega
  · rintro rfl
    revert h
    decide

theorem isNumberChar_of_isSpace {c : Char} (h : Text.isSpace c = true) : isNumberChar c = false := by
  have hword := isWordChar_of_isSpace h
  simp only [isWordChar, Char.isAlphanum, Bool.or_eq_false_iff] at hword
  rw [isNumberChar, Bool.or_eq_false_iff, beq_eq_false_iff_ne]
  refine ⟨hword.1.2, ?_⟩
  rintro rfl
  revert h
  decide

/-- A space that is no blank is a symbol character, and no operator is written with it. -/
theorem isOdd_of_isSpace {c : Char} (h : Text.isSpace c = true) (hblank : Text.isBlank c = false) :
    IsOdd c := by
  have apart (d : Char) (hd : Text.isSpace d = false) : (c == d) = false := by
    refine beq_eq_false_iff_ne.2 fun heq => ?_
    rw [heq, hd] at h
    cases h
  have hsingle : isSingleSymbol c = false := by
    simp only [isSingleSymbol, apart '+' (by decide), apart '-' (by decide), apart '*' (by decide),
      apart '/' (by decide), apart '%' (by decide), apart '^' (by decide), Bool.or_false]
  constructor
  · simp only [isSymbolChar, hblank, isWordChar_of_isSpace h, apart '(' (by decide),
      apart ')' (by decide), hsingle, Bool.or_false, Bool.not_false]
  · simp only [isMinifyOperator, h, Bool.or_true, Bool.true_or, Bool.not_true]

/-- A space that is no blank stands in a symbol. -/
theorem Lexeme.Proper.eq_symbol {l : Lexeme} (h : l.Proper) {c : Char} (hc : c ∈ l.text)
    (hspace : Text.isSpace c = true) : ∃ text, l = .symbol text := by
  have hnumber := isNumberChar_of_isSpace hspace
  have hword := isWordChar_of_isSpace hspace
  cases l with
  | symbol text => exact ⟨text, rfl⟩
  | opening | closing =>
      rw [List.mem_singleton.1 hc] at hspace
      cases hspace
  | number text =>
      obtain ⟨d, rest, rfl, hd, hrest⟩ := h
      rcases List.mem_cons.1 hc with rfl | hc
      · simp [isNumberChar, hd] at hnumber
      · rw [hrest c hc] at hnumber
        cases hnumber
  | word text =>
      obtain ⟨d, rest, rfl, hd, hrest⟩ := h
      rcases List.mem_cons.1 hc with rfl | hc
      · rw [isWordStart, Bool.or_eq_true] at hd
        simp only [isWordChar, Char.isAlphanum, Bool.or_eq_false_iff] at hword
        rcases hd with hd | hd
        · rw [hword.1.1] at hd
          cases hd
        · rw [hword.2] at hd
          cases hd
      · rw [hrest c hc] at hword
        cases hword

theorem Spells.exists_lexeme {s : List Lexeme} {text : List Char} (h : Spells s text) {c : Char}
    (hc : c ∈ text) (hblank : Text.isBlank c = false) : ∃ l ∈ s, c ∈ l.text := by
  induction h with
  | nil hblanks =>
      rw [hblanks c hc] at hblank
      cases hblank
  | @cons blanks text l s hblanks _ _ ih =>
      rcases List.mem_append.1 hc with hc | hc
      · rcases List.mem_append.1 hc with hc | hc
        · rw [hblanks c hc] at hblank
          cases hblank
        · exact ⟨l, .head s, hc⟩
      · obtain ⟨l', hl', hc'⟩ := ih hc
        exact ⟨l', .tail l hl', hc'⟩

/-- A text with a space that is no blank has an odd symbol. -/
theorem hasOdd_of_isSpace {t : List Char} {c : Char} (hc : c ∈ t) (h : Text.isSpace c = true)
    (hblank : Text.isBlank c = false) : HasOdd (lexemes t) := by
  obtain ⟨hspells, hproper⟩ := spells_lexemes t
  obtain ⟨l, hl, hcl⟩ := hspells.exists_lexeme hc hblank
  obtain ⟨text, rfl⟩ := (hproper l hl).eq_symbol hcl h
  exact ⟨text, hl, c, hcl, isOdd_of_isSpace h hblank⟩

/-! ## Postfix order

Both directions come from the two parts above. Without odd spaces the two texts are spread alike;
with one of them the expression is wrong. -/

section

variable {names : Names} {t t' : List Char} {tokens : List Token}

/-- A text with an odd symbol cannot be put into postfix order. -/
theorem toPostfix_ne_ok_of_hasOdd (h : HasOdd (lexemes t)) : toPostfix names t ≠ .ok tokens := by
  intro hok
  obtain ⟨-, c, hc, -⟩ := toPostfix_eq_ok_iff.1 hok
  obtain ⟨e, -, he⟩ := foldlM_accept_of_hasOdd names h {}
  rw [he] at hc
  cases hc

theorem toPostfix_spread {last : Option Char} (h : Spread last t t') :
    toPostfix names t = .ok tokens ↔ toPostfix names t' = .ok tokens := by
  rcases lexemes_spread h with hlex | ⟨hodd, hodd'⟩
  · rw [toPostfix_eq_ok_iff, toPostfix_eq_ok_iff, hlex, h.count_eq (by decide),
      h.count_eq (by decide)]
  · exact iff_of_false (toPostfix_ne_ok_of_hasOdd hodd) (toPostfix_ne_ok_of_hasOdd hodd')

/-- An expression without a `#` can be put into postfix order if its minified form can and all its
spaces are blanks. The outcome is the same. -/
theorem toPostfix_eq_ok_iff_minify (hhash : '#' ∉ t) :
    toPostfix names t = .ok tokens ↔
      toPostfix names (minify t) = .ok tokens ∧ HasBlanksOnly t := by
  have hall (ht : HasBlanksOnly t) :
      toPostfix names t = .ok tokens ↔ toPostfix names (minify t) = .ok tokens :=
    toPostfix_spread (spread_minify hhash ht)
  refine ⟨fun h => ?_, fun ⟨h, ht⟩ => (hall ht).2 h⟩
  have ht : HasBlanksOnly t := fun c hc hspace => by
    by_contra hblank
    have hodd := hasOdd_of_isSpace hc hspace (Bool.eq_false_iff.2 hblank)
    exact toPostfix_ne_ok_of_hasOdd hodd h
  exact ⟨(hall ht).1 h, ht⟩

end

/-- The main statement at an expression with blanks that are dropped and one that is kept. -/
theorem toPostfix_eq_ok_iff_minify_blanks :
    let names : Names := fun _ => some 3.0
    let t := "( x\t+ 1 )\n> - 2".toList
    '#' ∉ t ∧ minify t = "(x+1)> -2".toList ∧
      toPostfix names t = .ok [.value 3.0, .value 1.0, .operator .add, .value 2.0, .function .minus,
        .operator .greater] ∧
      toPostfix names (minify t) = toPostfix names t ∧ HasBlanksOnly t := by
  intro names t
  have hhash : '#' ∉ t := by decide +kernel
  have hminify : minify t = "(x+1)> -2".toList := by decide +kernel
  have hok : toPostfix names t = .ok [.value 3.0, .value 1.0, .operator .add, .value 2.0,
      .function .minus, .operator .greater] := by decide +kernel
  obtain ⟨hsame, ht⟩ := (toPostfix_eq_ok_iff_minify hhash).1 hok
  exact ⟨hhash, hminify, hok, hsame.trans hok.symm, ht⟩

/-- An expression that is wrong can be put into postfix order when it is minified: the vertical tab
and the no-break space are no blanks, but the minifier drops them. -/
theorem exists_toPostfix_minify_of_error :
    let names : Names := fun _ => none
    ('#' ∉ "1\x0b".toList ∧ toPostfix names "1\x0b".toList = .error (.unknownOperator "\x0b") ∧
        toPostfix names (minify "1\x0b".toList) = .ok [.value 1.0]) ∧
      ('#' ∉ "1\u00a0+ 2".toList ∧
        toPostfix names "1\u00a0+ 2".toList = .error (.unknownOperator "\u00a0") ∧
        toPostfix names (minify "1\u00a0+ 2".toList) =
          .ok [.value 1.0, .value 2.0, .operator .add]) := by
  intro names
  refine ⟨⟨?_, ?_, ?_⟩, ?_, ?_, ?_⟩
  all_goals decide +kernel

end NumScript.Expr
