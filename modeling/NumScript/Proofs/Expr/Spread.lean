import NumScript.Proofs.Expr.Padding
import NumScript.Script.Minify

set_option autoImplicit false

/-! # Other blanks in an expression

Two texts are *spread* alike if they are the same but for their blanks, and if blanks stand between
two characters in both or in none, or the two would not run into one token (`needsSpace`). Then they
have the same value (`evaluate_spread`).

The reason is that two characters of one lexeme of digits or letters always need a space between
them, so blanks cannot split one. They can split a run of symbol characters, but only at a character
that no operator is written with; then both texts have an unknown operator, and both are wrong.

The relation is used for scripts as well. A parameter of a script and the same parameter with its
comments and spaces changed are spread alike if the changes are harmless, and what makes them
harmless is put into terms of this relation and of no other.
-/

namespace NumScript.Expr

open NumScript.Script (needsSpace isMinifyWord isMinifyOperator)

/-- `Spread last t t'`: after the character `last`, the two texts are spread alike. -/
inductive Spread : Option Char → List Char → List Char → Prop
  | nil {last : Option Char} {t t' : List Char} : IsBlanks t → IsBlanks t' → Spread last t t'
  | cons {last : Option Char} {gap gap' r r' : List Char} {c : Char} : IsBlanks gap →
      IsBlanks gap' → Text.isBlank c = false →
      ((gap = [] ↔ gap' = []) ∨ ∀ b ∈ last, needsSpace b c = false) →
      Spread (some c) r r' → Spread last (gap ++ c :: r) (gap' ++ c :: r')

theorem Spread.count_eq {last : Option Char} {t t' : List Char} (h : Spread last t t') {c : Char}
    (hc : Text.isBlank c = false) : t.count c = t'.count c := by
  induction h with
  | nil ht ht' => rw [count_eq_zero_of_isBlanks ht hc, count_eq_zero_of_isBlanks ht' hc]
  | cons hgap hgap' _ _ _ ih =>
      rw [List.count_append, List.count_append, count_eq_zero_of_isBlanks hgap hc,
        count_eq_zero_of_isBlanks hgap' hc, List.count_cons, List.count_cons, ih]

/-! ## Characters that need a space between them

The minifier knows classes of characters of its own, which are larger than those of the lexemes:
they take letters of all scripts. What matters is that characters of one lexeme fall into one of its
classes. -/

/-- The codes of upper case, lower case and digits. -/
theorem toNat_of_isAlphanum {c : Char} (h : c.isAlphanum = true) :
    ((65 ≤ c.toNat ∧ c.toNat ≤ 90) ∨ (97 ≤ c.toNat ∧ c.toNat ≤ 122)) ∨
      (48 ≤ c.toNat ∧ c.toNat ≤ 57) := by
  change ((decide (c.val ≥ 65 ∧ c.val ≤ 90) || (decide (c.val ≥ 97) && decide (c.val ≤ 122))) ||
    (decide (c.val ≥ 48) && decide (c.val ≤ 57))) = true at h
  simp only [Bool.or_eq_true, Bool.and_eq_true, decide_eq_true_eq, ge_iff_le,
    UInt32.le_iff_toNat_le] at h
  exact h

theorem isMinifyWord_of_isWordChar {c : Char} (h : isWordChar c = true) : isMinifyWord c = true := by
  rw [isWordChar, Bool.or_eq_true] at h
  rw [isMinifyWord, Bool.or_eq_true, Bool.or_eq_true]
  refine .inl (h.imp_left fun h => ?_)
  have hcode := toNat_of_isAlphanum h
  have hlt : c.toNat < 0x80 := by omega
  rw [Text.isAlphanumeric, if_pos hlt, h]

theorem isMinifyWord_of_isNumberChar {c : Char} (h : isNumberChar c = true) :
    isMinifyWord c = true := by
  rw [isNumberChar, Bool.or_eq_true] at h
  rcases h with h | h
  · exact isMinifyWord_of_isWordChar (by simp [isWordChar, Char.isAlphanum, h])
  · simp [isMinifyWord, h]

theorem needsSpace_of_isMinifyWord {c d : Char} (hc : isMinifyWord c = true)
    (hd : isMinifyWord d = true) : needsSpace c d = true := by
  rw [needsSpace, hc, hd]
  rfl

/-! ## Runs of characters

A lexeme is a run of a class of characters. The same run is read in both texts unless blanks split
it in one of them, and then the split is at two characters that may stand side by side, which means
that they are no letters, digits or points. -/

/-- The character belongs to the run of `p` that a text starts with, or comes next after it. -/
def RunsInto (p : Char → Bool) (b : Char) (t : List Char) : Prop :=
  b ∈ t.takeWhile p ∨ ∃ gap r, IsBlanks gap ∧ t.dropWhile p = gap ++ b :: r

theorem RunsInto.cons {p : Char → Bool} {b c : Char} {t : List Char} (hc : p c = true)
    (h : RunsInto p b t) : RunsInto p b (c :: t) := by
  unfold RunsInto
  rw [List.takeWhile_cons, List.dropWhile_cons, hc]
  exact h.imp_left (List.mem_cons_of_mem c)

/-- A text that starts outside the class. -/
theorem takeWhile_of_head_false {p : Char → Bool} {t : List Char} (h : ∀ c ∈ t.head?, p c = false) :
    t.takeWhile p = [] ∧ t.dropWhile p = t := by
  cases t with
  | nil => exact ⟨rfl, rfl⟩
  | cons c t =>
      have hc : p c = false := h c rfl
      simp [hc]

/-- After a character of a class `p` both texts start with the same run of `p`, unless blanks split
the run in one of them; then they stand between two characters that need no space. -/
theorem Spread.takeWhile {p : Char → Bool} (hblank : ∀ c, Text.isBlank c = true → p c = false)
    {last : Option Char} {c : Char} {t t' : List Char} (h : Spread last t t')
    (hlast : last = some c) (hc : p c = true) :
    (t.takeWhile p = t'.takeWhile p ∧ ∃ last, Spread last (t.dropWhile p) (t'.dropWhile p)) ∨
      ∃ a b, p b = true ∧ needsSpace a b = false ∧ a ∈ c :: t.takeWhile p ∧
        a ∈ c :: t'.takeWhile p ∧ RunsInto p b t ∧ RunsInto p b t' := by
  induction h generalizing c with
  | @nil last t t' ht ht' =>
      obtain ⟨htake, hdrop⟩ := takeWhile_of_head_false (ht.head hblank)
      obtain ⟨htake', hdrop'⟩ := takeWhile_of_head_false (ht'.head hblank)
      rw [htake, htake', hdrop, hdrop']
      exact .inl ⟨rfl, last, .nil ht ht'⟩
  | @cons last gap gap' r r' d hgap hgap' hd hor hr ih =>
      have hhead {gap r : List Char} (hgap : IsBlanks gap) (hnil : gap = [] → p d = false) :
          ∀ e ∈ (gap ++ d :: r).head?, p e = false := by
        cases gap with
        | nil =>
            intro e he
            rw [← Option.some.inj he]
            exact hnil rfl
        | cons b gap =>
            intro e he
            rw [← Option.some.inj he]
            exact hblank b (hgap b (.head _))
      -- both texts stop here, at a blank or at a character outside the class
      have stop (hnil : gap = [] → p d = false) (hnil' : gap' = [] → p d = false) :
          (gap ++ d :: r).takeWhile p = (gap' ++ d :: r').takeWhile p ∧
            ∃ last, Spread last ((gap ++ d :: r).dropWhile p) ((gap' ++ d :: r').dropWhile p) := by
        obtain ⟨htake, hdrop⟩ := takeWhile_of_head_false (hhead (r := r) hgap hnil)
        obtain ⟨htake', hdrop'⟩ := takeWhile_of_head_false (hhead (r := r') hgap' hnil')
        rw [htake, htake', hdrop, hdrop']
        exact ⟨rfl, last, .cons hgap hgap' hd hor hr⟩
      -- a run goes on in one text only
      have into {gap r : List Char} (hgap : IsBlanks gap) (hpd : p d = true) :
          RunsInto p d (gap ++ d :: r) := by
        cases gap with
        | nil => exact .inl (by simp [hpd])
        | cons b gap =>
            obtain ⟨-, hdrop⟩ := takeWhile_of_head_false (hhead (r := r) hgap fun h => by cases h)
            exact .inr ⟨b :: gap, r, hgap, hdrop⟩
      cases hpd : p d with
      | false => exact .inl (stop (fun _ => hpd) fun _ => hpd)
      | true =>
          by_cases hboth : gap = [] ∧ gap' = []
          · obtain ⟨rfl, rfl⟩ := hboth
            simp only [List.nil_append, List.takeWhile_cons, List.dropWhile_cons, hpd, if_true]
            rcases ih rfl hpd with ⟨htake, hdrop⟩ | ⟨a, b, hb, hneeds, ha, ha', hinto, hinto'⟩
            · exact .inl ⟨by rw [htake], hdrop⟩
            · exact .inr ⟨a, b, hb, hneeds, .tail _ ha, .tail _ ha', hinto.cons hpd,
                hinto'.cons hpd⟩
          · by_cases hneither : gap ≠ [] ∧ gap' ≠ []
            · exact .inl (stop (fun h => absurd h hneither.1) fun h => absurd h hneither.2)
            · have hneeds := hor.resolve_left fun hiff => by
                by_cases hnil : gap = []
                · exact hboth ⟨hnil, hiff.1 hnil⟩
                · exact hneither ⟨hnil, fun h => hnil (hiff.2 h)⟩
              exact .inr ⟨c, d, hpd, hneeds c hlast, .head _, .head _, into hgap hpd,
                into hgap' hpd⟩

/-- Blanks do not split a run of characters that need spaces between them. -/
theorem Spread.takeWhile_eq {p : Char → Bool}
    (hblank : ∀ c, Text.isBlank c = true → p c = false)
    (hword : ∀ c, p c = true → isMinifyWord c = true) {c : Char} {t t' : List Char}
    (h : Spread (some c) t t') (hc : p c = true) :
    t.takeWhile p = t'.takeWhile p ∧ ∃ last, Spread last (t.dropWhile p) (t'.dropWhile p) := by
  refine (h.takeWhile hblank rfl hc).resolve_right ?_
  rintro ⟨a, b, hb, hneeds, ha, -⟩
  have ha : p a = true := (List.mem_cons.1 ha).elim (fun h => h ▸ hc) (eq_true_of_mem_takeWhile a)
  rw [needsSpace_of_isMinifyWord (hword a ha) (hword b hb)] at hneeds
  cases hneeds

/-! ## Unknown operators

Two characters that operators are written with need a space between them. So blanks can split a run
of symbol characters only beside one that no operator is written with. Such a character is odd, and
a symbol with an odd character is unknown whatever else it has. -/

/-- A symbol character that no operator is written with. -/
def IsOdd (c : Char) : Prop :=
  isSymbolChar c = true ∧ isMinifyOperator c = false

/-- There is a symbol with an odd character in it. -/
def HasOdd (s : List Lexeme) : Prop :=
  ∃ text, Lexeme.symbol text ∈ s ∧ ∃ c ∈ text, IsOdd c

theorem HasOdd.cons {s : List Lexeme} (h : HasOdd s) (l : Lexeme) : HasOdd (l :: s) := by
  obtain ⟨text, hmem, hodd⟩ := h
  exact ⟨text, .tail _ hmem, hodd⟩

theorem isOdd_of_needsSpace {a b : Char} (ha : isSymbolChar a = true) (hb : isSymbolChar b = true)
    (h : needsSpace a b = false) : IsOdd a ∨ IsOdd b := by
  rw [needsSpace, Bool.or_eq_false_iff, Bool.and_eq_false_iff, Bool.and_eq_false_iff] at h
  exact h.2.imp (fun h => ⟨ha, h⟩) fun h => ⟨hb, h⟩

theorem lexemes_symbol {c : Char} (hc : isSymbolChar c = true) (rest : List Char) :
    lexemes (c :: rest) =
      .symbol (c :: rest.takeWhile isSymbolChar) :: lexemes (rest.dropWhile isSymbolChar) := by
  have hf : Lexeme.first c rest =
      (some (.symbol (c :: rest.takeWhile isSymbolChar)), rest.dropWhile isSymbolChar) := by
    simp only [isSymbolChar, isWordChar, Char.isAlphanum, Bool.not_eq_true', Bool.or_eq_false_iff,
      beq_eq_false_iff_ne] at hc
    obtain ⟨⟨⟨⟨hblank, ⟨halpha, hdigit⟩, hunder⟩, hopen⟩, hclose⟩, hsingle⟩ := hc
    have hword : isWordStart c = false := by simp [isWordStart, halpha, hunder]
    simp only [Lexeme.first, hblank, hdigit, hword, hopen, hclose, hsingle, Bool.false_eq_true,
      if_false]
  rw [lexemes, hf]
  rfl

/-- Where a split run of symbol characters has an odd one, the text has an odd symbol. -/
theorem hasOdd_of_runsInto {a b c : Char} {t : List Char} (hc : isSymbolChar c = true)
    (hb : isSymbolChar b = true) (ha : a ∈ c :: t.takeWhile isSymbolChar)
    (hinto : RunsInto isSymbolChar b t) (hneeds : needsSpace a b = false) :
    HasOdd (lexemes (c :: t)) := by
  have hsymbol : isSymbolChar a = true :=
    (List.mem_cons.1 ha).elim (fun h => h ▸ hc) (eq_true_of_mem_takeWhile a)
  rw [lexemes_symbol hc]
  rcases isOdd_of_needsSpace hsymbol hb hneeds with hodd | hodd
  · exact ⟨_, .head _, a, ha, hodd⟩
  · rcases hinto with hmem | ⟨gap, r, hgap, hdrop⟩
    · exact ⟨_, .head _, b, .tail _ hmem, hodd⟩
    · rw [hdrop, lexemes_blanks_append hgap, lexemes_symbol hb]
      exact HasOdd.cons ⟨_, .head _, b, .head _, hodd⟩ _

/-- What the first character of a lexeme decides: a lexeme of its own, or a run of characters that
need spaces between them, or a run of symbol characters. -/
theorem Lexeme.first_cases {c : Char} (hc : Text.isBlank c = false) :
    (∃ l, ∀ rest, Lexeme.first c rest = (some l, rest)) ∨
      (∃ (p : Char → Bool) (mk : List Char → Lexeme), p c = true ∧
        (∀ b, Text.isBlank b = true → p b = false) ∧ (∀ b, p b = true → isMinifyWord b = true) ∧
        ∀ rest, Lexeme.first c rest = (some (mk (c :: rest.takeWhile p)), rest.dropWhile p)) ∨
      isSymbolChar c = true := by
  by_cases hdigit : c.isDigit = true
  · refine .inr (.inl ⟨isNumberChar, .number, by simp [isNumberChar, hdigit],
      fun _ => isNumberChar_of_isBlank, fun _ => isMinifyWord_of_isNumberChar, fun rest => ?_⟩)
    simp [Lexeme.first, hc, hdigit]
  by_cases hword : isWordStart c = true
  · have hchar : isWordChar c = true := by
      rw [isWordStart, Bool.or_eq_true] at hword
      simp only [isWordChar, Char.isAlphanum, Bool.or_eq_true]
      exact hword.imp_left .inl
    refine .inr (.inl ⟨isWordChar, .word, hchar, fun _ => isWordChar_of_isBlank,
      fun _ => isMinifyWord_of_isWordChar, fun rest => ?_⟩)
    simp [Lexeme.first, hc, hdigit, hword]
  by_cases hopen : c = '('
  · exact .inl ⟨.opening, fun rest => by rw [hopen]; rfl⟩
  by_cases hclose : c = ')'
  · exact .inl ⟨.closing, fun rest => by rw [hclose]; rfl⟩
  by_cases hsingle : isSingleSymbol c = true
  · refine .inl ⟨.symbol [c], fun rest => ?_⟩
    simp [Lexeme.first, hc, hdigit, hword, hopen, hclose, hsingle]
  · rw [isWordStart, Bool.or_eq_true, not_or] at hword
    refine .inr (.inr ?_)
    simp [isSymbolChar, isWordChar, Char.isAlphanum, hc, hdigit, hword.1, hword.2, hopen, hclose,
      hsingle]

theorem lexemes_of_first {c : Char} {rest ahead : List Char} {l : Lexeme}
    (h : Lexeme.first c rest = (some l, ahead)) : lexemes (c :: rest) = l :: lexemes ahead := by
  rw [lexemes, h]
  rfl

/-- Two texts that are spread alike have the same lexemes, or both have an odd symbol. -/
theorem lexemes_spread {last : Option Char} {t t' : List Char} (h : Spread last t t') :
    lexemes t = lexemes t' ∨ HasOdd (lexemes t) ∧ HasOdd (lexemes t') := by
  induction hn : t.length using Nat.strongRecOn generalizing last t t' with
  | _ n ih =>
  subst hn
  -- one more lexeme before what is left of both texts
  have step {last : Option Char} {r r' : List Char} (l : Lexeme) (hr : Spread last r r')
      (hlen : r.length < t.length) :
      l :: lexemes r = l :: lexemes r' ∨
        HasOdd (l :: lexemes r) ∧ HasOdd (l :: lexemes r') :=
    (ih r.length hlen hr rfl).imp (congrArg _) fun h => ⟨h.1.cons l, h.2.cons l⟩
  cases h with
  | nil ht ht' =>
      have hnil {t : List Char} (ht : IsBlanks t) : lexemes t = lexemes [] := by
        have h : lexemes (t ++ []) = lexemes [] := lexemes_blanks_append ht
        rwa [List.append_nil] at h
      exact .inl ((hnil ht).trans (hnil ht').symm)
  | @cons _ gap gap' r r' c hgap hgap' hc _ hr =>
      have hlen (p : Char → Bool) : (r.dropWhile p).length < (gap ++ c :: r).length := by
        have := (List.dropWhile_sublist (l := r) p).length_le
        simp only [List.length_append, List.length_cons]
        omega
      rw [lexemes_blanks_append hgap, lexemes_blanks_append hgap']
      rcases Lexeme.first_cases hc with ⟨l, hl⟩ | ⟨p, mk, hp, hblank, hword, hrun⟩ | hsymbol
      · rw [lexemes_of_first (hl r), lexemes_of_first (hl r')]
        refine step l hr ?_
        simp only [List.length_append, List.length_cons]
        omega
      · obtain ⟨htake, _, hdrop⟩ := hr.takeWhile_eq hblank hword hp
        rw [lexemes_of_first (hrun r), lexemes_of_first (hrun r'), htake]
        exact step _ hdrop (hlen p)
      · rcases hr.takeWhile (fun _ => isSymbolChar_of_isBlank) rfl hsymbol with
          ⟨htake, _, hdrop⟩ | ⟨a, b, hb, hneeds, ha, ha', hinto, hinto'⟩
        · rw [lexemes_symbol hsymbol, lexemes_symbol hsymbol, htake]
          exact step _ hdrop (hlen isSymbolChar)
        · exact .inr ⟨hasOdd_of_runsInto hsymbol hb ha hinto hneeds,
            hasOdd_of_runsInto hsymbol hb ha' hinto' hneeds⟩

/-! ## Values

Where the lexemes are the same, so is the value. Otherwise both texts fail at an unknown operator or
before, and neither with a division by zero, which only the fold can report. -/

theorem not_isOdd_of_mem_symbol {op : Operator} {c : Char} (hc : c ∈ op.symbol.toList) :
    ¬ IsOdd c := by
  have hall : (op.symbol.toList.all fun c => !isSymbolChar c || isMinifyOperator c) = true := by
    cases op <;> decide
  rintro ⟨hsymbol, hodd⟩
  have h := List.all_eq_true.1 hall c hc
  rw [hsymbol, hodd] at h
  cases h

/-- A symbol with an odd character is no operator. -/
theorem accept_of_isOdd (names : Names) (s : Conversion) {text : List Char} {c : Char}
    (hmem : c ∈ text) (hodd : IsOdd c) :
    s.accept names (.symbol text) = .error (.unknownOperator (String.ofList text)) := by
  have hminus : text ≠ ['-'] := by
    rintro rfl
    rw [List.mem_singleton.1 hmem] at hodd
    exact absurd hodd.1 (by decide)
  have hnone : Operator.ofSymbol? (String.ofList text) = none := by
    refine Option.eq_none_iff_forall_ne_some.2 fun op hop => ?_
    rw [Operator.ofSymbol?_eq_some_iff] at hop
    have hsymbol : c ∈ op.symbol.toList := by
      rw [← hop, String.toList_ofList]
      exact hmem
    exact not_isOdd_of_mem_symbol hsymbol hodd
  simp only [Conversion.accept, hminus, false_and, if_false, hnone]

theorem ne_divisionByZero_of_accept {names : Names} {s : Conversion} {l : Lexeme} {e : Error}
    (h : s.accept names l = .error e) : e ≠ .divisionByZero := by
  cases l with
  | number text =>
      simp only [Conversion.accept] at h
      split at h <;> cases h
      simp
  | word text =>
      simp only [Conversion.accept] at h
      split at h
      · cases h
      · split at h <;> cases h
        simp
  | opening => cases h
  | closing =>
      simp only [Conversion.accept, Conversion.close] at h
      split at h <;> cases h
      simp
  | symbol text =>
      simp only [Conversion.accept] at h
      split at h
      · cases h
      · split at h
        · cases h
          simp
        · split at h <;> cases h
          simp

theorem foldlM_accept_of_hasOdd (names : Names) {ls : List Lexeme} (h : HasOdd ls)
    (s : Conversion) :
    ∃ e, e ≠ .divisionByZero ∧ ls.foldlM (Conversion.accept names) s = .error e := by
  obtain ⟨text, hmem, c, hc, hodd⟩ := h
  induction ls generalizing s with
  | nil => cases hmem
  | cons l ls ih =>
      rw [List.foldlM_cons]
      cases hl : s.accept names l with
      | error e => exact ⟨e, ne_divisionByZero_of_accept hl, rfl⟩
      | ok s =>
          rcases List.mem_cons.1 hmem with rfl | hmem
          · rw [accept_of_isOdd names _ hc hodd] at hl
            cases hl
          · exact ih s hmem

/-- A text with an odd symbol has no value, whatever its names mean. -/
theorem evaluate_of_hasOdd (names : Names) {t : List Char} (h : HasOdd (lexemes t)) :
    ∃ e, e ≠ .divisionByZero ∧ evaluate names t = .error e := by
  unfold evaluate toPostfix checkBrackets
  dsimp only
  split
  · obtain ⟨e, he, hfold⟩ := foldlM_accept_of_hasOdd names h {}
    refine ⟨e, he, ?_⟩
    rw [hfold]
    rfl
  · exact ⟨.unequalBrackets _ _, by simp, rfl⟩

/-- Two texts that are spread alike have the same value, or both are wrong and neither divides by
zero. -/
theorem evaluate_spread (names : Names) {last : Option Char} {t t' : List Char}
    (h : Spread last t t') :
    evaluate names t = evaluate names t' ∨
      ∃ e e', e ≠ .divisionByZero ∧ e' ≠ .divisionByZero ∧
        evaluate names t = .error e ∧ evaluate names t' = .error e' := by
  rcases lexemes_spread h with hlex | ⟨hodd, hodd'⟩
  · exact .inl (evaluate_congr names hlex (h.count_eq (by decide)) (h.count_eq (by decide)))
  · obtain ⟨e, he, heq⟩ := evaluate_of_hasOdd names hodd
    obtain ⟨e', he', heq'⟩ := evaluate_of_hasOdd names hodd'
    exact .inr ⟨e, e', he, he', heq, heq'⟩

end NumScript.Expr
