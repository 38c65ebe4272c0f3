import NumScript.Proofs.Expr.Accepted

set_option autoImplicit false

/-! # Nothing is lost in a conversion

Putting an expression into postfix order only moves tokens. Each lexeme other than a bracket stands
for one token (`Lexeme.StandsFor`), and the tokens of the output are those of the lexemes in another
order; the values among them stay in the order of the text. The brackets are gone, and they were
balanced: read from the left, no more of them are closed than were opened
(`toPostfix_conserves`).

The invariant is about the tokens that were sent on together with those that wait. One more lexeme
adds what it stands for (`Conversion.Gains`), since sending on moves tokens from one part to the
other. A closing bracket takes an opening one away, so the opening ones that wait are left out of
the count. No value ever waits, so the values are sent on in the order in which they are read.
-/

namespace NumScript.Expr

/-! ## What lexemes stand for

A lexeme stands for at most one token. The minus sign is the one lexeme for which this depends on
its neighbour, and on nothing further away. -/

/-- `l.StandsFor names before tokens`: these are the tokens that a lexeme stands for, directly behind
the lexeme `before` if there is one. A `-` is a minus sign unless an operand ends before it, and any
other operator needs an operand before it. -/
inductive Lexeme.StandsFor (names : Names) (before : Option Lexeme) :
    Lexeme → List Token → Prop where
  | number {text : List Char} {x : Float} : Number.read? text = some x →
      StandsFor names before (.number text) [.value x]
  | name {text : List Char} {x : Float} : Function.ofName? (String.ofList text) = none →
      names (String.ofList text) = some x → StandsFor names before (.word text) [.value x]
  | function (f : Function) : StandsFor names before f.lexeme [.function f]
  | opening : StandsFor names before .opening []
  | closing : StandsFor names before .closing []
  | minus : before.any Lexeme.endsOperand = false →
      StandsFor names before (.symbol ['-']) [.function .minus]
  | operator (op : Operator) : op.isBracket = false → before.any Lexeme.endsOperand = true →
      StandsFor names before op.lexeme [.operator op]

/-- The tokens that the lexemes of a text stand for, in the order of the text. -/
inductive StandFor (names : Names) : Option Lexeme → List Lexeme → List Token → Prop where
  | nil {before : Option Lexeme} : StandFor names before [] []
  | cons {before : Option Lexeme} {l : Lexeme} {s : List Lexeme} {tokens more : List Token} :
      l.StandsFor names before tokens → StandFor names (some l) s more →
      StandFor names before (l :: s) (tokens ++ more)

def Token.isValue : Token → Bool
  | .value _ => true
  | .operator _ | .function _ => false

/-! ## What one lexeme adds

Tokens are conserved as a permutation, and the values moreover in their order, so the two are stated
together and carried along in one induction. -/

namespace Conversion

/-- The tokens of a conversion but for the opening brackets. -/
def bare (c : Conversion) : List Token :=
  c.tokens.filter fun t => !t.isLeftBracket

def values (c : Conversion) : List Token :=
  c.output.reverse.filter Token.isValue

def Waits (c : Conversion) : Prop :=
  ∀ t ∈ c.waiting, t.isValue = false

/-- From `c` to `c'` these tokens are added, the values among them at the end. -/
structure Gains (c c' : Conversion) (tokens : List Token) : Prop where
  perm : c'.bare.Perm (c.bare ++ tokens)
  values_eq : c'.values = c.values ++ tokens.filter Token.isValue
  waits : c'.Waits

variable {c c' : Conversion}

theorem bare_perm_of_cons {t : Token} (h : c'.tokens.Perm (t :: c.tokens))
    (ht : t.isLeftBracket = false) : c'.bare.Perm (c.bare ++ [t]) := by
  refine (h.filter _).trans ?_
  rw [List.filter_cons_of_pos (by rw [ht]; rfl)]
  exact (List.perm_append_singleton t c.bare).symm

/-- What waits can be sent on without a change of the values. -/
theorem filter_isValue_append_reverse {sent : List Token} (output : List Token)
    (h : ∀ t ∈ sent, t.isValue = false) :
    (sent.reverse ++ output).reverse.filter Token.isValue = output.reverse.filter Token.isValue := by
  have hsent : sent.filter Token.isValue = [] :=
    List.filter_eq_nil_iff.2 fun t ht => by rw [h t ht]; exact Bool.false_ne_true
  rw [List.reverse_append, List.reverse_reverse, List.filter_append, hsent, List.append_nil]

theorem Waits.gains_value (h : c.Waits) (x : Float) : c.Gains (c.value x) [.value x] where
  perm := bare_perm_of_cons (.of_eq (c.tokens_value x)) rfl
  values_eq := by
    rw [values, value, List.reverse_cons, List.filter_append]
    rfl
  waits := h

theorem Waits.gains_wait (h : c.Waits) {t : Token} (ht : t.isValue = false)
    (hb : t.isLeftBracket = false) : c.Gains (c.wait t) [t] where
  perm := bare_perm_of_cons (c.tokens_wait t) hb
  values_eq := by
    rw [List.filter_cons_of_neg (by rw [ht]; exact Bool.false_ne_true), List.filter_nil,
      List.append_nil]
    rfl
  waits u hu := (List.mem_cons.1 hu).elim (fun heq => heq ▸ ht) (h u)

theorem Waits.gains_opening (h : c.Waits) : c.Gains (c.wait (.operator .leftBracket)) [] where
  perm := by
    rw [List.append_nil]
    exact (c.tokens_wait _).filter _
  values_eq := (List.append_nil _).symm
  waits u hu := (List.mem_cons.1 hu).elim (fun heq => heq ▸ rfl) (h u)

theorem Waits.gains_operator (h : c.Waits) {op : Operator} (hop : op.isBracket = false) :
    c.Gains (c.operator op) [.operator op] where
  perm := by
    refine bare_perm_of_cons (c.tokens_operator op) ?_
    cases op <;> first | rfl | exact absurd hop (by decide)
  values_eq := by
    refine (filter_isValue_append_reverse c.output fun t ht => ?_).trans (List.append_nil _).symm
    exact h t ((List.takeWhile_sublist _).mem ht)
  waits u hu := by
    rcases List.mem_cons.1 hu with rfl | hu
    · rfl
    · exact h u ((List.dropWhile_sublist _).mem hu)

theorem Waits.gains_close (h : c.Waits) (hc : c.close = .ok c') : c.Gains c' [] := by
  have hperm : c.bare.Perm c'.bare := (tokens_close hc).filter _
  unfold close at hc
  dsimp only at hc
  split at hc
  · cases hc
  · rename_i t below hdrop
    obtain rfl := Except.ok.inj hc
    refine ⟨?_, ?_, fun u hu => h u ?_⟩
    · rw [List.append_nil]
      exact hperm.symm
    · refine (filter_isValue_append_reverse c.output fun t ht => ?_).trans (List.append_nil _).symm
      exact h t ((List.takeWhile_sublist _).mem ht)
    · refine (List.dropWhile_sublist fun t : Token => !t.isLeftBracket).mem ?_
      rw [hdrop]
      exact List.mem_cons_of_mem t hu

end Conversion

section

variable {names : Names} {before : Option Lexeme} {c c' : Conversion} {l : Lexeme}

/-- A lexeme that is accepted stands for tokens, and these are added. -/
theorem accept_gains (h : c.Waits) (hdue : c.operandDue = !before.any Lexeme.endsOperand)
    (hl : l.Proper) (hc : c.accept names l = .ok c') :
    ∃ tokens, l.StandsFor names before tokens ∧ c.Gains c' tokens := by
  -- a closing bracket adds nothing, and any other lexeme the token that it stands for
  cases l with
  | number text =>
      simp only [Conversion.accept] at hc
      split at hc <;> cases hc
      rename_i x hx
      exact ⟨_, .number hx, h.gains_value x⟩
  | word text =>
      simp only [Conversion.accept] at hc
      split at hc
      · rename_i f hf
        cases hc
        have hlex : Lexeme.word text = f.lexeme := by
          rw [Function.lexeme, ← Function.ofName?_eq_some_iff.1 hf, String.toList_ofList]
        rw [hlex]
        exact ⟨_, .function f, h.gains_wait rfl rfl⟩
      · rename_i hf
        split at hc <;> cases hc
        rename_i x hx
        exact ⟨_, .name hf hx, h.gains_value x⟩
  | opening =>
      cases hc
      exact ⟨_, .opening, h.gains_opening⟩
  | closing => exact ⟨_, .closing, h.gains_close hc⟩
  | symbol text =>
      simp only [Conversion.accept] at hc
      split at hc
      · rename_i hminus
        obtain ⟨rfl, hnow⟩ := hminus
        cases hc
        rw [hnow] at hdue
        exact ⟨_, .minus (Bool.not_eq_true' _ ▸ hdue.symm), h.gains_wait rfl rfl⟩
      split at hc
      · cases hc
      rename_i op hop
      split at hc
      · cases hc
      rename_i hnot
      cases hc
      obtain ⟨hbracket, hlex⟩ := Operator.isBracket_eq_false_of_proper hl hop
      rw [Bool.eq_false_iff.2 hnot] at hdue
      rw [hlex]
      exact ⟨_, .operator op hbracket (Bool.not_eq_false' _ ▸ hdue.symm), h.gains_operator hbracket⟩

theorem foldlM_accept_gains {s : List Lexeme} (h : c.Waits)
    (hdue : c.operandDue = !before.any Lexeme.endsOperand) (hs : ∀ l ∈ s, l.Proper)
    (hc : s.foldlM (Conversion.accept names) c = .ok c') :
    ∃ tokens, StandFor names before s tokens ∧ c.Gains c' tokens := by
  induction s generalizing before c with
  | nil =>
      cases hc
      exact ⟨[], .nil, by rw [List.append_nil], (List.append_nil _).symm, h⟩
  | cons l s ih =>
      rw [List.foldlM_cons] at hc
      cases hl : c.accept names l with
      | error e =>
          rw [hl] at hc
          cases hc
      | ok c₁ =>
          rw [hl] at hc
          obtain ⟨tokens, hstands, hgains⟩ := accept_gains h hdue (hs l (by simp)) hl
          have hdue' : c₁.operandDue = !(some l).any Lexeme.endsOperand := operandDue_of_accept hl
          obtain ⟨more, hmore, hgains'⟩ :=
            ih hgains.waits hdue' (fun l' hl' => hs l' (by simp [hl'])) hc
          refine ⟨tokens ++ more, .cons hstands hmore, ?_, ?_, hgains'.waits⟩
          · rw [← List.append_assoc]
            exact hgains'.perm.trans (hgains.perm.append_right more)
          · rw [hgains'.values_eq, hgains.values_eq, List.append_assoc, List.filter_append]

end

/-! ## Balanced brackets

A closing bracket is accepted only if an opening one waits. So in every beginning of a text that can
be converted there are at least as many opening brackets as closing ones. Beginnings of the text are
beginnings of its lexemes with a part of one lexeme at the end, and parts of a lexeme have no
brackets. -/

/-- A text can be put into postfix order if it has as many brackets of either sort and all its
lexemes are accepted. -/
theorem toPostfix_eq_ok_iff {names : Names} {text : List Char} {tokens : List Token} :
    toPostfix names text = .ok tokens ↔
      text.count '(' = text.count ')' ∧
        ∃ c, (lexemes text).foldlM (Conversion.accept names) {} = .ok c ∧ c.finish = tokens := by
  unfold toPostfix checkBrackets
  dsimp only
  split
  · rename_i heq
    cases (lexemes text).foldlM (Conversion.accept names) {} with
    | error e =>
        refine ⟨fun h => ?_, fun ⟨_, c, hc, _⟩ => ?_⟩
        · cases h
        · cases hc
    | ok c =>
        refine ⟨fun h => ⟨heq, c, rfl, Except.ok.inj h⟩, fun ⟨_, c', hc, h⟩ => ?_⟩
        rw [← Except.ok.inj hc] at h
        exact congrArg Except.ok h
  · rename_i hne
    refine ⟨fun h => ?_, fun h => absurd h.1 hne⟩
    cases h

theorem Lexeme.length_text_or_count (l : Lexeme) :
    l.text.length = 1 ∨ [l].count .opening = 0 ∧ [l].count .closing = 0 := by
  cases l with
  | opening | closing => exact .inl rfl
  | number _ | word _ | symbol _ => exact .inr ⟨rfl, rfl⟩

/-- The brackets at the beginning of a text are those of some of its first lexemes. -/
theorem exists_lexemes_of_prefix {s : List Lexeme} {text p : List Char} (h : Spells s text)
    (hs : ∀ l ∈ s, l.Proper) (hp : p <+: text) :
    ∃ s', s' <+: s ∧ p.count '(' = s'.count .opening ∧ p.count ')' = s'.count .closing := by
  induction h generalizing p with
  | @nil blanks hblanks =>
      have hspells : Spells [] p := .nil fun c hc => hblanks c (hp.subset hc)
      exact ⟨[], List.nil_prefix, count_of_spells hspells fun _ h => absurd h List.not_mem_nil⟩
  | @cons blanks text l s hblanks hglue _ ih =>
      have hl := hs l (by simp)
      -- the blanks and the lexeme, up to its end
      have hspells : Spells [l] (blanks ++ l.text) := by
        have hend : Spells [] [] := .nil fun _ h => absurd h List.not_mem_nil
        have h : Spells [l] (blanks ++ l.text ++ []) := .cons hblanks (fun _ h => by cases h) hend
        rwa [List.append_nil] at h
      have hcount := count_of_spells hspells (by simpa using hl)
      rcases Nat.lt_or_ge p.length (blanks ++ l.text).length with hlt | hge
      · -- the text ends before the lexeme does, so it holds no bracket
        have hpre := List.prefix_of_prefix_length_le hp (List.prefix_append _ text) hlt.le
        refine ⟨[], List.nil_prefix, ?_⟩
        rcases l.length_text_or_count with hone | ⟨hopen, hclose⟩
        · rw [List.length_append, hone] at hlt
          have hblank := List.prefix_of_prefix_length_le hpre (List.prefix_append blanks l.text)
            (Nat.le_of_lt_succ hlt)
          have hspells : Spells [] p := .nil fun c hc => hblanks c (hblank.subset hc)
          exact count_of_spells hspells fun _ h => absurd h List.not_mem_nil
        · have ho := hpre.sublist.count_le '('
          have hc := hpre.sublist.count_le ')'
          rw [hcount.1, hopen] at ho
          rw [hcount.2, hclose] at hc
          exact ⟨Nat.le_zero.1 ho, Nat.le_zero.1 hc⟩
      · obtain ⟨q, rfl⟩ := List.prefix_of_prefix_length_le (List.prefix_append _ text) hp hge
        obtain ⟨s', hs', hopen, hclose⟩ :=
          ih (fun l hl => hs l (by simp [hl])) ((List.prefix_append_right_inj _).1 hp)
        refine ⟨l :: s', List.cons_prefix_cons.2 ⟨rfl, hs'⟩, ?_⟩
        have hparts (x : Char) : (blanks ++ l.text ++ q).count x =
            (blanks ++ l.text).count x + q.count x :=
          List.count_append
        have hlexemes (x : Lexeme) : (l :: s').count x = [l].count x + s'.count x := by
          rw [← List.singleton_append, List.count_append]
        rw [hparts, hparts, hcount.1, hcount.2, hopen, hclose, hlexemes, hlexemes]
        exact ⟨rfl, rfl⟩

/-- Of a text that can be put into postfix order no beginning has more closing brackets than opening
ones. -/
theorem count_le_of_prefix {names : Names} {text p : List Char} {tokens : List Token}
    (h : toPostfix names text = .ok tokens) (hp : p <+: text) : p.count ')' ≤ p.count '(' := by
  obtain ⟨hspells, hproper⟩ := spells_lexemes text
  obtain ⟨s, ⟨more, hmore⟩, hopen, hclose⟩ := exists_lexemes_of_prefix hspells hproper hp
  obtain ⟨-, c, hc, -⟩ := toPostfix_eq_ok_iff.1 h
  rw [← hmore, List.foldlM_append] at hc
  cases hs : s.foldlM (Conversion.accept names) {} with
  | error e =>
      rw [hs] at hc
      cases hc
  | ok c₁ =>
      have hempty : Conversion.ComesFrom (lexemes text) {} :=
        ⟨fun _ h => absurd h List.not_mem_nil, fun _ h => absurd h List.not_mem_nil⟩
      have hmem : ∀ l ∈ s, l ∈ lexemes text := fun l hl => hmore ▸ List.mem_append_left more hl
      have hdepth := (foldlM_accept_comesFrom hempty hmem (fun l hl => hproper l (hmem l hl)) hs).2
      have hstart : Conversion.depth {} = 0 := rfl
      omega

/-! ## The main statement -/

/-- In a text that can be put into postfix order the brackets are balanced, and no bracket is left in
the output, so its fold never comes to one. The output holds the tokens that the lexemes of the text
stand for, the values in the order of the text. -/
theorem toPostfix_conserves {names : Names} {text : List Char} {tokens : List Token}
    (h : toPostfix names text = .ok tokens) :
    (∀ p, p <+: text → p.count ')' ≤ p.count '(') ∧ text.count '(' = text.count ')' ∧
      (∀ op, .operator op ∈ tokens → op.isBracket = false) ∧
      (∀ symbol, foldTokens tokens ≠ .error (.unexpectedOperator symbol)) ∧
      ∃ read, StandFor names none (lexemes text) read ∧ tokens.Perm read ∧
        tokens.filter Token.isValue = read.filter Token.isValue := by
  have hfrom := toPostfix_comesFrom h
  have hbare : ∀ op, .operator op ∈ tokens → op.isBracket = false := fun op hop => (hfrom _ hop).1
  obtain ⟨hcount, c, hc, rfl⟩ := toPostfix_eq_ok_iff.1 h
  refine ⟨fun p hp => count_le_of_prefix h hp, hcount, hbare, fun symbol hfold => ?_, ?_⟩
  · -- what can be wrong with a fold of such tokens is their number or a division
    have hne : c.finish ≠ [] := by
      intro hnil
      rw [hnil] at hfold
      cases hfold
    rcases foldTokens_error hne hfrom hfold with harity | ⟨heq, -⟩
    · exact harity
    · cases heq
  · have hstart : Conversion.Waits {} := fun _ h => absurd h List.not_mem_nil
    have hdue : Conversion.operandDue {} = !(none : Option Lexeme).any Lexeme.endsOperand := rfl
    obtain ⟨read, hread, hgains⟩ := foldlM_accept_gains hstart hdue (spells_lexemes text).2 hc
    refine ⟨read, hread, ?_, ?_⟩
    · have hall : c.finish.filter (fun t => !t.isLeftBracket) = c.finish := by
        refine List.filter_eq_self.2 fun t ht => Bool.not_eq_true' _ ▸ beq_eq_false_iff_ne.2 ?_
        rintro rfl
        exact absurd (hbare _ ht) (by decide)
      rw [← hall]
      exact (c.finish_perm.filter _).trans hgains.perm
    · have hnone : c.waiting.filter Token.isValue = [] :=
        List.filter_eq_nil_iff.2 fun t ht => by rw [hgains.waits t ht]; exact Bool.false_ne_true
      rw [Conversion.finish, List.filter_append, hnone, List.append_nil]
      exact hgains.values_eq

/-- The main statement at `2*-(a) - sin 1`, which holds a minus sign and a difference. -/
theorem toPostfix_conserves_minus :
    let names : Names := fun _ => some 5.0
    let text := "2*-(a) - sin 1".toList
    let tokens : List Token := [.value 2.0, .value 5.0, .function .minus, .operator .mul, .value 1.0,
      .function .sin, .operator .sub]
    toPostfix names text = .ok tokens ∧
      (∀ p, p <+: text → p.count ')' ≤ p.count '(') ∧ text.count '(' = text.count ')' ∧
      ∃ read, StandFor names none (lexemes text) read ∧ tokens.Perm read ∧
        tokens.filter Token.isValue = read.filter Token.isValue := by
  intro names text tokens
  have h : toPostfix names text = .ok tokens := by decide +kernel
  obtain ⟨hfront, hcount, -, -, hread⟩ := toPostfix_conserves h
  exact ⟨h, hfront, hcount, hread⟩

end NumScript.Expr
