import NumScript.Proofs.Expr.Spelling

set_option autoImplicit false

/-! # Operator precedence

The conversion to postfix order respects priorities: it gives the post-order of the tree of a
sentence, and the fold of that is the value of the tree (`toPostfix_eq_postorder`).

The invariant is about one phrase read in the middle of a longer text (`Conversion.Adds`). What
waited before still waits below. On top of it the operators on the right edge of the phrase's tree
wait, the highest at the bottom; sending them on completes the post-order of the tree. None of them
is looser than the phrase, so an operator behind the phrase that is no tighter sends on all of them,
and it stops there if what waited before is looser (`LooserThan`).
-/

namespace NumScript.Expr

/-! ## Reading a phrase

One lemma for each way in which a phrase is put together, each about what is added to a conversion
that may have any output and any waiting tokens. The invariant is then an induction on the tree with
these lemmas as its cases. A phrase leaves its right edge waiting, so the tree is not all in the
output when the phrase ends; it is in the output and the edge together. -/

/-- `c'` is what `c` becomes when a phrase of priority `p` with the tree `t` is read. -/
def Conversion.Adds (p : Nat) (t : Tree) (c c' : Conversion) : Prop :=
  ∃ edge, c'.waiting = edge ++ c.waiting ∧ c'.operandDue = false ∧
    c'.output.reverse ++ edge = c.output.reverse ++ t.postorder ∧ ∀ tok ∈ edge, p ≤ tok.priority

/-- The token that waits on top is looser than `p`, unless `p` is as tight as a function: a phrase
without operators outside brackets sends on nothing that waited before it. -/
def LooserThan (p : Nat) (waiting : List Token) : Prop :=
  p < Function.priority → ∀ tok ∈ waiting.head?, tok.priority < p

theorem foldlM_cons_of_ok {α β ε : Type} {f : β → α → Except ε β} {b b' : β} {a : α} {l : List α}
    (h : f b a = .ok b') : (a :: l).foldlM f b = l.foldlM f b' := by
  rw [List.foldlM_cons, h]
  rfl

theorem foldlM_append_of_ok {α β ε : Type} {f : β → α → Except ε β} {b b' : β} {l l' : List α}
    (h : l.foldlM f b = .ok b') : (l ++ l').foldlM f b = l'.foldlM f b' := by
  rw [List.foldlM_append, h]
  rfl

theorem accept_number {names : Names} {c : Conversion} {text : List Char} {x : Float}
    (h : Number.read? text = some x) : c.accept names (.number text) = .ok (c.value x) := by
  simp [Conversion.accept, h]

theorem accept_name {names : Names} {c : Conversion} {text : List Char} {x : Float}
    (hf : Function.ofName? (String.ofList text) = none)
    (hx : names (String.ofList text) = some x) :
    c.accept names (.word text) = .ok (c.value x) := by
  simp [Conversion.accept, hf, hx]

theorem accept_function {names : Names} {c : Conversion} (f : Function) :
    c.accept names f.lexeme = .ok (c.wait (.function f)) := by
  simp [Conversion.accept, Function.lexeme, String.ofList_toList, Function.ofName?_name]

theorem accept_minus {names : Names} {c : Conversion} (h : c.operandDue = true) :
    c.accept names (.symbol ['-']) = .ok (c.wait (.function .minus)) := by
  simp [Conversion.accept, h]

theorem accept_operator {names : Names} {c : Conversion} (op : Operator)
    (h : c.operandDue = false) : c.accept names op.lexeme = .ok (c.operator op) := by
  simp [Conversion.accept, Operator.lexeme, h, String.ofList_toList, Operator.ofSymbol?_symbol]

theorem Conversion.Adds.value {p : Nat} {c : Conversion} (x : Float) :
    Conversion.Adds p (.value x) c (c.value x) :=
  ⟨[], rfl, rfl, by simp [Conversion.value, Tree.postorder], by simp⟩

/-- The operand of a function completes the function. -/
theorem Conversion.Adds.apply {t : Tree} {c c' : Conversion} {f : Function}
    (h : Conversion.Adds Function.priority t (c.wait (.function f)) c') :
    Conversion.Adds Function.priority (.apply f t) c c' := by
  obtain ⟨edge, hw, hd, ho, hp⟩ := h
  refine ⟨edge ++ [.function f], ?_, hd, ?_, ?_⟩
  · rw [hw, Conversion.wait, List.append_assoc, List.singleton_append]
  · rw [← List.append_assoc, ho, Conversion.wait, Tree.postorder, List.append_assoc]
  · intro tok htok
    rcases List.mem_append.1 htok with htok | htok
    · exact hp tok htok
    · rw [List.mem_singleton.1 htok]
      exact Nat.le_refl _

/-- An operator behind a phrase that is at least as tight sends on the phrase and nothing else. -/
theorem Conversion.Adds.operator {p : Nat} {t : Tree} {c c' : Conversion} {op : Operator}
    (h : Conversion.Adds p t c c') (hp : op.priority ≤ p) (hc : LooserThan op.priority c.waiting) :
    c'.operator op =
      ⟨(c.output.reverse ++ t.postorder).reverse, .operator op :: c.waiting, true⟩ := by
  obtain ⟨edge, hw, -, ho, hedge⟩ := h
  have hin : ∀ tok ∈ edge, decide (op.priority ≤ tok.priority) = true :=
    fun tok htok => decide_eq_true (Nat.le_trans hp (hedge tok htok))
  have htop : ∀ tok ∈ c.waiting.head?, decide (op.priority ≤ tok.priority) = false :=
    fun tok htok => decide_eq_false (Nat.not_le.2 (hc op.priority_lt tok htok))
  rw [Conversion.operator, hw]
  rw [List.takeWhile_append_of_pos hin, List.dropWhile_append_of_pos hin, ← ho]
  cases hwait : c.waiting with
  | nil => simp
  | cons tok below =>
      rw [hwait] at htop
      simp [htop tok rfl]

/-- A closing bracket sends on what waits above the opening one. -/
theorem Conversion.Adds.close {p : Nat} {t : Tree} {c c' : Conversion} (hp : 1 < p)
    (h : Conversion.Adds p t (c.wait (.operator .leftBracket)) c') :
    ∃ c'', c'.close = .ok c'' ∧ Conversion.Adds Function.priority t c c'' := by
  obtain ⟨edge, hw, -, ho, hedge⟩ := h
  have hin : ∀ tok ∈ edge, (!tok.isLeftBracket) = true := by
    intro tok htok
    refine Bool.not_eq_true' _ ▸ beq_eq_false_iff_ne.2 ?_
    rintro rfl
    have hle : p ≤ 1 := hedge _ htok
    omega
  refine ⟨⟨edge.reverse ++ c'.output, c.waiting, false⟩, ?_, [], rfl, rfl, ?_, by simp⟩
  · rw [Conversion.close, hw]
    dsimp only [Conversion.wait]
    rw [List.takeWhile_append_of_pos hin, List.dropWhile_append_of_pos hin]
    simp [Token.isLeftBracket]
  · simpa [Conversion.wait] using ho

/-- The invariant: wherever a phrase is read, its tree is added. -/
theorem Parses.foldlM_accept {names : Names} {p : Nat} {t : Tree} {s : List Lexeme}
    (h : Parses names p t s) {c : Conversion} (hdue : c.operandDue = true)
    (hc : LooserThan p c.waiting) :
    ∃ c', s.foldlM (Conversion.accept names) c = .ok c' ∧ Conversion.Adds p t c c' := by
  induction h generalizing c with
  | number hx => exact ⟨_, foldlM_cons_of_ok (accept_number hx), .value _⟩
  | name hf hx => exact ⟨_, foldlM_cons_of_ok (accept_name hf hx), .value _⟩
  | @group p t s ht ih =>
      obtain ⟨c', hs, hadds⟩ := ih (c := c.wait (.operator .leftBracket)) rfl
        fun _ tok htok => by
          rw [← Option.some.inj htok]
          exact ht.one_lt
      obtain ⟨c'', hclose, hadds'⟩ := hadds.close ht.one_lt
      refine ⟨c'', ?_, hadds'⟩
      have hopening : c.accept names .opening = .ok (c.wait (.operator .leftBracket)) := rfl
      have hclosing : c'.accept names .closing = .ok c'' := hclose
      rw [List.cons_append, foldlM_cons_of_ok hopening, foldlM_append_of_ok hs,
        foldlM_cons_of_ok hclosing]
      rfl
  | apply f _ ih =>
      obtain ⟨c', hs, hadds⟩ := ih (c := c.wait (.function f)) rfl
        fun hlt => absurd hlt (Nat.lt_irrefl _)
      exact ⟨c', (foldlM_cons_of_ok (accept_function f)).trans hs, hadds.apply⟩
  | minus _ ih =>
      obtain ⟨c', hs, hadds⟩ := ih (c := c.wait (.function .minus)) rfl
        fun hlt => absurd hlt (Nat.lt_irrefl _)
      exact ⟨c', (foldlM_cons_of_ok (accept_minus hdue)).trans hs, hadds.apply⟩
  | @binary p q l r s s' op hop hl hr hp hq ihl ihr =>
      have hcl : LooserThan p c.waiting := fun _ tok htok =>
        Nat.lt_of_lt_of_le (hc op.priority_lt tok htok) hp
      obtain ⟨c₁, hs, hadds₁⟩ := ihl hdue hcl
      have hmid := hadds₁.operator hp hc
      -- the right operand is read on top of the operator, which is looser than all of it
      obtain ⟨c₂, hs', edge, hw, hd, ho, hedge⟩ := ihr (c := c₁.operator op) rfl
        fun _ tok htok => by
          rw [hmid] at htok
          rw [← Option.some.inj htok]
          exact hq
      refine ⟨c₂, ?_, edge ++ [.operator op], ?_, hd, ?_, ?_⟩
      · obtain ⟨edge₁, -, hd₁, -⟩ := hadds₁
        rw [foldlM_append_of_ok hs, foldlM_cons_of_ok (accept_operator op hd₁)]
        exact hs'
      · rw [hw, hmid, List.append_assoc, List.singleton_append]
      · rw [← List.append_assoc, ho, hmid]
        simp [Tree.postorder]
      · intro tok htok
        rcases List.mem_append.1 htok with htok | htok
        · exact Nat.le_of_lt (Nat.lt_of_lt_of_le hq (hedge tok htok))
        · rw [List.mem_singleton.1 htok]
          exact Nat.le_refl _

/-- A phrase that is all of the text becomes the post-order of its tree. -/
theorem Parses.toPostfix {names : Names} {p : Nat} {t : Tree} {s : List Lexeme} {text : List Char}
    (h : Parses names p t s) (hs : Sentence s) (ht : Spells s text) :
    toPostfix names text = .ok t.postorder := by
  obtain ⟨c, hc, edge, hw, -, ho, -⟩ :=
    h.foldlM_accept (c := {}) rfl fun _ tok htok => absurd htok (by simp)
  rw [Expr.toPostfix, checkBrackets_of_spells hs ht, lexemes_of_spells ht hs.proper]
  show (s.foldlM (Conversion.accept names) {} >>= fun c => pure c.finish) = _
  rw [hc]
  show Except.ok (c.output.reverse ++ c.waiting) = _
  rw [hw, List.append_nil, ho]
  rfl

/-! ## Folding a post-order

The fold of a post-order is the value of the tree, put onto whatever operands there were. Where the
tree divides by zero, the fold stops at the first operator that does. -/

/-- Folding the post-order of a tree puts the value of the tree onto the operands. -/
theorem Tree.foldlM_pushToken (t : Tree) (rest : List Token) (operands : List Float) :
    (t.postorder ++ rest).foldlM pushToken operands =
      t.eval >>= fun x => rest.foldlM pushToken (x :: operands) := by
  induction t generalizing rest operands with
  | value x => rfl
  | apply f t ih =>
      rw [postorder, List.append_assoc, ih, eval]
      cases t.eval with
      | error e => rfl
      | ok x => rfl
  | binary op l r ihl ihr =>
      rw [postorder, List.append_assoc, List.append_assoc, ihl, eval]
      cases l.eval with
      | error e => rfl
      | ok x =>
          show List.foldlM _ _ _ = (r.eval >>= fun y => op.apply x y) >>= _
          rw [ihr]
          cases r.eval with
          | error e => rfl
          | ok y =>
              show (op.apply x y).map (· :: operands) >>= _ = op.apply x y >>= _
              cases op.apply x y <;> rfl

theorem foldTokens_postorder (t : Tree) : foldTokens t.postorder = t.eval := by
  have h := t.foldlM_pushToken [] []
  rw [List.append_nil] at h
  rw [foldTokens, h]
  cases t.eval <;> rfl

/-! ## The post-order determines the tree

Trees can be rebuilt from their post-orders by the same fold with trees for operands. So no two
trees have one post-order, and a sentence whose postfix order is that of a tree has no other tree.
-/

/-- Rebuilds trees from tokens, as the fold computes values. -/
def rebuild : List Tree → Token → List Tree
  | trees, .value x => .value x :: trees
  | r :: l :: trees, .operator op => .binary op l r :: trees
  | t :: trees, .function f => .apply f t :: trees
  | trees, _ => trees

theorem Tree.foldl_rebuild (t : Tree) (trees : List Tree) :
    t.postorder.foldl rebuild trees = t :: trees := by
  induction t generalizing trees with
  | value x => rfl
  | apply f t ih => simp [postorder, ih, rebuild]
  | binary op l r ihl ihr => simp [postorder, ihl, ihr, rebuild]

theorem Tree.postorder_injective {t u : Tree} (h : t.postorder = u.postorder) : t = u := by
  have ht := t.foldl_rebuild []
  rw [h, u.foldl_rebuild] at ht
  exact (List.cons.inj ht).1.symm

/-! ## Values

The only way for an operator of a tree to fail is a division by zero: brackets are not among them.
-/

/-- An operator that is no bracket fails only on a division by zero. -/
theorem Operator.apply_eq_error {op : Operator} (hop : op.isBracket = false) {x y : Float}
    {e : Error} (h : op.apply x y = .error e) : e = .divisionByZero := by
  cases op
  case div | mod =>
    simp only [Operator.apply] at h
    split at h
    · exact (Except.error.inj h).symm
    · simp at h
  case leftBracket | rightBracket => exact absurd hop (by decide)
  all_goals cases h

/-- The tree of a phrase has a value, unless an operator in it divides by zero. -/
theorem Parses.eval_cases {names : Names} {p : Nat} {t : Tree} {s : List Lexeme}
    (h : Parses names p t s) :
    (∃ x, t.eval = .ok x ∧ ¬ t.DividesByZero) ∨
      t.eval = .error .divisionByZero ∧ t.DividesByZero := by
  induction h with
  | number _ => exact .inl ⟨_, rfl, id⟩
  | name _ _ => exact .inl ⟨_, rfl, id⟩
  | group _ ih => exact ih
  | apply f _ ih =>
      rcases ih with ⟨x, hx, hn⟩ | ⟨hx, hd⟩
      · exact .inl ⟨f.apply x, by rw [Tree.eval, hx]; rfl, hn⟩
      · exact .inr ⟨by rw [Tree.eval, hx]; rfl, hd⟩
  | minus _ ih =>
      rcases ih with ⟨x, hx, hn⟩ | ⟨hx, hd⟩
      · exact .inl ⟨Function.minus.apply x, by rw [Tree.eval, hx]; rfl, hn⟩
      · exact .inr ⟨by rw [Tree.eval, hx]; rfl, hd⟩
  | @binary p q l r s s' op hop _ _ _ _ ihl ihr =>
      rcases ihl with ⟨x, hx, hnl⟩ | ⟨hx, hd⟩
      · rcases ihr with ⟨y, hy, hnr⟩ | ⟨hy, hd⟩
        · have heval : (Tree.binary op l r).eval = op.apply x y := by
            rw [Tree.eval, hx, hy]
            rfl
          rw [heval]
          -- both operands have values, so only this operator can divide by zero
          cases happ : op.apply x y with
          | ok z =>
              refine .inl ⟨z, rfl, ?_⟩
              rintro (hd | hd | ⟨x', y', hx', hy', hd⟩)
              · exact hnl hd
              · exact hnr hd
              · rw [hx] at hx'
                rw [hy] at hy'
                rw [← Except.ok.inj hx', ← Except.ok.inj hy', happ] at hd
                simp at hd
          | error e =>
              obtain rfl := Operator.apply_eq_error hop happ
              exact .inr ⟨rfl, .inr (.inr ⟨x, y, hx, hy, happ⟩)⟩
        · exact .inr ⟨by rw [Tree.eval, hx, hy]; rfl, .inr (.inl hd)⟩
      · exact .inr ⟨by rw [Tree.eval, hx]; rfl, .inl hd⟩

/-! ## The main statement -/

/-- A sentence has exactly one tree that respects the priorities. However the sentence is spelled,
its postfix order is the post-order of that tree, and its value that of the tree: a number, or a
division by zero if some operator of the tree divides by zero. -/
theorem toPostfix_eq_postorder {names : Names} {s : List Lexeme} {text : List Char}
    (hs : Sentence s) (hnames : names.Resolves s) (htext : Spells s text) :
    ∃ t : Tree, (∃ p, Parses names p t s) ∧ (∀ u q, Parses names q u s → u = t) ∧
      toPostfix names text = .ok t.postorder ∧ evaluate names text = t.eval ∧
      ((∃ x, t.eval = .ok x ∧ ¬ t.DividesByZero) ∨
        t.eval = .error .divisionByZero ∧ t.DividesByZero) := by
  obtain ⟨p, t, ht, -⟩ := hs.exists_parses hnames
  have hpost := ht.toPostfix hs htext
  refine ⟨t, ⟨p, ht⟩, ?_, hpost, ?_, ht.eval_cases⟩
  · intro u q hu
    have hpost' := hu.toPostfix hs htext
    rw [hpost] at hpost'
    exact Tree.postorder_injective (Except.ok.inj hpost').symm
  · rw [evaluate, hpost]
    exact foldTokens_postorder t

/-- The main statement at `a -2*-( b )`, where a minus sign stands in both of its roles. -/
theorem toPostfix_eq_postorder_sub_mul_minus :
    toPostfix (fun _ => some 1.0) "a -2*-( b )".toList =
      .ok [.value 1.0, .value (Number.ofDecimal 2 0), .value 1.0, .function .minus,
        .operator .mul, .operator .sub] := by
  have hname {c : Char} (hc : isWordStart c = true)
      (hf : Function.ofName? (String.ofList [c]) = none) : Phrase .factor [.word [c]] :=
    .atom (.name ⟨⟨c, [], rfl, hc, by simp⟩, hf⟩)
  have ha := hname (c := 'a') (by decide) (by decide)
  have hb := hname (c := 'b') (by decide) (by decide)
  have h2 : Phrase .factor [.number ['2']] :=
    .atom (.number ⟨⟨'2', [], rfl, by decide, by simp⟩, rfl⟩)
  have hs : Sentence [.word ['a'], .symbol ['-'], .number ['2'], .symbol ['*'], .symbol ['-'],
      .opening, .word ['b'], .closing] :=
    .binary .mul rfl (.binary .sub rfl (.factor ha) h2) (.minus (.atom (.group (.factor hb))))
  have blank : ∀ c ∈ [' '], Text.isBlank c = true := List.all_eq_true.1 (by decide)
  have none : ∀ c ∈ ([] : List Char), Text.isBlank c = true :=
    fun _ h => absurd h List.not_mem_nil
  have ends {l : Lexeme} {text : List Char}
      (h : text.head?.all (fun c => !l.isContinuedBy c) = true) :
      ∀ c ∈ text.head?, l.isContinuedBy c = false :=
    fun c hc => Bool.not_eq_eq_eq_not.1 ((Option.all_eq_true _ _).1 h c hc)
  have ht : Spells [.word ['a'], .symbol ['-'], .number ['2'], .symbol ['*'], .symbol ['-'],
      .opening, .word ['b'], .closing] "a -2*-( b )".toList :=
    .cons none (ends (by decide)) (.cons blank (ends (by decide)) (.cons none (ends (by decide))
      (.cons none (ends (by decide)) (.cons none (ends (by decide)) (.cons none (ends (by decide))
        (.cons blank (ends (by decide)) (.cons blank (ends (by decide)) (.nil none))))))))
  -- a name that stands for anything stands for one
  let names : Names := fun _ => some 1.0
  have hpa : Parses names Function.priority (.value 1.0) [.word ['a']] := .name (by decide) rfl
  have hpb : Parses names Function.priority (.value 1.0) [.word ['b']] := .name (by decide) rfl
  have hp2 : Parses names Function.priority (.value (Number.ofDecimal 2 0)) [.number ['2']] :=
    .number rfl
  have hp : Parses names _ (.binary .sub (.value 1.0)
      (.binary .mul (.value (Number.ofDecimal 2 0)) (.apply .minus (.value 1.0)))) _ :=
    .binary .sub rfl hpa (.binary .mul rfl hp2 (.minus (.group hpb)) (by decide) (by decide))
      (by decide) (by decide)
  obtain ⟨t, -, hunique, hpost, -⟩ := @toPostfix_eq_postorder names _ _ hs (fun _ _ _ => rfl) ht
  show toPostfix names _ = _
  rw [hpost, ← hunique _ _ hp]
  rfl

end NumScript.Expr
