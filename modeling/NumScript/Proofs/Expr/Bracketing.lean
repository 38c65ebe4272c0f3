import NumScript.Proofs.Expr.Conservation

set_option autoImplicit false

/-! # Texts in brackets

A text in brackets means the same wherever it stands. Its lexemes are those of the text between two
brackets (`lexemes_bracketed`), and a conversion that reads them comes out with the tokens of the
text sent on, all that waited before untouched and an operand complete (`foldlM_accept_bracketed`).
This holds of every text that can be put into postfix order, a sentence or not, since what is read
inside the brackets never reaches below the opening one: it is looser than all operators, and a
closing bracket of the text finds the one it belongs to above it (`accept_inside`).

So an operator between two texts in brackets, or a function before one, comes behind the tokens of
its operands, and the values follow, since a fold does not look below what it puts onto the operands
(`toPostfix_bracketed`).
-/

namespace NumScript.Expr

def bracketed (text : List Char) : List Char :=
  '(' :: text ++ [')']

/-! ## The lexemes of a text in brackets

A bracket is a lexeme by itself. Nothing continues into it and it continues into nothing, so a text
can be put between brackets without any blanks. -/

/-- What starts with a closing bracket does not run into the text before it. -/
theorem Spells.append_closing {s s' : List Lexeme} {text rest : List Char} (h : Spells s text)
    (h' : Spells s' (')' :: rest)) : Spells (s ++ s') (text ++ ')' :: rest) := by
  induction h with
  | @nil blanks hblanks =>
      induction blanks with
      | nil => exact h'
      | cons c blanks ih =>
          exact (ih fun d hd => hblanks d (List.mem_cons_of_mem c hd)).cons_blank
            (hblanks c List.mem_cons_self)
  | @cons blanks text l s hblanks hglue _ ih =>
      rw [List.append_assoc, List.cons_append]
      refine .cons hblanks (fun c hc => ?_) ih
      cases text with
      | cons d text => exact hglue c hc
      | nil =>
          obtain rfl := Option.some.inj hc
          cases l with
          | opening | closing => rfl
          | number _ | word _ => rfl
          | symbol _ => exact Bool.and_false _

theorem lexemes_append_closing (text rest : List Char) :
    lexemes (text ++ ')' :: rest) = lexemes text ++ .closing :: lexemes rest := by
  obtain ⟨hspells, hproper⟩ := spells_lexemes text
  obtain ⟨hspells', hproper'⟩ := spells_lexemes (')' :: rest)
  have hclosing : lexemes (')' :: rest) = .closing :: lexemes rest :=
    lexemes_append_of_proper (l := .closing) trivial fun _ _ => rfl
  rw [← hclosing]
  refine lexemes_of_spells (hspells.append_closing hspells') fun l hl => ?_
  exact (List.mem_append.1 hl).elim (hproper l) (hproper' l)

theorem lexemes_bracketed (text rest : List Char) :
    lexemes (bracketed text ++ rest) = .opening :: lexemes text ++ .closing :: lexemes rest := by
  have hopening : lexemes ('(' :: (text ++ ')' :: rest)) = .opening :: lexemes (text ++ ')' :: rest) :=
    lexemes_append_of_proper (l := .opening) trivial fun _ _ => rfl
  rw [bracketed, List.append_assoc, List.cons_append, List.singleton_append, hopening,
    lexemes_append_closing, List.cons_append]

/-- No operator and no function runs into an opening bracket. -/
theorem lexemes_append_bracketed {l : Lexeme} (hl : l.Proper) (text rest : List Char) :
    lexemes (l.text ++ (bracketed text ++ rest)) =
      l :: .opening :: lexemes text ++ .closing :: lexemes rest := by
  have hglue : ∀ c ∈ (bracketed text ++ rest).head?, l.isContinuedBy c = false := by
    intro c hc
    obtain rfl := Option.some.inj hc
    cases l with
    | opening | closing => rfl
    | number _ | word _ => rfl
    | symbol _ => exact Bool.and_false _
  rw [lexemes_append_of_proper hl hglue, lexemes_bracketed]
  rfl

/-! ## Reading inside brackets

A simulation: the conversion that reads the text on its own and the one that reads it on top of a
bracket make the same moves. They could differ only when the first runs out of waiting tokens, and
at that point the second meets the bracket, which stops it as well. -/

namespace Conversion

/-- The conversion `c` on top of an opening bracket, which waits on top of `outer`. -/
def inside (outer c : Conversion) : Conversion where
  output := c.output ++ outer.output
  waiting := c.waiting ++ .operator .leftBracket :: outer.waiting
  operandDue := c.operandDue

theorem takeWhile_append_cons_of_neg {p : Token → Bool} {t : Token} (ht : p t = false)
    (waiting below : List Token) :
    (waiting ++ t :: below).takeWhile p = waiting.takeWhile p := by
  induction waiting with
  | nil => exact List.takeWhile_cons_of_neg (by rw [ht]; exact Bool.false_ne_true)
  | cons u waiting ih => rw [List.cons_append, List.takeWhile_cons, List.takeWhile_cons, ih]

theorem dropWhile_append_cons_of_neg {p : Token → Bool} {t : Token} (ht : p t = false)
    (waiting below : List Token) :
    (waiting ++ t :: below).dropWhile p = waiting.dropWhile p ++ t :: below := by
  induction waiting with
  | nil => exact List.dropWhile_cons_of_neg (by rw [ht]; exact Bool.false_ne_true)
  | cons u waiting ih =>
      rw [List.cons_append, List.dropWhile_cons, List.dropWhile_cons, ih]
      split <;> rfl

/-- The bracket is looser than every operator, so none sends it on. -/
theorem operator_inside (outer c : Conversion) {op : Operator} (hop : op.isBracket = false) :
    (outer.inside c).operator op = outer.inside (c.operator op) := by
  let tighter (t : Token) : Bool := op.priority ≤ t.priority
  have hbracket : tighter (.operator .leftBracket) = false :=
    decide_eq_false (Nat.not_le.2 (Operator.one_lt_priority hop))
  have htake := takeWhile_append_cons_of_neg hbracket c.waiting outer.waiting
  have hdrop := dropWhile_append_cons_of_neg hbracket c.waiting outer.waiting
  simp only [operator, inside, htake, hdrop, tighter, List.append_assoc, List.cons_append]

/-- A closing bracket that finds an opening one in `c` finds the same one on top of `outer`. -/
theorem close_inside (outer : Conversion) {c c' : Conversion} (h : c.close = .ok c') :
    (outer.inside c).close = .ok (outer.inside c') := by
  let within (t : Token) : Bool := !t.isLeftBracket
  have hbracket : within (.operator .leftBracket) = false := rfl
  have htake := takeWhile_append_cons_of_neg hbracket c.waiting outer.waiting
  have hdrop := dropWhile_append_cons_of_neg hbracket c.waiting outer.waiting
  unfold close at h ⊢
  dsimp only at h
  split at h
  · cases h
  · rename_i t below hbelow
    obtain rfl := Except.ok.inj h
    simp only [inside, htake, hdrop, within, hbelow, List.append_assoc, List.cons_append]

end Conversion

section

variable {names : Names} {c c' : Conversion} (outer : Conversion)

/-- What is read inside the brackets does not reach below the opening one. -/
theorem accept_inside {l : Lexeme} (hl : l.Proper) (hc : c.accept names l = .ok c') :
    (outer.inside c).accept names l = .ok (outer.inside c') := by
  cases l with
  | number text =>
      simp only [Conversion.accept] at hc ⊢
      split at hc <;> cases hc
      rfl
  | word text =>
      simp only [Conversion.accept] at hc ⊢
      split at hc
      · cases hc
        rfl
      · split at hc <;> cases hc
        rfl
  | opening =>
      cases hc
      rfl
  -- only here could the reading reach below the opening bracket
  | closing => exact Conversion.close_inside outer hc
  | symbol text =>
      simp only [Conversion.accept] at hc ⊢
      split at hc
      · rename_i hminus
        cases hc
        exact if_pos hminus
      rename_i hminus
      split at hc
      · cases hc
      rename_i op hop
      split at hc
      · cases hc
      rename_i hdue
      cases hc
      have hbracket := (Operator.isBracket_eq_false_of_proper hl hop).1
      rw [← Conversion.operator_inside outer c hbracket]
      exact (if_neg hminus).trans (if_neg hdue)

theorem foldlM_accept_inside {s : List Lexeme} (hs : ∀ l ∈ s, l.Proper)
    (hc : s.foldlM (Conversion.accept names) c = .ok c') :
    s.foldlM (Conversion.accept names) (outer.inside c) = .ok (outer.inside c') := by
  induction s generalizing c with
  | nil =>
      cases hc
      rfl
  | cons l s ih =>
      rw [List.foldlM_cons] at hc
      cases hl : c.accept names l with
      | error e =>
          rw [hl] at hc
          cases hc
      | ok c₁ =>
          rw [hl] at hc
          rw [foldlM_cons_of_ok (accept_inside outer (hs l (by simp)) hl)]
          exact ih (fun l' hl' => hs l' (by simp [hl'])) hc

end

/-- A text in brackets sends on its tokens and nothing else. -/
theorem foldlM_accept_bracketed {names : Names} {text : List Char} {tokens : List Token}
    (h : toPostfix names text = .ok tokens) (c : Conversion) (more : List Lexeme) :
    (.opening :: lexemes text ++ .closing :: more).foldlM (Conversion.accept names) c =
      more.foldlM (Conversion.accept names)
        { output := tokens.reverse ++ c.output, waiting := c.waiting, operandDue := false } := by
  have hfrom := toPostfix_comesFrom h
  obtain ⟨-, c₁, hread, rfl⟩ := toPostfix_eq_ok_iff.1 h
  have hopening : c.accept names .opening = .ok (c.inside {}) := rfl
  have hinside := foldlM_accept_inside c (spells_lexemes text).2 hread
  have hclosing : (c.inside c₁).accept names .closing =
      .ok { output := c₁.finish.reverse ++ c.output, waiting := c.waiting, operandDue := false } := by
    -- nothing that waits in the text is a bracket, so all of it is sent on
    have hall : ∀ t ∈ c₁.waiting, (!t.isLeftBracket) = true := by
      intro t ht
      refine Bool.not_eq_true' _ ▸ beq_eq_false_iff_ne.2 ?_
      rintro rfl
      have hbracket := (hfrom _ (List.mem_append_right _ ht)).1
      exact absurd hbracket (by decide)
    change (c.inside c₁).close = _
    unfold Conversion.close
    simp only [Conversion.inside, List.takeWhile_append_of_pos hall,
      List.dropWhile_append_of_pos hall]
    simp [Token.isLeftBracket, Conversion.finish]
  rw [List.cons_append, foldlM_cons_of_ok hopening, foldlM_append_of_ok hinside,
    foldlM_cons_of_ok hclosing]

/-! ## The fold of a part

The fold of some tokens behind others puts one value onto the operands if the tokens have one. With
this the value of a text in brackets is that of the text, wherever it stands. -/

theorem pushToken_append {t : Token} {operands operands' : List Float}
    (h : pushToken operands t = .ok operands') (below : List Float) :
    pushToken (operands ++ below) t = .ok (operands' ++ below) := by
  cases t with
  | value x =>
      cases h
      rfl
  | function f =>
      cases operands <;> cases h
      rfl
  | operator op =>
      match operands with
      | [] | [_] => cases h
      | y :: x :: more =>
          simp only [pushToken] at h
          cases hop : op.apply x y with
          | error e =>
              rw [hop] at h
              cases h
          | ok z =>
              rw [hop] at h
              cases h
              simp only [List.cons_append, pushToken, hop]
              rfl

/-- A fold does not look below what it puts onto the operands. -/
theorem foldlM_pushToken_append {tokens : List Token} {operands operands' : List Float}
    (h : tokens.foldlM pushToken operands = .ok operands') (below : List Float) :
    tokens.foldlM pushToken (operands ++ below) = .ok (operands' ++ below) := by
  induction tokens generalizing operands with
  | nil =>
      cases h
      rfl
  | cons t tokens ih =>
      rw [List.foldlM_cons] at h
      cases ht : pushToken operands t with
      | error e =>
          rw [ht] at h
          cases h
      | ok xs =>
          rw [ht] at h
          rw [foldlM_cons_of_ok (pushToken_append ht below)]
          exact ih h

/-- Tokens with a value put it onto the operands. -/
theorem foldlM_pushToken_of_foldTokens {tokens : List Token} {x : Float}
    (h : foldTokens tokens = .ok x) (operands : List Float) :
    tokens.foldlM pushToken operands = .ok (x :: operands) := by
  unfold foldTokens at h
  cases hfold : tokens.foldlM pushToken [] with
  | error e =>
      rw [hfold] at h
      cases h
  | ok xs =>
      rw [hfold] at h
      match xs with
      | [] | _ :: _ :: _ => cases h
      | [y] =>
          cases h
          exact foldlM_pushToken_append hfold operands

theorem foldTokens_append_function {tokens : List Token} {x : Float}
    (h : foldTokens tokens = .ok x) (f : Function) :
    foldTokens (tokens ++ [.function f]) = .ok (f.apply x) := by
  rw [foldTokens, foldlM_append_of_ok (foldlM_pushToken_of_foldTokens h [])]
  rfl

theorem foldTokens_append_operator {tokens tokens' : List Token} {x y : Float}
    (h : foldTokens tokens = .ok x) (h' : foldTokens tokens' = .ok y) (op : Operator) :
    foldTokens (tokens ++ tokens' ++ [.operator op]) = op.apply x y := by
  rw [foldTokens, List.append_assoc, foldlM_append_of_ok (foldlM_pushToken_of_foldTokens h []),
    foldlM_append_of_ok (foldlM_pushToken_of_foldTokens h' [x])]
  change ((op.apply x y).map (· :: []) >>= fun xs => pure xs) >>= onlyOperand = _
  cases op.apply x y <;> rfl

/-! ## The main statement -/

theorem evaluate_of_toPostfix {names : Names} {text : List Char} {tokens : List Token}
    (h : toPostfix names text = .ok tokens) : evaluate names text = foldTokens tokens := by
  rw [evaluate, h]
  rfl

section

variable {names : Names} {left right : List Char} {tokens tokens' : List Token}

theorem count_bracketed {text : List Char} (h : text.count '(' = text.count ')') :
    (bracketed text).count '(' = (bracketed text).count ')' := by
  simp [bracketed, h]

/-- No operator and no function is written with brackets. -/
theorem count_text_append {l : Lexeme} (hl : l.Proper) (hopen : [l].count .opening = 0)
    (hclose : [l].count .closing = 0) {text : List Char} (h : text.count '(' = text.count ')') :
    (l.text ++ text).count '(' = (l.text ++ text).count ')' := by
  rw [List.count_append, List.count_append, hl.count_text.1, hl.count_text.2, hopen, hclose, h]

theorem toPostfix_group (h : toPostfix names left = .ok tokens) :
    toPostfix names (bracketed left) = .ok tokens := by
  have hread : (lexemes (bracketed left)).foldlM (Conversion.accept names) {} =
      .ok ⟨tokens.reverse ++ [], [], false⟩ := by
    have hlex := lexemes_bracketed left []
    rw [List.append_nil] at hlex
    rw [hlex, foldlM_accept_bracketed h, lexemes]
    rfl
  have hcount := count_bracketed (toPostfix_eq_ok_iff.1 h).1
  exact toPostfix_eq_ok_iff.2 ⟨hcount, _, hread, by simp [Conversion.finish]⟩

theorem toPostfix_apply (h : toPostfix names left = .ok tokens) (f : Function) :
    toPostfix names (f.name.toList ++ bracketed left) = .ok (tokens ++ [.function f]) := by
  have hread : (lexemes (f.lexeme.text ++ bracketed left)).foldlM (Conversion.accept names) {} =
      .ok ⟨tokens.reverse ++ [], [.function f], false⟩ := by
    have hlex := lexemes_append_bracketed f.lexeme_proper left []
    rw [List.append_nil] at hlex
    rw [hlex, List.cons_append, foldlM_cons_of_ok (accept_function f), foldlM_accept_bracketed h,
      lexemes]
    rfl
  have hcount := count_bracketed (toPostfix_eq_ok_iff.1 h).1
  exact toPostfix_eq_ok_iff.2
    ⟨count_text_append f.lexeme_proper rfl rfl hcount, _, hread, by simp [Conversion.finish]⟩

theorem toPostfix_binary (h : toPostfix names left = .ok tokens)
    (h' : toPostfix names right = .ok tokens') {op : Operator} (hop : op.isBracket = false) :
    toPostfix names (bracketed left ++ op.symbol.toList ++ bracketed right) =
      .ok (tokens ++ tokens' ++ [.operator op]) := by
  have hproper := Operator.lexeme_proper hop
  have hread : (lexemes (bracketed left ++ (op.lexeme.text ++ bracketed right))).foldlM
      (Conversion.accept names) {} =
        .ok ⟨tokens'.reverse ++ (tokens.reverse ++ []), [.operator op], false⟩ := by
    have hlex := lexemes_append_bracketed hproper right []
    rw [List.append_nil] at hlex
    -- nothing waits before the operator, and nothing but it before the right operand
    rw [lexemes_bracketed, foldlM_accept_bracketed h, hlex, List.cons_append,
      foldlM_cons_of_ok (accept_operator op rfl), foldlM_accept_bracketed h', lexemes]
    rfl
  have hcount := count_bracketed (toPostfix_eq_ok_iff.1 h).1
  have hcount' := count_text_append hproper rfl rfl (count_bracketed (toPostfix_eq_ok_iff.1 h').1)
  have hall : (bracketed left ++ (op.lexeme.text ++ bracketed right)).count '(' =
      (bracketed left ++ (op.lexeme.text ++ bracketed right)).count ')' := by
    rw [List.count_append, List.count_append (a := ')'), hcount, hcount']
  rw [List.append_assoc]
  exact toPostfix_eq_ok_iff.2 ⟨hall, _, hread, by simp [Conversion.finish]⟩

end

/-- Texts in brackets are put together as their values are. Where two texts can be put into postfix
order, so can each of them in brackets, with a function before it and with an operator between them,
and then the tokens of the operands come first, from left to right. If the operands have values, the
function or the operator is applied to these. -/
theorem toPostfix_bracketed {names : Names} {left right : List Char} {tokens tokens' : List Token}
    (hleft : toPostfix names left = .ok tokens) (hright : toPostfix names right = .ok tokens')
    (f : Function) (op : Operator) (hop : op.isBracket = false) :
    toPostfix names (bracketed left) = .ok tokens ∧
      toPostfix names (f.name.toList ++ bracketed left) = .ok (tokens ++ [.function f]) ∧
      toPostfix names (bracketed left ++ op.symbol.toList ++ bracketed right) =
        .ok (tokens ++ tokens' ++ [.operator op]) ∧
      (∀ x, evaluate names left = .ok x →
        evaluate names (f.name.toList ++ bracketed left) = .ok (f.apply x)) ∧
      ∀ x y, evaluate names left = .ok x → evaluate names right = .ok y →
        evaluate names (bracketed left ++ op.symbol.toList ++ bracketed right) = op.apply x y := by
  have happly := toPostfix_apply hleft f
  have hbinary := toPostfix_binary hleft hright hop
  refine ⟨toPostfix_group hleft, happly, hbinary, fun x hx => ?_, fun x y hx hy => ?_⟩
  · rw [evaluate_of_toPostfix hleft] at hx
    rw [evaluate_of_toPostfix happly]
    exact foldTokens_append_function hx f
  · rw [evaluate_of_toPostfix hleft] at hx
    rw [evaluate_of_toPostfix hright] at hy
    rw [evaluate_of_toPostfix hbinary]
    exact foldTokens_append_operator hx hy op

/-- The main statement at texts that are no sentences: `1 2 +`, which is three, and `4 sqrt`, which
is two. -/
theorem toPostfix_bracketed_misplaced :
    let names : Names := fun _ => none
    let three : List Token := [.value 1.0, .value 2.0, .operator .add]
    let two : List Token := [.value 4.0, .function .sqrt]
    (toPostfix names "1 2 +".toList = .ok three ∧ toPostfix names "4 sqrt".toList = .ok two) ∧
      toPostfix names "(1 2 +)".toList = .ok three ∧
      toPostfix names "minus(1 2 +)".toList = .ok (three ++ [.function .minus]) ∧
      toPostfix names "(1 2 +)^(4 sqrt)".toList = .ok (three ++ two ++ [.operator .pow]) ∧
      evaluate names "(1 2 +)^(4 sqrt)".toList = Operator.pow.apply 3.0 2.0 := by
  intro names three two
  have hthree : toPostfix names "1 2 +".toList = .ok three := by decide +kernel
  have htwo : toPostfix names "4 sqrt".toList = .ok two := by decide +kernel
  have hleft : evaluate names "1 2 +".toList = .ok 3.0 := by decide +kernel
  have hright : evaluate names "4 sqrt".toList = .ok 2.0 := by decide +kernel
  obtain ⟨hgroup, happly, hbinary, -, hvalue⟩ :=
    toPostfix_bracketed hthree htwo .minus .pow rfl
  exact ⟨⟨hthree, htwo⟩, hgroup, happly, hbinary, hvalue _ _ hleft hright⟩

end NumScript.Expr
