import Mathlib.Data.List.Forall2
import NumScript.Proofs.Expr.Precedence

set_option autoImplicit false

/-! # Expressions under other values

Names of the same domain may stand for other numbers. The conversion to postfix order does not look
at the numbers, so the tokens are the same up to the values among them (`toPostfix_sameShape`). The
fold looks at them for one thing only, a divisor that is zero. So under two such assignments an
expression has a value under both, fails in the same way under both, or divides by zero under one of
them, which takes a `/` or a `%` in its text. A fold that gets further than a division by zero can
still fail for a wrong number of operands, and for nothing else (`evaluate_sameShape`).

This is what a check of a script can know about a run of it. A check evaluates every expression with
the values that the variables happen to have, and lets a division by zero pass. All other errors are
the same whatever the values are. -/

namespace NumScript.Expr

/-! ## The tokens of an expression

Where tokens come from: an operator in the output was an operator in the text. The brackets that
wait are counted along with this, as a text with equally many brackets could still leave some
waiting if a closing one came first, and would then have failed. -/

/-- Apart from values and functions a token is an operator, and its symbol is among the lexemes. -/
def Token.ComesFrom (s : List Lexeme) : Token → Prop
  | .operator op => op.isBracket = false ∧ op.lexeme ∈ s
  | _ => True

/-- All tokens come from the lexemes, and besides some opening brackets may wait. -/
structure Conversion.ComesFrom (s : List Lexeme) (c : Conversion) : Prop where
  output : ∀ t ∈ c.output, t.ComesFrom s
  waiting : ∀ t ∈ c.waiting, t = .operator .leftBracket ∨ t.ComesFrom s

def Conversion.depth (c : Conversion) : Nat :=
  c.waiting.count (.operator .leftBracket)

theorem Operator.isBracket_eq_false_of_proper {text : List Char} {op : Operator}
    (h : (Lexeme.symbol text).Proper) (hop : Operator.ofSymbol? (String.ofList text) = some op) :
    op.isBracket = false ∧ Lexeme.symbol text = op.lexeme := by
  have htext : text = op.symbol.toList := by
    rw [← Operator.ofSymbol?_eq_some_iff.1 hop, String.toList_ofList]
  subst htext
  obtain ⟨hopen, hclose⟩ := h.count_text
  refine ⟨?_, rfl⟩
  cases op <;> first | rfl | exact absurd hopen (by decide) | exact absurd hclose (by decide)

section

variable {names : Names} {s : List Lexeme} {c c' : Conversion}

theorem Conversion.ComesFrom.value (h : c.ComesFrom s) (x : Float) :
    (c.value x).ComesFrom s where
  output t ht := (List.mem_cons.1 ht).elim (fun h => h ▸ trivial) (h.output t)
  waiting := h.waiting

theorem Conversion.ComesFrom.wait (h : c.ComesFrom s) {t : Token}
    (ht : t = .operator .leftBracket ∨ t.ComesFrom s) : (c.wait t).ComesFrom s where
  output := h.output
  waiting u hu := (List.mem_cons.1 hu).elim (fun heq => heq ▸ ht) (h.waiting u)

theorem Conversion.ComesFrom.operator (h : c.ComesFrom s) {op : Operator}
    (hop : op.isBracket = false) (hmem : op.lexeme ∈ s) : (c.operator op).ComesFrom s where
  output t ht := by
    rcases List.mem_append.1 ht with ht | ht
    · rw [List.mem_reverse] at ht
      rcases h.waiting t ((List.takeWhile_sublist _).mem ht) with rfl | hfrom
      · -- an opening bracket is looser than every operator
        have hle := eq_true_of_mem_takeWhile _ ht
        exact absurd (Operator.one_lt_priority hop) (Nat.not_lt.2 (of_decide_eq_true hle))
      · exact hfrom
    · exact h.output t ht
  waiting t ht := by
    rcases List.mem_cons.1 ht with rfl | ht
    · exact .inr ⟨hop, hmem⟩
    · exact h.waiting t ((List.dropWhile_sublist _).mem ht)

theorem Conversion.depth_operator {op : Operator} (hop : op.isBracket = false) :
    (c.operator op).depth = c.depth := by
  have hne : Token.operator op ≠ .operator .leftBracket := by
    rintro heq
    rw [Token.operator.inj heq] at hop
    exact absurd hop (by decide)
  unfold depth
  rw [← List.takeWhile_append_dropWhile (p := fun t : Token => decide (op.priority ≤ t.priority))
    (l := c.waiting), List.count_append]
  have hnone : (c.waiting.takeWhile fun t => decide (op.priority ≤ t.priority)).count
      (Token.operator .leftBracket) = 0 := by
    refine List.count_eq_zero.2 fun hmem => ?_
    have hle := eq_true_of_mem_takeWhile _ hmem
    exact absurd (Operator.one_lt_priority hop) (Nat.not_lt.2 (of_decide_eq_true hle))
  rw [hnone, Nat.zero_add]
  exact List.count_cons_of_ne hne

theorem Conversion.close_spec (h : c.ComesFrom s) (hclose : c.close = .ok c') :
    c'.ComesFrom s ∧ c'.depth + 1 = c.depth := by
  unfold Conversion.close at hclose
  have hsplit := List.takeWhile_append_dropWhile (p := fun t : Token => !t.isLeftBracket)
    (l := c.waiting)
  have hhead := List.head?_dropWhile_not (fun t : Token => !t.isLeftBracket) c.waiting
  dsimp only at hclose
  generalize hin : c.waiting.takeWhile (fun t : Token => !t.isLeftBracket) = inside at hclose hsplit
  generalize c.waiting.dropWhile (fun t : Token => !t.isLeftBracket) = ahead at hclose hsplit hhead
  cases ahead with
  | nil => cases hclose
  | cons t below =>
      obtain rfl : t = .operator .leftBracket := by
        simpa [Token.isLeftBracket] using hhead
      obtain rfl := Except.ok.inj hclose
      have hnot : ∀ u ∈ inside, u ≠ .operator .leftBracket := by
        rw [← hin]
        rintro u hu rfl
        exact absurd (eq_true_of_mem_takeWhile _ hu) (by decide)
      -- what waited inside the brackets goes to the output, and the bracket is gone
      refine ⟨⟨fun u hu => ?_, fun u hu => h.waiting u ?_⟩, ?_⟩
      · rcases List.mem_append.1 hu with hu | hu
        · rw [List.mem_reverse] at hu
          have hwait := h.waiting u (by rw [← hsplit]; exact List.mem_append_left _ hu)
          exact hwait.resolve_left (hnot u hu)
        · exact h.output u hu
      · rw [← hsplit]
        exact List.mem_append_right _ (List.mem_cons_of_mem _ hu)
      · unfold depth
        rw [← hsplit, List.count_append, List.count_cons_self,
          List.count_eq_zero.2 fun hmem => hnot _ hmem rfl, Nat.zero_add]

/-- What one lexeme does to the tokens and to the brackets that wait. -/
theorem accept_comesFrom (h : c.ComesFrom s) {l : Lexeme} (hmem : l ∈ s) (hl : l.Proper)
    (hc : c.accept names l = .ok c') :
    c'.ComesFrom s ∧ c'.depth + [l].count .closing = c.depth + [l].count .opening := by
  have fromFunction (f : Function) : Token.ComesFrom s (.function f) := trivial
  have hfunction (f : Function) : (c.wait (.function f)).depth = c.depth :=
    List.count_cons_of_ne (by simp)
  cases l with
  | number text =>
      simp only [Conversion.accept] at hc
      split at hc <;> cases hc
      exact ⟨h.value _, rfl⟩
  | word text =>
      simp only [Conversion.accept] at hc
      split at hc
      · rename_i f _
        cases hc
        exact ⟨h.wait (.inr (fromFunction f)), hfunction f⟩
      · split at hc <;> cases hc
        exact ⟨h.value _, rfl⟩
  | opening =>
      cases hc
      have hdepth : (c.wait (.operator .leftBracket)).depth = c.depth + 1 := List.count_cons_self
      exact ⟨h.wait (.inl rfl), by rw [hdepth]; rfl⟩
  | closing => exact Conversion.close_spec h hc
  | symbol text =>
      simp only [Conversion.accept] at hc
      split at hc
      · cases hc
        exact ⟨h.wait (.inr (fromFunction .minus)), hfunction .minus⟩
      split at hc
      · cases hc
      rename_i op hop
      split at hc
      · cases hc
      cases hc
      obtain ⟨hbracket, hlex⟩ := Operator.isBracket_eq_false_of_proper hl hop
      exact ⟨h.operator hbracket (hlex ▸ hmem), Conversion.depth_operator hbracket⟩

theorem foldlM_accept_comesFrom {ls : List Lexeme} (h : c.ComesFrom s) (hmem : ∀ l ∈ ls, l ∈ s)
    (hproper : ∀ l ∈ ls, l.Proper) (hc : ls.foldlM (Conversion.accept names) c = .ok c') :
    c'.ComesFrom s ∧ c'.depth + ls.count .closing = c.depth + ls.count .opening := by
  induction ls generalizing c with
  | nil =>
      cases hc
      exact ⟨h, rfl⟩
  | cons l ls ih =>
      rw [List.foldlM_cons] at hc
      cases hl : c.accept names l with
      | error e =>
          rw [hl] at hc
          cases hc
      | ok c₁ =>
          rw [hl] at hc
          obtain ⟨h₁, hdepth₁⟩ := accept_comesFrom h (hmem l (by simp)) (hproper l (by simp)) hl
          obtain ⟨h₂, hdepth₂⟩ := ih h₁ (fun l' hl' => hmem l' (by simp [hl']))
            (fun l' hl' => hproper l' (by simp [hl'])) hc
          refine ⟨h₂, ?_⟩
          rw [← List.singleton_append (l := ls), List.count_append, List.count_append]
          omega

end

/-- No bracket is left among the tokens of an expression, and each operator is in its text. -/
theorem toPostfix_comesFrom {names : Names} {text : List Char} {tokens : List Token}
    (h : toPostfix names text = .ok tokens) : ∀ t ∈ tokens, t.ComesFrom (lexemes text) := by
  obtain ⟨hspells, hproper⟩ := spells_lexemes text
  obtain ⟨hopen, hclose⟩ := count_of_spells hspells hproper
  unfold toPostfix checkBrackets at h
  dsimp only at h
  split at h
  · rename_i heq
    cases hc : (lexemes text).foldlM (Conversion.accept names) {} with
    | error e =>
        rw [hc] at h
        cases h
    | ok c =>
        rw [hc] at h
        cases h
        have hempty : Conversion.ComesFrom (lexemes text) {} :=
          ⟨fun _ h => absurd h List.not_mem_nil, fun _ h => absurd h List.not_mem_nil⟩
        obtain ⟨hfrom, hdepth⟩ := foldlM_accept_comesFrom hempty (fun _ h => h) hproper hc
        -- the text has as many closing brackets as opening ones, so none waits at the end
        have hzero : c.depth = 0 := by
          have hstart : Conversion.depth {} = 0 := rfl
          omega
        intro t ht
        rcases List.mem_append.1 ht with ht | ht
        · exact hfrom.output t (List.mem_reverse.1 ht)
        · refine (hfrom.waiting t ht).resolve_left ?_
          rintro rfl
          exact List.count_eq_zero.1 hzero ht
  · cases h

/-! ## Shapes

Two conversions over the same lexemes are kept in step. Each function of the conversion has its
lemma, and what it decides on (which token waits on top, whether an operand is due) is the same for
both. -/

def Names.SameDomain (names names' : Names) : Prop :=
  ∀ name, (names name).isSome = (names' name).isSome

/-- The two tokens are equal or both values. -/
inductive Token.SameShape : Token → Token → Prop
  | value (x y : Float) : SameShape (.value x) (.value y)
  | operator (op : Operator) : SameShape (.operator op) (.operator op)
  | function (f : Function) : SameShape (.function f) (.function f)

/-- The two conversions are equal but for the values among their tokens. -/
structure Conversion.SameShape (c c' : Conversion) : Prop where
  output : List.Forall₂ Token.SameShape c.output c'.output
  waiting : List.Forall₂ Token.SameShape c.waiting c'.waiting
  operandDue : c.operandDue = c'.operandDue

theorem forall₂_takeWhile {α : Type} {r : α → α → Prop} {p : α → Bool}
    (hp : ∀ a b, r a b → p a = p b) {l l' : List α} (h : List.Forall₂ r l l') :
    List.Forall₂ r (l.takeWhile p) (l'.takeWhile p) := by
  induction h with
  | nil => exact .nil
  | @cons a b l l' hab _ ih =>
      rw [List.takeWhile_cons, List.takeWhile_cons, hp a b hab]
      split
      · exact .cons hab ih
      · exact .nil

theorem forall₂_dropWhile {α : Type} {r : α → α → Prop} {p : α → Bool}
    (hp : ∀ a b, r a b → p a = p b) {l l' : List α} (h : List.Forall₂ r l l') :
    List.Forall₂ r (l.dropWhile p) (l'.dropWhile p) := by
  induction h with
  | nil => exact .nil
  | @cons a b l l' hab hl ih =>
      rw [List.dropWhile_cons, List.dropWhile_cons, hp a b hab]
      split
      · exact ih
      · exact .cons hab hl

theorem Token.SameShape.priority_eq {t t' : Token} (h : t.SameShape t') :
    t.priority = t'.priority := by
  cases h <;> rfl

theorem Token.SameShape.isLeftBracket_eq {t t' : Token} (h : t.SameShape t') :
    t.isLeftBracket = t'.isLeftBracket := by
  cases h <;> rfl

section

variable {c c' : Conversion} (h : c.SameShape c')

include h

theorem Conversion.SameShape.value (x y : Float) : (c.value x).SameShape (c'.value y) where
  output := .cons (.value x y) h.output
  waiting := h.waiting
  operandDue := rfl

theorem Conversion.SameShape.wait {t : Token} (ht : t.SameShape t) :
    (c.wait t).SameShape (c'.wait t) where
  output := h.output
  waiting := .cons ht h.waiting
  operandDue := rfl

theorem Conversion.SameShape.operator (op : Operator) :
    (c.operator op).SameShape (c'.operator op) := by
  have htighter (t t' : Token) (ht : t.SameShape t') :
      decide (op.priority ≤ t.priority) = decide (op.priority ≤ t'.priority) := by
    rw [ht.priority_eq]
  exact
    { output := List.rel_append (List.rel_reverse (forall₂_takeWhile htighter h.waiting)) h.output
      waiting := .cons (.operator op) (forall₂_dropWhile htighter h.waiting)
      operandDue := rfl }

end

/-- Both have a result, and these are related, or both fail for the same reason. -/
inductive SameResult {α β : Type} (same : α → β → Prop) : Except Error α → Except Error β → Prop
  | ok {a : α} {b : β} : same a b → SameResult same (.ok a) (.ok b)
  | error (e : Error) : SameResult same (.error e) (.error e)

theorem Conversion.SameShape.close {c c' : Conversion} (h : c.SameShape c') :
    SameResult Conversion.SameShape c.close c'.close := by
  have hinside (t t' : Token) (ht : t.SameShape t') : (!t.isLeftBracket) = !t'.isLeftBracket := by
    rw [ht.isLeftBracket_eq]
  have htake := forall₂_takeWhile hinside h.waiting
  have hdrop := forall₂_dropWhile hinside h.waiting
  unfold Conversion.close
  dsimp only
  generalize c.waiting.dropWhile _ = below at hdrop ⊢
  generalize c'.waiting.dropWhile _ = below' at hdrop ⊢
  cases hdrop with
  | nil => exact .error _
  | cons _ hbelow =>
      exact .ok
        { output := List.rel_append (List.rel_reverse htake) h.output
          waiting := hbelow
          operandDue := rfl }

section

variable {names names' : Names} (hn : names.SameDomain names')

include hn

theorem accept_sameShape {c c' : Conversion} (h : c.SameShape c') (l : Lexeme) :
    SameResult Conversion.SameShape (c.accept names l) (c'.accept names' l) := by
  cases l with
  | number text =>
      simp only [Conversion.accept]
      cases Number.read? text with
      | none => exact .error _
      | some x => exact .ok (h.value x x)
  | word text =>
      simp only [Conversion.accept]
      cases Function.ofName? (String.ofList text) with
      | some f => exact .ok (h.wait (.function f))
      | none =>
          have hname := hn (String.ofList text)
          cases hx : names (String.ofList text) <;> cases hy : names' (String.ofList text) <;>
            rw [hx, hy] at hname
          · exact .error _
          · cases hname
          · cases hname
          · exact .ok (h.value _ _)
  | opening => exact .ok (h.wait (.operator .leftBracket))
  | closing => exact h.close
  | symbol text =>
      simp only [Conversion.accept]
      rw [h.operandDue]
      split
      · exact .ok (h.wait (.function .minus))
      cases Operator.ofSymbol? (String.ofList text) with
      | none => exact .error _
      | some op =>
          dsimp only
          split
          · exact .error _
          · exact .ok (h.operator op)

theorem foldlM_accept_sameShape {c c' : Conversion} (h : c.SameShape c') (ls : List Lexeme) :
    SameResult Conversion.SameShape (ls.foldlM (Conversion.accept names) c)
      (ls.foldlM (Conversion.accept names') c') := by
  induction ls generalizing c c' with
  | nil => exact .ok h
  | cons l ls ih =>
      rw [List.foldlM_cons, List.foldlM_cons]
      have haccept := accept_sameShape hn h l
      generalize c.accept names l = r at haccept ⊢
      generalize c'.accept names' l = r' at haccept ⊢
      cases haccept with
      | ok h => exact ih h
      | error e => exact .error e

/-- The tokens of an expression depend on the values of its names only in the values among them. -/
theorem toPostfix_sameShape (text : List Char) :
    SameResult (List.Forall₂ Token.SameShape) (toPostfix names text) (toPostfix names' text) := by
  unfold toPostfix
  cases checkBrackets text with
  | error e => exact .error e
  | ok =>
      have hempty : Conversion.SameShape {} {} := ⟨.nil, .nil, rfl⟩
      have hfold := foldlM_accept_sameShape hn hempty (lexemes text)
      show SameResult _ (_ >>= fun c : Conversion => pure c.finish)
        (_ >>= fun c : Conversion => pure c.finish)
      generalize (lexemes text).foldlM (Conversion.accept names) {} = r at hfold ⊢
      generalize (lexemes text).foldlM (Conversion.accept names') {} = r' at hfold ⊢
      cases hfold with
      | ok h => exact .ok (List.rel_append (List.rel_reverse h.output) h.waiting)
      | error e => exact .error e

end

/-! ## The fold

The operands are two stacks of equal height here. As long as no fold divides by zero they stay so. A
fold that stopped says nothing about what the other does from there on, except for how it can fail.
-/

/-- The errors of a fold that has the wrong number of operands somewhere. -/
def Error.IsArity : Error → Prop
  | missingOperand _ | missingOperator _ => True
  | _ => False

def Divides (tokens : List Token) : Prop :=
  .operator .div ∈ tokens ∨ .operator .mod ∈ tokens

/-- The outcomes of two folds over tokens of one shape: they go on in the same way, unless one of
them divides by zero. -/
inductive SameFold {α : Type} (same : α → α → Prop) : Except Error α → Except Error α → Prop
  | ok {a b : α} : same a b → SameFold same (.ok a) (.ok b)
  | error (e : Error) : SameFold same (.error e) (.error e)
  | left (r : Except Error α) : SameFold same (.error .divisionByZero) r
  | right (r : Except Error α) : SameFold same r (.error .divisionByZero)

theorem Operator.apply_sameFold {op : Operator} (hop : op.isBracket = false) (x y x' y' : Float) :
    SameFold (fun _ _ => True) (op.apply x y) (op.apply x' y') := by
  cases h : op.apply x y with
  | error e =>
      rw [Operator.apply_eq_error hop h]
      exact .left _
  | ok z =>
      cases h' : op.apply x' y' with
      | error e =>
          rw [Operator.apply_eq_error hop h']
          exact .right _
      | ok z' => exact .ok trivial

theorem pushToken_sameFold {s : List Lexeme} {t t' : Token} (ht : t.SameShape t')
    (hfrom : t.ComesFrom s) {operands operands' : List Float}
    (hlength : operands.length = operands'.length) :
    SameFold (fun xs ys => xs.length = ys.length) (pushToken operands t)
      (pushToken operands' t') := by
  cases ht with
  | value x y => exact .ok (by simp only [List.length_cons, hlength])
  | function f =>
      cases operands <;> cases operands' <;> simp only [List.length_nil, List.length_cons] at hlength
      · exact .error _
      · omega
      · omega
      · exact .ok (by simp only [List.length_cons]; omega)
  | operator op =>
      match operands, operands', hlength with
      | [], [], _ => exact .error _
      | [_], [_], _ => exact .error _
      | y :: x :: below, y' :: x' :: below', hlength =>
          have hop := Operator.apply_sameFold hfrom.1 x y x' y'
          simp only [pushToken]
          generalize op.apply x y = r at hop ⊢
          generalize op.apply x' y' = r' at hop ⊢
          cases hop with
          | ok _ => exact .ok (by simpa using hlength)
          | error e => exact .error e
          | left r => exact .left _
          | right r => exact .right _

theorem foldlM_pushToken_sameFold {s : List Lexeme} {tokens tokens' : List Token}
    (h : List.Forall₂ Token.SameShape tokens tokens') (hfrom : ∀ t ∈ tokens, t.ComesFrom s)
    {operands operands' : List Float} (hlength : operands.length = operands'.length) :
    SameFold (fun xs ys => xs.length = ys.length) (tokens.foldlM pushToken operands)
      (tokens'.foldlM pushToken operands') := by
  induction h generalizing operands operands' with
  | nil => exact .ok hlength
  | cons ht _ ih =>
      rw [List.foldlM_cons, List.foldlM_cons]
      have hpush := pushToken_sameFold ht (hfrom _ (by simp)) hlength
      generalize pushToken operands _ = r at hpush ⊢
      generalize pushToken operands' _ = r' at hpush ⊢
      cases hpush with
      | ok hlength => exact ih (fun t ht => hfrom t (by simp [ht])) hlength
      | error e => exact .error e
      | left r => exact .left _
      | right r => exact .right _

theorem foldTokens_sameFold {s : List Lexeme} {tokens tokens' : List Token}
    (h : List.Forall₂ Token.SameShape tokens tokens') (hfrom : ∀ t ∈ tokens, t.ComesFrom s) :
    SameFold (fun _ _ => True) (foldTokens tokens) (foldTokens tokens') := by
  unfold foldTokens
  have hfold := @foldlM_pushToken_sameFold _ _ _ h hfrom [] [] rfl
  generalize tokens.foldlM pushToken [] = r at hfold ⊢
  generalize tokens'.foldlM pushToken [] = r' at hfold ⊢
  cases hfold with
  | @ok xs ys hlength =>
      match xs, ys, hlength with
      | [], [], _ => exact .error _
      | [_], [_], _ => exact .ok trivial
      | _ :: _ :: xs, _ :: _ :: ys, hlength =>
          -- the error names how many operands are left
          show SameFold _ (Except.error _) (Except.error _)
          rw [hlength]
          exact .error _
  | error e => exact .error e
  | left r => exact .left _
  | right r => exact .right _

theorem pushToken_error {s : List Lexeme} {t : Token} (hfrom : t.ComesFrom s)
    {operands : List Float} {e : Error} (h : pushToken operands t = .error e) :
    e.IsArity ∨ e = .divisionByZero ∧ Divides [t] := by
  cases t with
  | value x => cases h
  | function f =>
      cases operands with
      | nil =>
          cases h
          exact .inl trivial
      | cons x below => cases h
  | operator op =>
      match operands with
      | [] | [_] =>
          cases h
          exact .inl trivial
      | y :: x :: below =>
          simp only [pushToken] at h
          cases hop : op.apply x y with
          | ok z =>
              rw [hop] at h
              cases h
          | error e' =>
              rw [hop] at h
              cases h
              refine .inr ⟨Operator.apply_eq_error hfrom.1 hop, ?_⟩
              cases op
              case div => exact .inl (List.mem_singleton.2 rfl)
              case mod => exact .inr (List.mem_singleton.2 rfl)
              case leftBracket | rightBracket => exact absurd hfrom.1 (by decide)
              all_goals cases hop

/-- Once there is an operand there is one to the end. -/
theorem pushToken_ne_nil {t : Token} {operands xs : List Float}
    (h : pushToken operands t = .ok xs) : xs ≠ [] := by
  rintro rfl
  cases t with
  | value x => cases h
  | function f => cases operands <;> cases h
  | operator op =>
      match operands with
      | [] | [_] => cases h
      | y :: x :: below =>
          simp only [pushToken] at h
          cases hop : op.apply x y <;> rw [hop] at h <;> cases h

theorem foldlM_pushToken_error {s : List Lexeme} {tokens : List Token}
    (hfrom : ∀ t ∈ tokens, t.ComesFrom s) {operands : List Float} {e : Error}
    (h : tokens.foldlM pushToken operands = .error e) :
    e.IsArity ∨ e = .divisionByZero ∧ Divides tokens := by
  induction tokens generalizing operands with
  | nil => cases h
  | cons t tokens ih =>
      rw [List.foldlM_cons] at h
      cases hpush : pushToken operands t with
      | error e' =>
          rw [hpush] at h
          cases h
          refine (pushToken_error (hfrom t (by simp)) hpush).imp_right fun ⟨he, hd⟩ => ⟨he, ?_⟩
          exact hd.imp (fun h => by simp [List.mem_singleton.1 h])
            fun h => by simp [List.mem_singleton.1 h]
      | ok xs =>
          rw [hpush] at h
          refine (ih (fun t ht => hfrom t (by simp [ht])) h).imp_right fun ⟨he, hd⟩ => ⟨he, ?_⟩
          exact hd.imp (List.mem_cons_of_mem _) (List.mem_cons_of_mem _)

theorem foldlM_pushToken_ne_nil {tokens : List Token} {operands xs : List Float}
    (hne : operands ≠ []) (h : tokens.foldlM pushToken operands = .ok xs) : xs ≠ [] := by
  induction tokens generalizing operands with
  | nil =>
      cases h
      exact hne
  | cons t tokens ih =>
      rw [List.foldlM_cons] at h
      cases hpush : pushToken operands t with
      | error e =>
          rw [hpush] at h
          cases h
      | ok ys =>
          rw [hpush] at h
          exact ih (pushToken_ne_nil hpush) h

/-- What can be wrong with tokens that come from a text, when there are any. -/
theorem foldTokens_error {s : List Lexeme} {tokens : List Token} (hne : tokens ≠ [])
    (hfrom : ∀ t ∈ tokens, t.ComesFrom s) {e : Error} (h : foldTokens tokens = .error e) :
    e.IsArity ∨ e = .divisionByZero ∧ Divides tokens := by
  unfold foldTokens at h
  cases hfold : tokens.foldlM pushToken [] with
  | error e' =>
      rw [hfold] at h
      cases h
      exact foldlM_pushToken_error hfrom hfold
  | ok xs =>
      rw [hfold] at h
      match xs with
      | [] =>
          -- the first token leaves an operand
          obtain ⟨t, more, rfl⟩ := List.exists_cons_of_ne_nil hne
          rw [List.foldlM_cons] at hfold
          cases hpush : pushToken [] t with
          | error e =>
              rw [hpush] at hfold
              cases hfold
          | ok ys =>
              rw [hpush] at hfold
              exact absurd rfl (foldlM_pushToken_ne_nil (pushToken_ne_nil hpush) hfold)
      | [_] => cases h
      | _ :: _ :: _ =>
          cases h
          exact .inl trivial

/-! ## The main statement -/

theorem Divides.mem_text {names : Names} {text : List Char} {tokens : List Token}
    (h : Divides tokens) (hpost : toPostfix names text = .ok tokens) : '/' ∈ text ∨ '%' ∈ text := by
  have hmem {op : Operator} (h : .operator op ∈ tokens) : ∀ c ∈ op.lexeme.text, c ∈ text :=
    mem_text_of_lexeme_mem (toPostfix_comesFrom hpost _ h : Token.ComesFrom _ (.operator op)).2
  exact h.imp (fun h => hmem h '/' (by decide)) fun h => hmem h '%' (by decide)

/-- A fold that divides by zero, over tokens of the same shape as others. -/
theorem foldTokens_of_divisionByZero {s : List Lexeme} {tokens tokens' : List Token}
    (hshape : List.Forall₂ Token.SameShape tokens tokens') (hfrom : ∀ t ∈ tokens, t.ComesFrom s)
    (hfrom' : ∀ t ∈ tokens', t.ComesFrom s)
    (h : foldTokens tokens = .error .divisionByZero) :
    Divides tokens ∧ ∀ e, foldTokens tokens' = .error e → e.IsArity ∨ e = .divisionByZero := by
  have hne : tokens ≠ [] := by
    rintro rfl
    cases h
  have hne' : tokens' ≠ [] := by
    rintro rfl
    cases hshape
    exact hne rfl
  constructor
  · exact ((foldTokens_error hne hfrom h).resolve_left id).2
  · intro e he
    exact (foldTokens_error hne' hfrom' he).imp_right And.left

theorem Token.SameShape.symm {t t' : Token} (h : t.SameShape t') : t'.SameShape t := by
  cases h with
  | value x y => exact .value y x
  | operator op => exact .operator op
  | function f => exact .function f

/-- The outcomes of one expression under two assignments of the same names: both have a value, both
fail for the same reason, or one divides by zero. In the last case there is a `/` or a `%` in the
text, and if the other fails too, it divides by zero as well or has the wrong number of operands. -/
theorem evaluate_sameShape {names names' : Names} (hn : names.SameDomain names')
    (text : List Char) :
    SameResult (fun _ _ => True) (evaluate names text) (evaluate names' text) ∨
      ('/' ∈ text ∨ '%' ∈ text) ∧
      ((evaluate names text = .error .divisionByZero ∧
          ∀ e, evaluate names' text = .error e → e.IsArity ∨ e = .divisionByZero) ∨
        (evaluate names' text = .error .divisionByZero ∧
          ∀ e, evaluate names text = .error e → e.IsArity ∨ e = .divisionByZero)) := by
  have hpost := toPostfix_sameShape hn text
  unfold evaluate
  cases h : toPostfix names text <;> cases h' : toPostfix names' text <;> rw [h, h'] at hpost
  -- a conversion that fails does so for the same reason under both
  · cases hpost
    exact .inl (.error _)
  · cases hpost
  · cases hpost
  rename_i tokens tokens'
  have hshape : List.Forall₂ Token.SameShape tokens tokens' := by
    cases hpost with
    | ok h => exact h
  have hfrom := toPostfix_comesFrom h
  have hfrom' := toPostfix_comesFrom h'
  have hfold := foldTokens_sameFold hshape hfrom
  show SameResult _ (foldTokens tokens) (foldTokens tokens') ∨ _ ∧
    (foldTokens tokens = _ ∧ (∀ e, foldTokens tokens' = _ → _) ∨
      foldTokens tokens' = _ ∧ ∀ e, foldTokens tokens = _ → _)
  have hleft := foldTokens_of_divisionByZero hshape hfrom hfrom'
  have hright := foldTokens_of_divisionByZero
    (List.Forall₂.flip (hshape.imp fun _ _ => Token.SameShape.symm)) hfrom' hfrom
  generalize foldTokens tokens = r at hfold hleft hright ⊢
  generalize foldTokens tokens' = r' at hfold hleft hright ⊢
  cases hfold with
  | ok _ => exact .inl (.ok trivial)
  | error e => exact .inl (.error e)
  | left r =>
      obtain ⟨hd, he⟩ := hleft rfl
      exact .inr ⟨hd.mem_text h, .inl ⟨rfl, he⟩⟩
  | right r =>
      obtain ⟨hd, he⟩ := hright rfl
      exact .inr ⟨hd.mem_text h', .inr ⟨rfl, he⟩⟩

end NumScript.Expr
