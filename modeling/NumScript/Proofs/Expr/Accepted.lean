import Mathlib.Data.List.Chain
import NumScript.Proofs.Expr.Arity

set_option autoImplicit false

/-! # Texts that have a value

A sentence has a value unless it divides by zero or holds an unknown name. The converse fails: an
operator or a function may come after its operands, as in `1 2 +`, and empty brackets may stand
beside an operand. All such texts have two operands side by side, without an operator between them,
and this is the only way: where operands are kept apart (`KeepsApart`), a text that has a value is a
sentence (`sentence_iff_of_evaluate`).

The argument is a count. A sentence has one value more than operators, and so has every text that
can be folded. Reading from the left, an operand that is missing, before a closing bracket or at the
end, leaves the values one behind for good, since two operands side by side are the only way to
catch up.
-/

namespace NumScript.Expr

/-! ## Operands side by side

The condition on a text is about neighbours only. It can be read off the lexemes from left to right,
without a parse. -/

namespace Lexeme

/-- Whether an operand may end with the lexeme. -/
def endsOperand : Lexeme → Bool
  | number _ | closing => true
  | word text => (Function.ofName? (String.ofList text)).isNone
  | opening | symbol _ => false

/-- Whether an operand, or a function before one, starts with the lexeme. -/
def startsOperand : Lexeme → Bool
  | number _ | word _ | opening => true
  | closing | symbol _ => false

/-- The second of two lexemes starts an operand right where the first one ends another. -/
def joins (l l' : Lexeme) : Bool :=
  l.endsOperand && l'.startsOperand

end Lexeme

/-- No operand stands directly behind another one. -/
def KeepsApart (s : List Lexeme) : Prop :=
  s.IsChain fun l l' => l.joins l' = false

instance (s : List Lexeme) : Decidable (KeepsApart s) :=
  inferInstanceAs (Decidable (s.IsChain _))

theorem keepsApart_append {s s' : List Lexeme} (h : KeepsApart s) (h' : KeepsApart s')
    (hmid : (∀ l ∈ s.getLast?, l.endsOperand = false) ∨
      ∀ l ∈ s'.head?, l.startsOperand = false) : KeepsApart (s ++ s') := by
  refine List.isChain_append.2 ⟨h, h', fun l hl l' hl' => ?_⟩
  rcases hmid with hmid | hmid
  · rw [Lexeme.joins, hmid l hl, Bool.false_and]
  · rw [Lexeme.joins, hmid l' hl', Bool.and_false]

theorem keepsApart_cons {l : Lexeme} {s : List Lexeme} (hl : l.endsOperand = false)
    (h : KeepsApart s) : KeepsApart (l :: s) := by
  refine keepsApart_append (s := [l]) (.singleton l) h (.inl fun l' hl' => ?_)
  rwa [← Option.some.inj hl']

/-- A sentence has an operator between any two operands. -/
theorem Phrase.keepsApart {part : Part} {s : List Lexeme} (h : Phrase part s) : KeepsApart s := by
  induction h with
  | number _ => exact .singleton _
  | name _ => exact .singleton _
  | group _ ih =>
      refine keepsApart_append (keepsApart_cons rfl ih) (.singleton _) (.inr ?_)
      intro l hl
      rw [← Option.some.inj hl]
      rfl
  | atom _ ih => exact ih
  | apply f _ ih =>
      refine keepsApart_cons ?_ ih
      rw [Function.lexeme, Lexeme.endsOperand, String.ofList_toList, Function.ofName?_name]
      rfl
  | minus _ ih => exact keepsApart_cons rfl ih
  | factor _ ih => exact ih
  | binary op _ _ _ ihs ihs' =>
      refine keepsApart_append ihs (keepsApart_cons rfl ihs') (.inr ?_)
      intro l hl
      rw [← Option.some.inj hl]
      rfl

/-! ## The tokens of a conversion

What was sent on and what waits are counted together, so that sending on changes nothing. Only a
closing bracket takes a token away, the opening one that waited for it. -/

namespace Conversion

def tokens (c : Conversion) : List Token :=
  c.output ++ c.waiting

theorem tokens_value (c : Conversion) (x : Float) : (c.value x).tokens = .value x :: c.tokens :=
  rfl

theorem tokens_wait (c : Conversion) (t : Token) : (c.wait t).tokens.Perm (t :: c.tokens) :=
  List.perm_middle

theorem tokens_operator (c : Conversion) (op : Operator) :
    (c.operator op).tokens.Perm (.operator op :: c.tokens) := by
  refine List.perm_middle.trans (List.Perm.cons _ ?_)
  -- what was sent on stood at the front of what waited
  have hsplit := List.takeWhile_append_dropWhile (p := fun t : Token => op.priority ≤ t.priority)
    (l := c.waiting)
  conv_rhs => rw [tokens, ← hsplit]
  rw [← List.append_assoc]
  exact ((List.reverse_perm _).append_right _ |>.trans List.perm_append_comm).append_right _

theorem tokens_close {c c' : Conversion} (h : c.close = .ok c') :
    c.tokens.Perm (.operator .leftBracket :: c'.tokens) := by
  unfold close at h
  have hsplit := List.takeWhile_append_dropWhile (p := fun t : Token => !t.isLeftBracket)
    (l := c.waiting)
  have hhead := List.head?_dropWhile_not (fun t : Token => !t.isLeftBracket) c.waiting
  dsimp only at h
  generalize c.waiting.dropWhile (fun t : Token => !t.isLeftBracket) = ahead at h hsplit hhead
  cases ahead with
  | nil => cases h
  | cons t below =>
      obtain rfl : t = .operator .leftBracket := by
        simpa [Token.isLeftBracket] using hhead
      obtain rfl := Except.ok.inj h
      generalize c.waiting.takeWhile (fun t : Token => !t.isLeftBracket) = inside at hsplit ⊢
      rw [tokens, ← hsplit, ← List.append_assoc]
      refine List.perm_middle.trans (List.Perm.cons _ ?_)
      exact ((List.reverse_perm _).append_right _ |>.trans List.perm_append_comm).symm.append_right _

theorem finish_perm (c : Conversion) : c.finish.Perm c.tokens :=
  (List.reverse_perm _).append_right _

end Conversion

/-! ## Values and operators

A fold changes the number of its operands by the weight of each token, whatever the operands are. At
the end there is one, so the weights add up to one. -/

/-- What a token adds to the operands of a fold. -/
def Token.weight : Token → Int
  | .value _ => 1
  | .operator op => if op.isBracket then 0 else -1
  | .function _ => 0

def weight : List Token → Int
  | [] => 0
  | t :: tokens => t.weight + weight tokens

@[simp] theorem weight_nil : weight [] = 0 :=
  rfl

@[simp] theorem weight_cons (t : Token) (tokens : List Token) :
    weight (t :: tokens) = t.weight + weight tokens :=
  rfl

theorem weight_eq_of_perm {tokens tokens' : List Token} (h : tokens.Perm tokens') :
    weight tokens = weight tokens' := by
  induction h with
  | nil => rfl
  | cons t _ ih => rw [weight_cons, weight_cons, ih]
  | swap t t' tokens => exact Int.add_left_comm _ _ _
  | trans _ _ ih ih' => exact ih.trans ih'

theorem length_pushToken {operands xs : List Float} {t : Token}
    (h : pushToken operands t = .ok xs) : (xs.length : Int) = operands.length + t.weight := by
  cases t with
  | value x =>
      cases h
      rw [List.length_cons, Token.weight]
      omega
  | function f =>
      cases operands with
      | nil => cases h
      | cons x below =>
          cases h
          rw [List.length_cons, List.length_cons, Token.weight]
          omega
  | operator op =>
      match operands with
      | [] | [_] => cases h
      | y :: x :: below =>
          simp only [pushToken] at h
          cases hop : op.apply x y with
          | error e =>
              rw [hop] at h
              cases h
          | ok z =>
              rw [hop] at h
              cases h
              have hbracket : op.isBracket = false := by
                cases op <;> first | rfl | cases hop
              rw [Token.weight, hbracket]
              simp only [List.length_cons, Bool.false_eq_true, if_false]
              omega

theorem length_foldlM_pushToken {tokens : List Token} {operands xs : List Float}
    (h : tokens.foldlM pushToken operands = .ok xs) :
    (xs.length : Int) = operands.length + weight tokens := by
  induction tokens generalizing operands with
  | nil =>
      cases h
      rw [weight_nil, Int.add_zero]
  | cons t tokens ih =>
      rw [List.foldlM_cons] at h
      cases ht : pushToken operands t with
      | error e =>
          rw [ht] at h
          cases h
      | ok ys =>
          rw [ht] at h
          have hys := length_pushToken ht
          have hxs := ih h
          rw [weight_cons]
          omega

/-- Tokens that can be folded have one value more than operators. -/
theorem weight_eq_one_of_foldTokens {tokens : List Token} {x : Float}
    (h : foldTokens tokens = .ok x) : weight tokens = 1 := by
  unfold foldTokens at h
  cases hfold : tokens.foldlM pushToken [] with
  | error e =>
      rw [hfold] at h
      cases h
  | ok xs =>
      rw [hfold] at h
      have hlength := length_foldlM_pushToken hfold
      match xs with
      | [] => cases h
      | [_] => simpa using hlength.symm
      | _ :: _ :: _ => cases h

/-! ## Beginnings of sentences

What the first lexemes of a text are if it is going to be a sentence: rows of factors, one inside
the other for each bracket that is open, and in the innermost an operand is due or not. One lemma
for each sort of lexeme says which beginnings it can extend. -/

/-- The lexemes that make a sentence together with any factor after them, if one is due, or as they
are. -/
def Unbroken (due : Bool) (s : List Lexeme) : Prop :=
  if due then ∀ more, Phrase .factor more → Sentence (s ++ more) else Sentence s

/-- `Begins depth due s`: a sentence can begin with `s`, and then `depth` brackets are open and an
operand is due or not. -/
inductive Begins : Nat → Bool → List Lexeme → Prop where
  | unbroken {due : Bool} {s : List Lexeme} : Unbroken due s → Begins 0 due s
  | inside {depth : Nat} {due : Bool} {outer s : List Lexeme} : Begins depth true outer →
      Unbroken due s → Begins (depth + 1) due (outer ++ .opening :: s)

theorem unbroken_nil : Unbroken true [] :=
  fun _ => .factor

theorem Begins.append {depth : Nat} {due due' : Bool} {s more : List Lexeme}
    (h : Begins depth due s) (hmore : ∀ s, Unbroken due s → Unbroken due' (s ++ more)) :
    Begins depth due' (s ++ more) := by
  cases h with
  | unbroken hs => exact .unbroken (hmore s hs)
  | @inside _ _ outer s houter hs =>
      rw [List.append_assoc, List.cons_append]
      exact .inside houter (hmore s hs)

theorem Begins.atom {depth : Nat} {s more : List Lexeme} (h : Begins depth true s)
    (hmore : Phrase .atom more) : Begins depth false (s ++ more) :=
  h.append fun _ hs => hs more (.atom hmore)

theorem Begins.function {depth : Nat} {s : List Lexeme} (h : Begins depth true s) (f : Function) :
    Begins depth true (s ++ [f.lexeme]) := by
  refine h.append fun s hs more hmore => ?_
  rw [List.append_assoc]
  exact hs _ (.apply f hmore)

theorem Begins.minus {depth : Nat} {s : List Lexeme} (h : Begins depth true s) :
    Begins depth true (s ++ [.symbol ['-']]) := by
  refine h.append fun s hs more hmore => ?_
  rw [List.append_assoc]
  exact hs _ (.minus hmore)

theorem Begins.operator {depth : Nat} {s : List Lexeme} (h : Begins depth false s) {op : Operator}
    (hop : op.isBracket = false) : Begins depth true (s ++ [op.lexeme]) := by
  refine h.append fun s hs more hmore => ?_
  rw [List.append_assoc]
  exact .binary op hop hs hmore

theorem Begins.opening {depth : Nat} {s : List Lexeme} (h : Begins depth true s) :
    Begins (depth + 1) true (s ++ [.opening]) :=
  .inside h unbroken_nil

/-- A closing bracket makes one operand of all that was inside. -/
theorem Begins.closing {depth : Nat} {s : List Lexeme} (h : Begins (depth + 1) false s) :
    Begins depth false (s ++ [.closing]) := by
  cases h with
  | @inside _ _ outer s houter hs =>
      rw [List.append_assoc]
      exact houter.atom (.group hs)

theorem Begins.sentence {s : List Lexeme} (h : Begins 0 false s) : Sentence s := by
  cases h with
  | unbroken hs => exact hs

/-! ## Reading from the left

The invariant compares two numbers, the weight of the tokens so far and the quota they should have.
Each lexeme changes both by the same, except for a closing bracket that comes where an operand is
due. From then on the weight stays behind the quota, and a text that ends like this cannot be
folded. So where the two are equal, every lexeme so far was one that a sentence can have there. -/

namespace Conversion

/-- How many more values than operators there are if no operand is missing so far. -/
def quota (c : Conversion) : Int :=
  if c.operandDue then 0 else 1

/-- `Reading s c`: after the lexemes `s`, whose operands are kept apart, the conversion `c` has no
more values than it should, and if it has as many the lexemes begin a sentence. -/
structure Reading (s : List Lexeme) (c : Conversion) : Prop where
  operandDue : c.operandDue = !s.getLast?.any Lexeme.endsOperand
  weight_le : weight c.tokens ≤ c.quota
  begins : weight c.tokens = c.quota → Begins c.depth c.operandDue s

end Conversion

section

variable {names : Names} {s : List Lexeme} {c c' : Conversion} {l : Lexeme}

/-- After a lexeme an operand is due unless one may end there. -/
theorem operandDue_of_accept (h : c.accept names l = .ok c') : c'.operandDue = !l.endsOperand := by
  cases l with
  | number text =>
      simp only [Conversion.accept] at h
      split at h <;> cases h
      rfl
  | word text =>
      simp only [Conversion.accept] at h
      split at h
      · rename_i f hf
        cases h
        rw [Lexeme.endsOperand, hf]
        rfl
      · rename_i hf
        split at h <;> cases h
        rw [Lexeme.endsOperand, hf]
        rfl
  | opening =>
      cases h
      rfl
  | closing =>
      change c.close = .ok c' at h
      unfold Conversion.close at h
      dsimp only at h
      split at h <;> cases h
      rfl
  | symbol text =>
      simp only [Conversion.accept] at h
      split at h
      · cases h
        rfl
      split at h
      · cases h
      split at h <;> cases h
      rfl

/-- Where an operand is due nothing is joined to the one before, and the other way round. -/
theorem Conversion.Reading.operandDue_of_starts (h : c.Reading s) (hapart : KeepsApart (s ++ [l]))
    (hl : l.startsOperand = true) : c.operandDue = true := by
  rw [h.operandDue, Bool.not_eq_true', Option.any_eq_false]
  intro last hlast
  have hjoins := (List.isChain_append.1 hapart).2.2 last hlast l rfl
  rwa [Lexeme.joins, hl, Bool.and_true] at hjoins

theorem Conversion.quota_of_due (h : c.operandDue = true) : c.quota = 0 :=
  if_pos h

theorem Conversion.quota_of_not_due (h : c.operandDue = false) : c.quota = 1 :=
  if_neg (by rw [h]; exact Bool.false_ne_true)

/-- One more lexeme, for which the weight and the quota grow by the same. -/
theorem Conversion.Reading.concat (h : c.Reading s) (hdue : c'.operandDue = !l.endsOperand)
    (hweight : weight c'.tokens - c'.quota = weight c.tokens - c.quota)
    (hbegins : Begins c.depth c.operandDue s → Begins c'.depth c'.operandDue (s ++ [l])) :
    c'.Reading (s ++ [l]) := by
  have hle := h.weight_le
  refine ⟨?_, by omega, fun heq => hbegins (h.begins (by omega))⟩
  rw [hdue, List.getLast?_concat, Option.any_some]

theorem Conversion.Reading.value (h : c.Reading s) (hwas : c.operandDue = true) (x : Float)
    (hends : l.endsOperand = true) (hl : Phrase .atom [l]) :
    (c.value x).Reading (s ++ [l]) := by
  refine h.concat (by rw [hends]; rfl) ?_ fun hb => ?_
  · rw [Conversion.tokens_value, weight_cons, Token.weight, quota_of_due hwas, quota_of_not_due rfl]
    omega
  · rw [hwas] at hb
    exact hb.atom hl

/-- A function, a minus sign or an opening bracket waits for the operand that is due. -/
theorem Conversion.Reading.wait (h : c.Reading s) (hwas : c.operandDue = true) {t : Token}
    (ht : t.weight = 0) (hends : l.endsOperand = false)
    (hbegins : Begins c.depth true s → Begins (c.wait t).depth true (s ++ [l])) :
    (c.wait t).Reading (s ++ [l]) := by
  refine h.concat (by rw [hends]; rfl) ?_ fun hb => ?_
  · rw [weight_eq_of_perm (c.tokens_wait t), weight_cons, ht, quota_of_due hwas, quota_of_due rfl]
    omega
  · rw [hwas] at hb
    exact hbegins hb

theorem Conversion.Reading.operator (h : c.Reading s) (hwas : c.operandDue = false) {op : Operator}
    (hop : op.isBracket = false) : (c.operator op).Reading (s ++ [op.lexeme]) := by
  refine h.concat rfl ?_ fun hb => ?_
  · rw [weight_eq_of_perm (c.tokens_operator op), weight_cons, Token.weight, hop,
      quota_of_not_due hwas, quota_of_due rfl, if_neg Bool.false_ne_true]
    omega
  · rw [hwas] at hb
    rw [Conversion.depth_operator hop]
    exact hb.operator hop

/-- A closing bracket where an operand is due passes over a missing one, and the weight stays behind
the quota from then on. -/
theorem Conversion.Reading.close (h : c.Reading s) (hc : c.close = .ok c')
    (hdue : c'.operandDue = false) (hdepth : c'.depth + 1 = c.depth) :
    c'.Reading (s ++ [.closing]) := by
  have hweight : weight c'.tokens = weight c.tokens := by
    rw [weight_eq_of_perm (Conversion.tokens_close hc), weight_cons]
    exact (Int.zero_add _).symm
  have hquota := quota_of_not_due hdue
  cases hwas : c.operandDue with
  -- an operand is missing here: the quota grows, and the weight does not
  | true =>
      have hle := h.weight_le
      rw [quota_of_due hwas] at hle
      refine ⟨?_, by omega, fun heq => ?_⟩
      · rw [hdue, List.getLast?_concat]
        rfl
      · omega
  | false =>
      refine h.concat hdue ?_ fun hb => ?_
      · rw [hweight, hquota, quota_of_not_due hwas]
      · rw [hwas, ← hdepth] at hb
        rw [hdue]
        exact hb.closing

theorem Conversion.Reading.accept (h : c.Reading s) (hl : l.Proper) (hapart : KeepsApart (s ++ [l]))
    (hc : c.accept names l = .ok c')
    (hdepth : c'.depth + [l].count .closing = c.depth + [l].count .opening) :
    c'.Reading (s ++ [l]) := by
  have hdue := operandDue_of_accept hc
  have hwas := h.operandDue_of_starts hapart
  -- which lemma applies depends on whether an operand may start and end with the lexeme
  cases l with
  | number text =>
      simp only [Conversion.accept] at hc
      split at hc <;> cases hc
      rename_i x hx
      exact h.value (hwas rfl) x rfl (.number ⟨hl, by rw [hx]; rfl⟩)
  | word text =>
      simp only [Conversion.accept] at hc
      split at hc
      · rename_i f hf
        cases hc
        have hlex : Lexeme.word text = f.lexeme := by
          rw [Function.lexeme, ← Function.ofName?_eq_some_iff.1 hf, String.toList_ofList]
        refine h.wait (hwas rfl) rfl (by rw [Lexeme.endsOperand, hf]; rfl) fun hb => ?_
        rw [show (c.wait (.function f)).depth = c.depth from hdepth, hlex]
        exact hb.function f
      · rename_i hf
        split at hc <;> cases hc
        exact h.value (hwas rfl) _ (by rw [Lexeme.endsOperand, hf]; rfl) (.name ⟨hl, hf⟩)
  | opening =>
      cases hc
      refine h.wait (hwas rfl) rfl rfl fun hb => ?_
      rw [show (c.wait (.operator .leftBracket)).depth = c.depth + 1 from hdepth]
      exact hb.opening
  | closing => exact h.close hc hdue hdepth
  | symbol text =>
      simp only [Conversion.accept] at hc
      split at hc
      · -- a minus sign where an operand is due is a function
        rename_i hminus
        obtain ⟨rfl, hnow⟩ := hminus
        cases hc
        refine h.wait hnow rfl rfl fun hb => ?_
        rw [show (c.wait (.function .minus)).depth = c.depth from hdepth]
        exact hb.minus
      split at hc
      · cases hc
      rename_i op hop
      split at hc
      · cases hc
      rename_i hnot
      cases hc
      obtain ⟨hbracket, hlex⟩ := Operator.isBracket_eq_false_of_proper hl hop
      rw [hlex]
      exact h.operator (by simpa using hnot) hbracket

theorem Conversion.Reading.foldlM_accept {all ls : List Lexeme} (h : c.Reading s)
    (hfrom : c.ComesFrom all) (hmem : ∀ l ∈ ls, l ∈ all) (hproper : ∀ l ∈ ls, l.Proper)
    (hapart : KeepsApart (s ++ ls)) (hc : ls.foldlM (Conversion.accept names) c = .ok c') :
    c'.Reading (s ++ ls) := by
  induction ls generalizing s c with
  | nil =>
      cases hc
      rwa [List.append_nil]
  | cons l ls ih =>
      rw [List.foldlM_cons] at hc
      cases hl : c.accept names l with
      | error e =>
          rw [hl] at hc
          cases hc
      | ok c₁ =>
          rw [hl] at hc
          rw [List.append_cons] at hapart ⊢
          obtain ⟨hfrom₁, hdepth₁⟩ :=
            accept_comesFrom hfrom (hmem l (by simp)) (hproper l (by simp)) hl
          have h₁ := h.accept (hproper l (by simp)) (List.isChain_append.1 hapart).1 hl hdepth₁
          exact ih h₁ hfrom₁ (fun l' hl' => hmem l' (by simp [hl']))
            (fun l' hl' => hproper l' (by simp [hl'])) hapart hc

end

/-- A text whose operands are kept apart is a sentence if its tokens weigh one. -/
theorem sentence_of_toPostfix {names : Names} {text : List Char} {tokens : List Token}
    (h : toPostfix names text = .ok tokens) (hapart : KeepsApart (lexemes text))
    (hone : weight tokens = 1) : Sentence (lexemes text) := by
  have hfrom := toPostfix_comesFrom h
  unfold toPostfix at h
  cases hbrackets : checkBrackets text with
  | error e =>
      rw [hbrackets] at h
      cases h
  | ok _ =>
      rw [hbrackets] at h
      cases hc : (lexemes text).foldlM (Conversion.accept names) {} with
      | error e =>
          rw [hc] at h
          cases h
      | ok c =>
          rw [hc] at h
          obtain rfl : c.finish = tokens := Except.ok.inj h
          have hempty : Conversion.ComesFrom (lexemes text) {} :=
            ⟨fun _ h => absurd h List.not_mem_nil, fun _ h => absurd h List.not_mem_nil⟩
          have hstart : Conversion.Reading [] {} :=
            ⟨rfl, Int.le_refl _, fun _ => .unbroken unbroken_nil⟩
          have hread := hstart.foldlM_accept hempty (fun _ h => h) (spells_lexemes text).2 hapart hc
          -- nothing is due at the end, or the weight would be at most zero
          rw [weight_eq_of_perm c.finish_perm] at hone
          have hle := hread.weight_le
          have hdue : c.operandDue = false := by
            by_contra hdue
            rw [Bool.not_eq_false] at hdue
            rw [Conversion.quota_of_due hdue] at hle
            omega
          have hbegins := hread.begins (by rw [hone, Conversion.quota_of_not_due hdue])
          -- and no bracket waits, since none is among the tokens
          have hdepth : c.depth = 0 := by
            refine List.count_eq_zero.2 fun hmem => ?_
            have hbracket := (hfrom _ (List.mem_append_right _ hmem)).1
            exact absurd hbracket (by decide)
          rw [hdepth, hdue] at hbegins
          exact hbegins.sentence

/-! ## The main statement -/

/-- A text that has a value is a sentence exactly if its operands are kept apart. -/
theorem sentence_iff_of_evaluate {names : Names} {text : List Char} {x : Float}
    (h : evaluate names text = .ok x) : Sentence (lexemes text) ↔ KeepsApart (lexemes text) := by
  refine ⟨Phrase.keepsApart, fun hapart => ?_⟩
  unfold evaluate at h
  cases hpost : toPostfix names text with
  | error e =>
      rw [hpost] at h
      cases h
  | ok tokens =>
      rw [hpost] at h
      exact sentence_of_toPostfix hpost hapart (weight_eq_one_of_foldTokens h)

/-- The main statement at `-(x) * abs 2`, where `x` is three. -/
theorem sentence_iff_of_evaluate_abs :
    let names : Names := fun _ => some 3.0
    evaluate names "-(x) * abs 2".toList = .ok (-6.0) ∧ Sentence (lexemes "-(x) * abs 2".toList) := by
  intro names
  have hvalue : evaluate names "-(x) * abs 2".toList = .ok (-6.0) := by decide +kernel
  have hapart : KeepsApart (lexemes "-(x) * abs 2".toList) := by decide +kernel
  exact ⟨hvalue, (sentence_iff_of_evaluate hvalue).2 hapart⟩

/-- Texts that are no sentences can have a value: an operator after its operands, a function after
its operand, and empty brackets before an operand. -/
theorem exists_evaluate_not_sentence :
    let names : Names := fun _ => none
    (evaluate names "1 2 +".toList = .ok 3.0 ∧ ¬ Sentence (lexemes "1 2 +".toList)) ∧
      (evaluate names "4 sqrt".toList = .ok 2.0 ∧ ¬ Sentence (lexemes "4 sqrt".toList)) ∧
      (evaluate names "()1".toList = .ok 1.0 ∧ ¬ Sentence (lexemes "()1".toList)) := by
  intro names
  have hsum : ¬ KeepsApart (lexemes "1 2 +".toList) := by decide +kernel
  have hroot : ¬ KeepsApart (lexemes "4 sqrt".toList) := by decide +kernel
  have hempty : ¬ KeepsApart (lexemes "()1".toList) := by decide +kernel
  refine ⟨⟨?_, fun h => hsum h.keepsApart⟩, ⟨?_, fun h => hroot h.keepsApart⟩,
    ⟨?_, fun h => hempty h.keepsApart⟩⟩
  all_goals decide +kernel

end NumScript.Expr
