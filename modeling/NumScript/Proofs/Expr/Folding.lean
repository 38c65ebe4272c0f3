import NumScript.Proofs.Expr.Accepted

set_option autoImplicit false

/-! # How a fold ends

How a fold ends is decided by counting. The height before a token is the number of values less the
number of operators before it (`weight`). An operator takes two operands and a function one, and the
first token that finds the height too low is the one that a fold complains about (`lackAt?`). Where
no token lacks operands the tokens are the post-orders of some trees, one after the other (`trees`).
The fold then divides by zero if an operator of these trees does, it gives the value of the tree if
there is one only, and otherwise it complains about the number of them. The main statement is
`foldTokens_verdict`, for all tokens without brackets.

As long as no token lacks operands, the operands are the values of the trees, or an operator has
divided by zero (`foldlM_pushToken_cases`). This is an induction along the tokens, with one more
token in each step (`pushToken_cases`).
-/

namespace NumScript.Expr

/-! ## Counting

Everything in the verdict is decided by the tokens alone. The height looks at numbers of tokens, and
whether an operator divides by zero is a matter of the tree below it. -/

/-- How an error names the token, if it lacks operands where this many are there. -/
def Token.lack? (t : Token) (height : Int) : Option String :=
  match t with
  | .value _ => none
  | .operator op => if height < 2 then some op.symbol else none
  | .function f => if height < 1 then some f.name else none

/-- How an error names the token at a place, if it lacks operands there. -/
def lackAt? (tokens : List Token) (k : Nat) : Option String :=
  tokens[k]?.bind fun t => t.lack? (weight (tokens.take k))

def Token.isBracket : Token → Bool
  | .operator op => op.isBracket
  | _ => false

def Bracketless (tokens : List Token) : Prop :=
  ∀ t ∈ tokens, t.isBracket = false

instance (tokens : List Token) : Decidable (Bracketless tokens) :=
  inferInstanceAs (Decidable (∀ t ∈ tokens, t.isBracket = false))

def trees (tokens : List Token) : List Tree :=
  tokens.foldl rebuild []

def DividesByZero (tokens : List Token) : Prop :=
  ∃ t ∈ trees tokens, t.DividesByZero

/-- How the fold of tokens ends. -/
structure Verdict (tokens : List Token) : Prop where
  empty : foldTokens tokens = .error .noOperand ↔ tokens = []
  /-- The first token that lacks operands is named, unless a division by zero comes before it. -/
  lacking : ∀ k symbol, lackAt? tokens k = some symbol → (∀ j < k, lackAt? tokens j = none) →
    ¬ DividesByZero (tokens.take k) → foldTokens tokens = .error (.missingOperand symbol)
  /-- A division by zero ends the fold, unless a token lacks operands before it. -/
  dividing : ∀ k, (∀ j < k, lackAt? tokens j = none) → DividesByZero (tokens.take k) →
    foldTokens tokens = .error .divisionByZero
  single : (∀ k, lackAt? tokens k = none) → ¬ DividesByZero tokens → weight tokens = 1 →
    ∃ t x, trees tokens = [t] ∧ t.eval = .ok x ∧ foldTokens tokens = .ok x
  many : (∀ k, lackAt? tokens k = none) → ¬ DividesByZero tokens → tokens ≠ [] →
    weight tokens ≠ 1 → 2 ≤ weight tokens ∧
      foldTokens tokens = .error (.missingOperator (weight tokens).toNat)

section

variable {tokens : List Token} {t : Token}

theorem lackAt?_of_length_le {k : Nat} (h : tokens.length ≤ k) : lackAt? tokens k = none := by
  rw [lackAt?, List.getElem?_eq_none h]
  rfl

/-- Whether a token lacks operands depends on those before it only. -/
theorem lackAt?_append {k : Nat} (h : k < tokens.length) (more : List Token) :
    lackAt? (tokens ++ more) k = lackAt? tokens k := by
  rw [lackAt?, lackAt?, List.getElem?_append_left h, List.take_append_of_le_length (Nat.le_of_lt h)]

theorem lackAt?_length (tokens : List Token) (t : Token) (more : List Token) :
    lackAt? (tokens ++ t :: more) tokens.length = t.lack? (weight tokens) := by
  rw [lackAt?, List.getElem?_append_right (Nat.le_refl _), Nat.sub_self, List.take_left]
  rfl

theorem lackAt?_take {k : Nat} (h : ∀ j < k, lackAt? tokens j = none) (j : Nat) :
    lackAt? (tokens.take k) j = none := by
  by_cases hj : j < (tokens.take k).length
  · have happend := lackAt?_append hj (tokens.drop k)
    rw [List.take_append_drop] at happend
    rw [← happend]
    exact h j (Nat.lt_of_lt_of_le hj (List.length_take_le _ _))
  · exact lackAt?_of_length_le (Nat.le_of_not_lt hj)

/-- The tokens around one that lacks operands. -/
theorem exists_of_lackAt? {k : Nat} {symbol : String} (h : lackAt? tokens k = some symbol) :
    ∃ t, tokens = tokens.take k ++ t :: tokens.drop (k + 1) ∧
      t.lack? (weight (tokens.take k)) = some symbol := by
  obtain ⟨t, ht, hlack⟩ := Option.bind_eq_some_iff.1 h
  obtain ⟨hk, rfl⟩ := List.getElem?_eq_some_iff.1 ht
  exact ⟨tokens[k], by rw [← List.drop_eq_getElem_cons hk, List.take_append_drop], hlack⟩

theorem Bracketless.take (h : Bracketless tokens) (k : Nat) : Bracketless (tokens.take k) :=
  fun t ht => h t (List.mem_of_mem_take ht)

end

/-! ## One more token

The step of the induction. A token that finds enough operands takes as many trees as operands, and
if the operands are the values of these trees, then so they are afterwards. -/

/-- The operands are the values of the trees. -/
def HaveValues (trees : List Tree) (operands : List Float) : Prop :=
  List.Forall₂ (fun t x => t.eval = .ok x ∧ ¬ t.DividesByZero) trees operands

theorem HaveValues.not_dividesByZero {trees : List Tree} {operands : List Float}
    (h : HaveValues trees operands) : ¬ ∃ t ∈ trees, t.DividesByZero := by
  induction h with
  | nil => exact fun ⟨_, hmem, _⟩ => List.not_mem_nil hmem
  | cons ht _ ih =>
      rintro ⟨u, hu, hdivides⟩
      rcases List.mem_cons.1 hu with rfl | hu
      · exact ht.2 hdivides
      · exact ih ⟨u, hu, hdivides⟩

/-- What divides by zero stays a part of some tree. -/
theorem exists_dividesByZero_rebuild {trees : List Tree} (h : ∃ u ∈ trees, u.DividesByZero)
    (t : Token) : ∃ u ∈ rebuild trees t, u.DividesByZero := by
  obtain ⟨u, hu, hdivides⟩ := h
  cases t with
  | value x => exact ⟨u, .tail _ hu, hdivides⟩
  | function f =>
      match trees, hu with
      | v :: below, hu =>
          rcases List.mem_cons.1 hu with rfl | hu
          · exact ⟨.apply f u, .head _, hdivides⟩
          · exact ⟨u, .tail _ hu, hdivides⟩
  | operator op =>
      match trees, hu with
      | [v], hu => exact ⟨u, hu, hdivides⟩
      | r :: l :: below, hu =>
          rcases List.mem_cons.1 hu with rfl | hu
          · exact ⟨.binary op l u, .head _, .inr (.inl hdivides)⟩
          rcases List.mem_cons.1 hu with rfl | hu
          · exact ⟨.binary op u r, .head _, .inl hdivides⟩
          · exact ⟨u, .tail _ hu, hdivides⟩

section

variable {t : Token} {forest : List Tree} {operands : List Float}

theorem pushToken_of_lack? {symbol : String} (h : t.lack? operands.length = some symbol) :
    pushToken operands t = .error (.missingOperand symbol) := by
  cases t with
  | value x => cases h
  | function f =>
      match operands with
      | [] =>
          cases h
          rfl
      | x :: below =>
          rw [Token.lack?, if_neg (by simp only [List.length_cons]; omega)] at h
          cases h
  | operator op =>
      match operands with
      | [] | [_] =>
          cases h
          rfl
      | y :: x :: below =>
          rw [Token.lack?, if_neg (by simp only [List.length_cons]; omega)] at h
          cases h

/-- An operator on two trees that have values gives a value, unless it divides by zero. -/
theorem Tree.binary_cases {op : Operator} {l r : Tree} {x y : Float} (hop : op.isBracket = false)
    (hl : l.eval = .ok x ∧ ¬ l.DividesByZero) (hr : r.eval = .ok y ∧ ¬ r.DividesByZero) :
    (∃ z, op.apply x y = .ok z ∧ (Tree.binary op l r).eval = .ok z ∧
        ¬ (Tree.binary op l r).DividesByZero) ∨
      op.apply x y = .error .divisionByZero ∧ (Tree.binary op l r).DividesByZero := by
  cases happly : op.apply x y with
  | ok z =>
      refine .inl ⟨z, rfl, ?_, ?_⟩
      · rw [Tree.eval, hl.1, hr.1]
        exact happly
      · rintro (hdivides | hdivides | ⟨x', y', hx', hy', hdivides⟩)
        · exact hl.2 hdivides
        · exact hr.2 hdivides
        · obtain rfl := Except.ok.inj (hl.1.symm.trans hx')
          obtain rfl := Except.ok.inj (hr.1.symm.trans hy')
          cases happly.symm.trans hdivides
  | error e =>
      obtain rfl := Operator.apply_eq_error hop happly
      exact .inr ⟨rfl, .inr (.inr ⟨x, y, hl.1, hr.1, happly⟩)⟩

/-- A token that lacks no operands adds to the trees, and to the operands as well unless it divides
by zero. -/
theorem pushToken_cases (hbracket : t.isBracket = false)
    (hlack : t.lack? operands.length = none) (h : HaveValues forest operands) :
    (∃ operands', pushToken operands t = .ok operands' ∧ HaveValues (rebuild forest t) operands') ∨
      pushToken operands t = .error .divisionByZero ∧
        ∃ u ∈ rebuild forest t, u.DividesByZero := by
  cases t with
  | value x => exact .inl ⟨_, rfl, .cons ⟨rfl, id⟩ h⟩
  | function f =>
      cases h with
      | nil => cases hlack
      | @cons u x _ _ hu hrest =>
          have heval : (Tree.apply f u).eval = .ok (f.apply x) := by
            rw [Tree.eval, hu.1]
            rfl
          exact .inl ⟨_, rfl, .cons ⟨heval, hu.2⟩ hrest⟩
  | operator op =>
      cases h with
      | nil => cases hlack
      | @cons r y _ _ hr hbelow =>
          cases hbelow with
          | nil => cases hlack
          | @cons l x _ _ hl hrest =>
              simp only [pushToken, rebuild]
              rcases Tree.binary_cases hbracket hl hr with ⟨z, happly, hz⟩ | ⟨happly, hdivides⟩
              · rw [happly]
                exact .inl ⟨_, rfl, .cons hz hrest⟩
              · rw [happly]
                exact .inr ⟨rfl, _, .head _, hdivides⟩

end

/-! ## All tokens

The verdict is put together from its cases: no tokens, a first token that lacks operands, a division
by zero before it, and a height at the end that is one or is not. -/

section

variable {tokens : List Token}

theorem foldlM_append_of_error {α β ε : Type} {f : β → α → Except ε β} {b : β} {l : List α} {e : ε}
    (h : l.foldlM f b = .error e) (l' : List α) : (l ++ l').foldlM f b = .error e := by
  rw [List.foldlM_append, h]
  rfl

/-- Where no token lacks operands, the operands are the values of the trees, or an operator divides
by zero. -/
theorem foldlM_pushToken_cases (hbracket : Bracketless tokens)
    (hlack : ∀ k, lackAt? tokens k = none) :
    (∃ operands, tokens.foldlM pushToken [] = .ok operands ∧ HaveValues (trees tokens) operands) ∨
      tokens.foldlM pushToken [] = .error .divisionByZero ∧ DividesByZero tokens := by
  -- one token at the end at a time, since whether it lacks operands is up to those before it
  induction tokens using List.reverseRecOn with
  | nil => exact .inl ⟨[], rfl, .nil⟩
  | append_singleton tokens t ih =>
      have htrees : trees (tokens ++ [t]) = rebuild (trees tokens) t := List.foldl_concat ..
      have hbefore : ∀ k, lackAt? tokens k = none := by
        intro k
        by_cases hk : k < tokens.length
        · exact (lackAt?_append hk [t]).symm.trans (hlack k)
        · exact lackAt?_of_length_le (Nat.le_of_not_lt hk)
      have hlast := (lackAt?_length tokens t []).symm.trans (hlack tokens.length)
      rw [DividesByZero, htrees]
      rcases ih (fun u hu => hbracket u (List.mem_append_left _ hu)) hbefore with
        ⟨operands, hfold, hvalues⟩ | ⟨hfold, hdivides⟩
      · -- the height is the number of operands
        have hlength := length_foldlM_pushToken hfold
        rw [List.length_nil, Int.natCast_zero, Int.zero_add] at hlength
        rw [← hlength] at hlast
        have hpush : (tokens ++ [t]).foldlM pushToken [] = pushToken operands t := by
          rw [foldlM_append_of_ok hfold, List.foldlM_cons]
          cases pushToken operands t <;> rfl
        rw [hpush]
        exact pushToken_cases (hbracket t (List.mem_append_right _ (.head _))) hlast hvalues
      · exact .inr ⟨foldlM_append_of_error hfold [t], exists_dividesByZero_rebuild hdivides t⟩

theorem foldTokens_of_error {e : Error} (h : tokens.foldlM pushToken [] = .error e) :
    foldTokens tokens = .error e := by
  rw [foldTokens, h]
  rfl

section

variable (hbracket : Bracketless tokens)

include hbracket

/-- Only where there are no tokens is there no operand. -/
theorem foldTokens_eq_noOperand_iff : foldTokens tokens = .error .noOperand ↔ tokens = [] := by
  constructor
  · intro h
    by_contra hne
    have hfrom : ∀ t ∈ tokens, t.ComesFrom (Operator.all.map Operator.lexeme) := by
      intro t ht
      cases t with
      | value _ | function _ => trivial
      | operator op => exact ⟨hbracket _ ht, List.mem_map_of_mem (by cases op <;> decide)⟩
    rcases foldTokens_error hne hfrom h with harity | ⟨hdivision, -⟩
    · exact harity
    · cases hdivision
  · rintro rfl
    rfl

theorem foldTokens_of_lackAt? {k : Nat} {symbol : String} (hlack : lackAt? tokens k = some symbol)
    (hbefore : ∀ j < k, lackAt? tokens j = none) (hdivides : ¬ DividesByZero (tokens.take k)) :
    foldTokens tokens = .error (.missingOperand symbol) := by
  rcases foldlM_pushToken_cases (hbracket.take k) (lackAt?_take hbefore) with
    ⟨operands, hfold, -⟩ | ⟨-, hzero⟩
  · obtain ⟨t, htokens, ht⟩ := exists_of_lackAt? hlack
    have hlength := length_foldlM_pushToken hfold
    rw [List.length_nil, Int.natCast_zero, Int.zero_add] at hlength
    rw [← hlength] at ht
    refine foldTokens_of_error ?_
    rw [htokens, foldlM_append_of_ok hfold, List.foldlM_cons, pushToken_of_lack? ht]
    rfl
  · exact absurd hzero hdivides

theorem foldTokens_of_dividesByZero {k : Nat} (hbefore : ∀ j < k, lackAt? tokens j = none)
    (hdivides : DividesByZero (tokens.take k)) : foldTokens tokens = .error .divisionByZero := by
  rcases foldlM_pushToken_cases (hbracket.take k) (lackAt?_take hbefore) with
    ⟨operands, -, hvalues⟩ | ⟨hfold, -⟩
  · exact absurd hdivides hvalues.not_dividesByZero
  · refine foldTokens_of_error ?_
    rw [← List.take_append_drop k tokens]
    exact foldlM_append_of_error hfold _

/-- Where nothing goes wrong on the way there are as many operands as the height says, and they are
the values of the trees. -/
theorem exists_operands (hlack : ∀ k, lackAt? tokens k = none) (hdivides : ¬ DividesByZero tokens) :
    ∃ operands, foldTokens tokens = onlyOperand operands ∧ HaveValues (trees tokens) operands ∧
      (operands.length : Int) = weight tokens := by
  rcases foldlM_pushToken_cases hbracket hlack with ⟨operands, hfold, hvalues⟩ | ⟨-, hzero⟩
  · have hlength := length_foldlM_pushToken hfold
    rw [List.length_nil, Int.natCast_zero, Int.zero_add] at hlength
    refine ⟨operands, ?_, hvalues, hlength⟩
    rw [foldTokens, hfold]
    rfl
  · exact absurd hzero hdivides

theorem foldTokens_of_weight_eq_one (hlack : ∀ k, lackAt? tokens k = none)
    (hdivides : ¬ DividesByZero tokens) (hweight : weight tokens = 1) :
    ∃ t x, trees tokens = [t] ∧ t.eval = .ok x ∧ foldTokens tokens = .ok x := by
  obtain ⟨operands, hfold, hvalues, hlength⟩ := exists_operands hbracket hlack hdivides
  obtain ⟨x, rfl⟩ : ∃ x, operands = [x] := List.length_eq_one_iff.1 (by omega)
  generalize trees tokens = forest at hvalues
  cases hvalues with
  | @cons t _ _ _ ht hrest =>
      cases hrest
      exact ⟨t, x, rfl, ht.1, hfold⟩

theorem foldTokens_of_weight_ne_one (hlack : ∀ k, lackAt? tokens k = none)
    (hdivides : ¬ DividesByZero tokens) (hne : tokens ≠ []) (hweight : weight tokens ≠ 1) :
    2 ≤ weight tokens ∧
      foldTokens tokens = .error (.missingOperator (weight tokens).toNat) := by
  obtain ⟨operands, hfold, -, hlength⟩ := exists_operands hbracket hlack hdivides
  match operands with
  | [] => exact absurd ((foldTokens_eq_noOperand_iff hbracket).1 hfold) hne
  | [x] => exact absurd hlength.symm hweight
  | x :: y :: below =>
      rw [← hlength, Int.toNat_natCast]
      refine ⟨?_, hfold⟩
      simp only [List.length_cons]
      omega

end

/-- How the fold of tokens without brackets ends: without tokens there is no operand, the first token
that finds the height too low is named, a division by zero before it comes first, and otherwise the
height at the end is the number of operands that are left. -/
theorem foldTokens_verdict (hbracket : Bracketless tokens) : Verdict tokens where
  empty := foldTokens_eq_noOperand_iff hbracket
  lacking _ _ := foldTokens_of_lackAt? hbracket
  dividing _ := foldTokens_of_dividesByZero hbracket
  single := foldTokens_of_weight_eq_one hbracket
  many := foldTokens_of_weight_ne_one hbracket

end

/-- The main statement at `1 0 / +`, where the sum lacks an operand but the division comes before it,
and at `1 minus + 0 /`, where the sum comes first. -/
theorem foldTokens_verdict_division :
    let quotient : List Token := [.value 1.0, .value 0.0, .operator .div, .operator .add]
    let sum : List Token :=
      [.value 1.0, .function .minus, .operator .add, .value 0.0, .operator .div]
    (Bracketless quotient ∧ Bracketless sum) ∧
      foldTokens quotient = .error .divisionByZero ∧
      foldTokens sum = .error (.missingOperand "+") := by
  intro quotient sum
  have hquotient : Bracketless quotient := by decide
  have hsum : Bracketless sum := by decide
  refine ⟨⟨hquotient, hsum⟩, ?_, ?_⟩
  · refine (foldTokens_verdict hquotient).dividing 3 (by decide) ?_
    exact ⟨_, .head _, .inr (.inr ⟨1.0, 0.0, rfl, rfl, by decide +kernel⟩)⟩
  · refine (foldTokens_verdict hsum).lacking 2 "+" (by decide) (by decide) ?_
    rintro ⟨t, ht, hdivides⟩
    obtain rfl := List.mem_singleton.1 ht
    exact hdivides

end NumScript.Expr
