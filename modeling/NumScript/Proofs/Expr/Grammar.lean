import NumScript.Expr.Postfix

set_option autoImplicit false

/-! # The infix grammar

An expression is a row of factors with operators between them; a factor is an atom behind any number
of function names and minus signs; an atom is a number, a name or an expression in brackets. That is
`Phrase`, which says nothing about priorities. `Parses` gives such a row its tree: of two operators
the looser one stands higher up, and of two that bind equally the one on the right. Every sentence
has a tree (`Phrase.exists_parses`).
-/

namespace NumScript.Expr

/-! ## Sentences

The grammar has one rule for each form that a part can have, and no rule mentions a priority. It is
about lexemes, not characters: how a sentence may be spelled is the business of the spelling. -/

/-- The digits and points of a number that can be read. -/
def IsNumeral (text : List Char) : Prop :=
  (∃ c rest, text = c :: rest ∧ c.isDigit = true ∧ ∀ d ∈ rest, isNumberChar d = true) ∧
    (Number.read? text).isSome = true

/-- A word that is not the name of a function. -/
def IsName (text : List Char) : Prop :=
  (∃ c rest, text = c :: rest ∧ isWordStart c = true ∧ ∀ d ∈ rest, isWordChar d = true) ∧
    Function.ofName? (String.ofList text) = none

def Operator.isBracket (op : Operator) : Bool :=
  op == .leftBracket || op == .rightBracket

inductive Part where
  | atom
  | factor
  | expression

def Function.lexeme (f : Function) : Lexeme := .word f.name.toList

def Operator.lexeme (op : Operator) : Lexeme := .symbol op.symbol.toList

/-- The rows of lexemes that are such a part. -/
inductive Phrase : Part → List Lexeme → Prop where
  | number {text : List Char} : IsNumeral text → Phrase .atom [.number text]
  | name {text : List Char} : IsName text → Phrase .atom [.word text]
  | group {s : List Lexeme} : Phrase .expression s → Phrase .atom (.opening :: s ++ [.closing])
  | atom {s : List Lexeme} : Phrase .atom s → Phrase .factor s
  | apply {s : List Lexeme} (f : Function) : Phrase .factor s → Phrase .factor (f.lexeme :: s)
  | minus {s : List Lexeme} : Phrase .factor s → Phrase .factor (.symbol ['-'] :: s)
  | factor {s : List Lexeme} : Phrase .factor s → Phrase .expression s
  | binary {s s' : List Lexeme} (op : Operator) : op.isBracket = false →
      Phrase .expression s → Phrase .factor s' → Phrase .expression (s ++ op.lexeme :: s')

abbrev Sentence (s : List Lexeme) : Prop := Phrase .expression s

/-- Every name of a sentence has a value. -/
def Names.Resolves (names : Names) (s : List Lexeme) : Prop :=
  ∀ text, Lexeme.word text ∈ s → Function.ofName? (String.ofList text) = none →
    (names (String.ofList text)).isSome = true

theorem Names.Resolves.mono {names : Names} {s s' : List Lexeme} (h : names.Resolves s)
    (hsub : ∀ l ∈ s', l ∈ s) : names.Resolves s' :=
  fun text hmem => h text (hsub _ hmem)

/-! ## Trees

A tree is what a sentence means. Brackets and the two spellings of the minus sign leave no trace in
it, and neither do names, which stand for their values. -/

inductive Tree where
  | value (x : Float)
  | apply (f : Function) (t : Tree)
  | binary (op : Operator) (l r : Tree)

namespace Tree

def postorder : Tree → List Token
  | value x => [.value x]
  | apply f t => t.postorder ++ [.function f]
  | binary op l r => l.postorder ++ r.postorder ++ [.operator op]

/-- The value of a tree, operands from left to right. -/
def eval : Tree → Except Error Float
  | value x => .ok x
  | apply f t => do
    let x ← t.eval
    return f.apply x
  | binary op l r => do
    let x ← l.eval
    let y ← r.eval
    op.apply x y

/-- Some operator of the tree is a division by zero at the values of its operands. -/
def DividesByZero : Tree → Prop
  | value _ => False
  | apply _ t => t.DividesByZero
  | binary op l r =>
    l.DividesByZero ∨ r.DividesByZero ∨
      ∃ x y, l.eval = .ok x ∧ r.eval = .ok y ∧ op.apply x y = .error .divisionByZero

end Tree

/-- `Parses names p t s`: the tree of `s` is `t`, and the loosest operator of `s` outside all
brackets has priority `p`. The left operand of an operator holds no looser one outside brackets, the
right operand only tighter ones. A phrase without operators outside brackets is as tight as a
function. -/
inductive Parses (names : Names) : Nat → Tree → List Lexeme → Prop where
  | number {text : List Char} {x : Float} : Number.read? text = some x →
      Parses names Function.priority (.value x) [.number text]
  | name {text : List Char} {x : Float} : Function.ofName? (String.ofList text) = none →
      names (String.ofList text) = some x → Parses names Function.priority (.value x) [.word text]
  | group {p : Nat} {t : Tree} {s : List Lexeme} : Parses names p t s →
      Parses names Function.priority t (.opening :: s ++ [.closing])
  | apply {t : Tree} {s : List Lexeme} (f : Function) : Parses names Function.priority t s →
      Parses names Function.priority (.apply f t) (f.lexeme :: s)
  | minus {t : Tree} {s : List Lexeme} : Parses names Function.priority t s →
      Parses names Function.priority (.apply .minus t) (.symbol ['-'] :: s)
  | binary {p q : Nat} {l r : Tree} {s s' : List Lexeme} (op : Operator) : op.isBracket = false →
      Parses names p l s → Parses names q r s' → op.priority ≤ p → op.priority < q →
      Parses names op.priority (.binary op l r) (s ++ op.lexeme :: s')

/-! ## Every sentence has a tree

The grammar reads a row of factors from the left, while its tree has the loosest operator on top. So
the tree is built by adding one operator and factor at a time to the tree of what came before. The
new operator goes up the right edge, as far as the operators there bind at least as tightly; that is
the same comparison that the conversion makes with the operators that wait. -/

theorem Operator.one_lt_priority {op : Operator} (h : op.isBracket = false) : 1 < op.priority := by
  cases op <;> first | decide | exact absurd h (by decide)

theorem Operator.priority_lt (op : Operator) : op.priority < Function.priority := by
  cases op <;> decide

theorem Parses.one_lt {names : Names} {p : Nat} {t : Tree} {s : List Lexeme}
    (h : Parses names p t s) : 1 < p := by
  cases h with
  | binary op hop => exact Operator.one_lt_priority hop
  | _ => decide

/-- One more operator and factor after a row: the operator goes up the right edge of the tree until
what is above it binds more loosely. -/
theorem Parses.exists_append {names : Names} {p : Nat} {t u : Tree} {s s' : List Lexeme}
    (h : Parses names p t s) (hu : Parses names Function.priority u s') (op : Operator)
    (hop : op.isBracket = false) :
    ∃ v, Parses names (min p op.priority) v (s ++ op.lexeme :: s') := by
  by_cases hle : op.priority ≤ p
  · refine ⟨.binary op t u, ?_⟩
    rw [Nat.min_eq_right hle]
    exact .binary op hop h hu hle op.priority_lt
  · induction h with
    | @binary p q l r sl sr o ho hl hr hp hq _ ihr =>
        have hlt : o.priority < op.priority := by omega
        -- the operator belongs to the right operand, as its top or somewhere inside it
        have hv : ∃ v, Parses names (min q op.priority) v (sr ++ op.lexeme :: s') := by
          by_cases hrle : op.priority ≤ q
          · refine ⟨.binary op r u, ?_⟩
            rw [Nat.min_eq_right hrle]
            exact .binary op hop hr hu hrle op.priority_lt
          · exact ihr hrle
        obtain ⟨v, hv⟩ := hv
        refine ⟨.binary o l v, ?_⟩
        rw [Nat.min_eq_left (Nat.le_of_lt hlt), List.append_assoc, List.cons_append]
        exact .binary o ho hl hv hp (by omega)
    | _ => exact absurd (Nat.le_of_lt op.priority_lt) hle

/-- A phrase whose names have values has a tree; without operators outside brackets the tree is as
tight as a function. -/
theorem Phrase.exists_parses {names : Names} {part : Part} {s : List Lexeme} (h : Phrase part s)
    (hn : names.Resolves s) :
    ∃ p t, Parses names p t s ∧ (part ≠ .expression → p = Function.priority) := by
  induction h with
  | number hnum =>
      obtain ⟨x, hx⟩ := Option.isSome_iff_exists.1 hnum.2
      exact ⟨_, _, .number hx, fun _ => rfl⟩
  | @name text hname =>
      obtain ⟨x, hx⟩ := Option.isSome_iff_exists.1 (hn text (by simp) hname.2)
      exact ⟨_, _, .name hname.2 hx, fun _ => rfl⟩
  | group _ ih =>
      obtain ⟨p, t, ht, -⟩ := ih (hn.mono (by simp +contextual))
      exact ⟨_, t, .group ht, fun _ => rfl⟩
  | atom _ ih =>
      obtain ⟨p, t, ht, hp⟩ := ih hn
      exact ⟨p, t, ht, fun _ => hp (by simp)⟩
  | apply f _ ih =>
      obtain ⟨p, t, ht, hp⟩ := ih (hn.mono (by simp +contextual))
      obtain rfl := hp (by simp)
      exact ⟨_, _, .apply f ht, fun _ => rfl⟩
  | minus _ ih =>
      obtain ⟨p, t, ht, hp⟩ := ih (hn.mono (by simp +contextual))
      obtain rfl := hp (by simp)
      exact ⟨_, _, .minus ht, fun _ => rfl⟩
  | factor _ ih =>
      obtain ⟨p, t, ht, -⟩ := ih hn
      exact ⟨p, t, ht, fun hpart => absurd rfl hpart⟩
  -- the operator joins the row before it, as far up the right edge as it has to
  | binary op hop _ _ ihs ihs' =>
      obtain ⟨p, t, ht, -⟩ := ihs (hn.mono (by simp +contextual))
      obtain ⟨q, u, hu, hq⟩ := ihs' (hn.mono (by simp +contextual))
      obtain rfl := hq (by simp)
      obtain ⟨v, hv⟩ := ht.exists_append hu op hop
      exact ⟨_, v, hv, fun hpart => absurd rfl hpart⟩

end NumScript.Expr
