import NumScript.Proofs.Script.Readers

set_option autoImplicit false

/-! # The outline of a statement

Where the operands of a statement end, which block belongs to its header and what it may ask for do
not depend on the values of variables, but on the text alone and on the mode. `Asks` says what a
statement can ask for, and where the text goes on then; every statement that is read asks for such a
thing (`asks_of_statement`). A statement fails for its outline only where its block is not closed or
a subroutine has no body (`outline_of_statement_error`).

Whatever is shown about places of a run is shown from this outline: which statement is next, where
jumps lead, that a text which was checked holds no bad statement. None of these needs to know what
the expressions are worth. -/

namespace NumScript.Script

variable {ω : Type}

/-! ## What a statement can ask for

One rule for each way in which a statement goes on in the text. The statements that only have
effects share a rule, since they all go on behind their operands. -/

/-- Where the operands of a statement end, given the text after its keyword; nothing if it takes
operands and there are none. -/
def operandsEnd? (rest : List Char) : Keyword → Option (List Char)
  | .set => if isTerminated rest then none else some (readParam (readWord rest).2).2
  | .call | .goto =>
    if isTerminated rest then none
    else some (endOfList (readWord rest).2 (argumentTexts (readWord rest).2))
  | .var | .exportVar | .pop =>
    if isTerminated rest then none else some (endOfList rest (readNames rest))
  | .ifBlock | .whileBlock | .returnValue =>
    if isTerminated rest then none else some (readParam rest).2
  | .define => if isTerminated rest then none else some (readWord rest).2
  | .elseBranch | .fi | .done | .endDefine | .exit => some rest

def Declaration.keyword : Declaration → Keyword
  | .var => .var
  | .exportVar => .exportVar
  | .pop => .pop

theorem operandsEnd?_declaration {rest e : List Char} {sort : Declaration}
    (h : operandsEnd? rest sort.keyword = some e) : e = endOfList rest (readNames rest) := by
  cases sort <;>
  · simp only [Declaration.keyword, operandsEnd?] at h
    split at h
    · simp at h
    · exact (Option.some.inj h).symm

theorem operandsEnd?_define {rest e : List Char} (h : operandsEnd? rest .define = some e) :
    (readWord rest).2 = e := by
  rw [operandsEnd?] at h
  split at h
  · simp at h
  · exact Option.some.inj h

def Keyword.isPlain : Keyword → Bool
  | .set | .call | .goto | .returnValue | .exit | .elseBranch | .fi | .done | .endDefine => true
  | .var | .exportVar | .pop | .ifBlock | .whileBlock | .define => false

inductive Action.IsEffect (v : View ω) : Action → Prop where
  | assign (name : String) (x : Float) : Action.IsEffect v (.assign name x)
  | call (name : String) (args : List Float) : Action.IsEffect v (.call name args)
  | invoke {name body : String} (args : List Float) : v.body? name = some body →
      Action.IsEffect v (.invoke name body args)
  | finish (result : Option Float) : Action.IsEffect v (.finish result)

/-- `Asks v mode start rest k a ahead`: a statement with the text `start`, and the text `rest` after
its keyword `k`, can ask for `a`, and then the text goes on at `ahead`. -/
inductive Asks (v : View ω) (mode : Mode) (start rest : List Char) :
    Keyword → Action → List Char → Prop where
  | pass {k : Keyword} {e : List Char} : k.isPlain = true → operandsEnd? rest k = some e →
      Asks v mode start rest k .pass e
  | effect {k : Keyword} {e : List Char} {a : Action} : k.isPlain = true →
      operandsEnd? rest k = some e → mode.performsEffects = true → a.IsEffect v →
      Asks v mode start rest k a e
  | declare (sort : Declaration) {e : List Char} : operandsEnd? rest sort.keyword = some e →
      Asks v mode start rest sort.keyword (.declare sort (readNames rest)) rest
  | enter {b : Block} {e : List Char} {marks : Landmarks} : b ≠ .definition →
      operandsEnd? rest b.opener = some e → scanBlock b e = .ok marks →
      Asks v mode start rest b.opener .pass e
  | jump {b : Block} {e : List Char} {marks : Landmarks} {j : Jump} : b ≠ .definition →
      operandsEnd? rest b.opener = some e → scanBlock b e = .ok marks →
      mode.followsBranches = true → j.target = .before start ∨ j.target = oneByteOn marks.close →
      Asks v mode start rest b.opener (.jump j) e
  | skip {b : Block} {e ahead : List Char} {marks : Landmarks} : b ≠ .definition →
      operandsEnd? rest b.opener = some e → scanBlock b e = .ok marks →
      mode.followsBranches = true → ahead = marks.close ∨ marks.alternate = some ahead →
      Asks v mode start rest b.opener .pass ahead
  | define {name : String} {e : List Char} {marks : Landmarks} :
      operandsEnd? rest .define = some e → isTerminated e = true →
      scanBlock .definition e = .ok marks → bodyBetween e marks.closing ≠ [] →
      Asks v mode start rest .define
        (.define name (String.ofList (bodyBetween e marks.closing))) marks.close

def Keyword.AsksFor (k : Keyword) : Action → Prop
  | .pass => True
  | .assign _ _ => k = .set
  | .call _ _ => k = .call
  | .invoke _ _ _ => k = .goto
  | .declare sort _ => k = sort.keyword
  | .jump _ => k = .ifBlock ∨ k = .whileBlock
  | .define _ _ => k = .define
  | .finish _ => k = .returnValue ∨ k = .exit

/-! ## What is read is asked for

One lemma for each reader with operands, from its equation. A reader that succeeds has passed all of
its cases that fail, and what is left is one of the rules. -/

theorem param_rest_of_ok {v : View ω} {mode : Mode} {p q : Progress} {x : Float}
    (h : Reader.param v mode p = .ok x q) : q.rest = (readParam p.rest).2 := by
  rw [Reader.param_eq] at h
  split at h
  · cases h
    rfl
  · simp at h

theorem arguments_rest_of_ok {v : View ω} {mode : Mode} {p q : Progress} {xs : List Float}
    (h : Reader.arguments v mode p = .ok xs q) :
    q.rest = endOfList p.rest (argumentTexts p.rest) := by
  obtain ⟨rest, heq⟩ := Reader.arguments_eq v mode p
  rw [heq] at h
  split at h
  · cases h
    rfl
  · simp at h

section

variable {v : View ω} {mode : Mode} {start : List Char} {p q : Progress} {a : Action}

theorem asks_of_assignment (h : Reader.assignment v mode p = .ok a q) :
    Asks v mode start p.rest .set a q.rest := by
  rw [Reader.assignment_eq] at h
  split at h
  · simp at h
  rename_i hp
  dsimp only at h
  split at h
  · simp at h
  split at h
  · simp at h
  rename_i x r hx
  have he : operandsEnd? p.rest .set = some r.rest := by
    rw [param_rest_of_ok hx, operandsEnd?, if_neg hp]
  split at h
  · cases h
    exact .pass rfl he
  · split at h
    · simp at h
    · rename_i hm _
      cases h
      exact .effect rfl he (by simpa using hm) (.assign _ x)

theorem asks_of_nativeCall (h : Reader.nativeCall v mode p = .ok a q) :
    Asks v mode start p.rest .call a q.rest := by
  rw [Reader.nativeCall_eq] at h
  split at h
  · simp at h
  rename_i hp
  dsimp only at h
  split at h
  · simp at h
  split at h
  · simp at h
  rename_i args r hargs
  have he : operandsEnd? p.rest .call = some r.rest := by
    rw [arguments_rest_of_ok hargs, operandsEnd?, if_neg hp]
  cases h
  split
  · rename_i hm
    exact .effect rfl he hm (.call _ args)
  · exact .pass rfl he

theorem asks_of_subroutineCall (h : Reader.subroutineCall v mode p = .ok a q) :
    Asks v mode start p.rest .goto a q.rest := by
  rw [Reader.subroutineCall_eq] at h
  split at h
  · simp at h
  rename_i hp
  have he {xs : List Float} {r : Progress}
      (hargs : Reader.arguments v mode { p with rest := (readWord p.rest).2 } = .ok xs r) :
      operandsEnd? p.rest .goto = some r.rest := by
    rw [arguments_rest_of_ok hargs, operandsEnd?, if_neg hp]
  dsimp only at h
  split at h
  · rename_i hm
    split at h
    · simp at h
    rename_i body hbody
    split at h
    · simp at h
    rename_i args r hargs
    cases h
    exact .effect rfl (he hargs) hm (.invoke args hbody)
  · split at h
    · simp at h
    rename_i args r hargs
    cases h
    exact .pass rfl (he hargs)

theorem asks_of_declaration {sort : Declaration} (h : Reader.declaration sort p = .ok a q) :
    Asks v mode start p.rest sort.keyword a q.rest := by
  rw [Reader.declaration_eq] at h
  split at h
  · simp at h
  rename_i hp
  cases h
  have he : operandsEnd? p.rest sort.keyword = some (endOfList p.rest (readNames p.rest)) := by
    cases sort <;> simp [Declaration.keyword, operandsEnd?, hp]
  exact .declare sort he

theorem asks_of_conditional (h : Reader.conditional v mode p = .ok a q) :
    Asks v mode start p.rest .ifBlock a q.rest := by
  rw [Reader.conditional_eq] at h
  split at h
  · simp at h
  rename_i hp
  split at h
  · simp at h
  rename_i guard r hguard
  have he : operandsEnd? p.rest Block.conditional.opener = some r.rest := by
    rw [param_rest_of_ok hguard, Block.opener, operandsEnd?, if_neg hp]
  split at h
  · simp at h
  rename_i marks hscan
  have hb : Block.conditional ≠ .definition := by decide
  split at h
  · cases h
    exact .enter hb he hscan
  rename_i hm
  have hm : mode.followsBranches = true := by simpa using hm
  split at h
  · split at h
    · cases h
      exact .jump hb he hscan hm (.inr rfl)
    · cases h
      exact .enter hb he hscan
  · cases h
    refine .skip hb he hscan hm ?_
    cases marks.alternate with
    | none => exact .inl rfl
    | some alternate => exact .inr rfl

theorem asks_of_loop (h : Reader.loop v mode start p = .ok a q) :
    Asks v mode start p.rest .whileBlock a q.rest := by
  rw [Reader.loop_eq] at h
  split at h
  · simp at h
  rename_i hp
  split at h
  · simp at h
  rename_i guard r hguard
  have he : operandsEnd? p.rest Block.loop.opener = some r.rest := by
    rw [param_rest_of_ok hguard, Block.opener, operandsEnd?, if_neg hp]
  split at h
  · simp at h
  rename_i marks hscan
  have hb : Block.loop ≠ .definition := by decide
  split at h
  · cases h
    exact .enter hb he hscan
  rename_i hm
  have hm : mode.followsBranches = true := by simpa using hm
  split at h
  · cases h
    exact .jump hb he hscan hm (.inl rfl)
  · cases h
    exact .skip hb he hscan hm (.inl rfl)

theorem asks_of_definition (h : Reader.definition p = .ok a q) :
    Asks v mode start p.rest .define a q.rest := by
  rw [Reader.definition_eq] at h
  split at h
  · simp at h
  rename_i hp
  dsimp only at h
  split at h
  · simp at h
  rename_i hname
  split at h
  · simp at h
  rename_i marks hscan
  split at h
  · simp at h
  rename_i hbody
  cases h
  have he : operandsEnd? p.rest .define = some (readWord p.rest).2 := by
    rw [operandsEnd?, if_neg hp]
  simp only [Bool.or_eq_true, Bool.not_eq_true', not_or, Bool.not_eq_false] at hname
  exact .define he hname.2 hscan (by simpa using hbody)

theorem asks_of_result (h : Reader.result v mode p = .ok a q) :
    Asks v mode start p.rest .returnValue a q.rest := by
  rw [Reader.result_eq] at h
  split at h
  · simp at h
  rename_i hp
  split at h
  · simp at h
  rename_i x r hx
  have he : operandsEnd? p.rest .returnValue = some r.rest := by
    rw [param_rest_of_ok hx, operandsEnd?, if_neg hp]
  cases h
  split
  · rename_i hm
    exact .effect rfl he hm (.finish _)
  · exact .pass rfl he

/-- A statement that is read asks for what its outline allows. -/
theorem asks_of_statement {k : Keyword} (h : Reader.statement v mode start k p = .ok a q) :
    Asks v mode start p.rest k a q.rest := by
  cases k with
  | set => exact asks_of_assignment h
  | call => exact asks_of_nativeCall h
  | goto => exact asks_of_subroutineCall h
  | var | exportVar | pop => exact asks_of_declaration h
  | ifBlock => exact asks_of_conditional h
  | whileBlock => exact asks_of_loop h
  | define => exact asks_of_definition h
  | returnValue => exact asks_of_result h
  | exit =>
      change (pure (if mode.performsEffects then Action.finish none else .pass) : Reader Action) p
        = .ok a q at h
      cases h
      split
      · rename_i hm
        exact .effect rfl rfl hm (.finish none)
      · exact .pass rfl rfl
  | elseBranch | fi | done | endDefine =>
      cases h
      exact .pass rfl rfl

/-- The keyword says what a statement may ask for. -/
theorem asksFor_of_statement {k : Keyword} (h : Reader.statement v mode start k p = .ok a q) :
    k.AsksFor a := by
  cases k with
  | set =>
      change Reader.assignment v mode p = _ at h
      rw [Reader.assignment_eq] at h
      grind [Keyword.AsksFor]
  | call =>
      change Reader.nativeCall v mode p = _ at h
      rw [Reader.nativeCall_eq] at h
      grind [Keyword.AsksFor]
  | goto =>
      change Reader.subroutineCall v mode p = _ at h
      rw [Reader.subroutineCall_eq] at h
      grind [Keyword.AsksFor]
  | var | exportVar | pop =>
      simp only [Reader.statement, Reader.declaration_eq] at h
      grind [Keyword.AsksFor, Declaration.keyword]
  | ifBlock =>
      change Reader.conditional v mode p = _ at h
      rw [Reader.conditional_eq] at h
      grind [Keyword.AsksFor]
  | whileBlock =>
      change Reader.loop v mode start p = _ at h
      rw [Reader.loop_eq] at h
      grind [Keyword.AsksFor]
  | define =>
      change Reader.definition p = _ at h
      rw [Reader.definition_eq] at h
      grind [Keyword.AsksFor]
  | returnValue =>
      change Reader.result v mode p = _ at h
      rw [Reader.result_eq] at h
      grind [Keyword.AsksFor]
  | exit =>
      change (pure (if mode.performsEffects then Action.finish none else .pass) : Reader Action) p
        = _ at h
      cases h
      split
      · exact .inr rfl
      · trivial
  | elseBranch | fi | done | endDefine =>
      cases h
      trivial
end

/-! ## What is wrong with an outline

Errors come from two sources, and only one of them is about the structure of a text. Values, names
and flags give errors of the other kind, so a statement whose error is structural has a bad block,
since a missing terminator is noticed only after the statement. -/

/-- The errors that say that a text is not built from statements and blocks as it should be. -/
def Error.IsStructural : Error → Prop
  | expectedFi | expectedDone | expectedEnd | expectedTerminator => True
  | emptyFunction _ | emptyStatement | unknownStatement _ | emptyScript => True
  | _ => False

theorem not_isStructural_of_value {v : View ω} {mode : Mode} {text : List Char} {e : Error}
    (h : v.value mode text = .error e) : ¬ e.IsStructural := by
  unfold View.value at h
  split at h
  · simp at h
  · split at h
    · simp at h
    · cases h
      exact id

theorem not_isStructural_of_values {v : View ω} {mode : Mode} {texts : List (List Char)}
    {retained : Expr.Retained} {e : Error} (h : (v.values mode retained texts).1 = .error e) :
    ¬ e.IsStructural := by
  induction texts generalizing retained with
  | nil => cases h
  | cons text more ih =>
      unfold View.values at h
      dsimp only at h
      split at h
      · rename_i hx
        cases h
        exact not_isStructural_of_value hx
      · split at h
        · rename_i hxs
          cases h
          exact ih (by rw [hxs])
        · simp at h

section

variable {v : View ω} {mode : Mode} {start : List Char} {p q : Progress} {e : Error}

theorem not_isStructural_of_param (h : Reader.param v mode p = .error e q) : ¬ e.IsStructural := by
  rw [Reader.param_eq] at h
  split at h
  · simp at h
  · rename_i hx
    cases h
    exact not_isStructural_of_value hx

theorem not_isStructural_of_arguments (h : Reader.arguments v mode p = .error e q) :
    ¬ e.IsStructural := by
  obtain ⟨rest, heq⟩ := Reader.arguments_eq v mode p
  rw [heq] at h
  split at h
  · simp at h
  · rename_i hxs
    cases h
    exact not_isStructural_of_values (by rw [hxs])

theorem not_isStructural_of_assignment (h : Reader.assignment v mode p = .error e q) :
    ¬ e.IsStructural := by
  rw [Reader.assignment_eq] at h
  split at h
  · cases h
    exact id
  dsimp only at h
  split at h
  · cases h
    exact id
  split at h
  · rename_i hx
    cases h
    exact not_isStructural_of_param hx
  split at h
  · simp at h
  split at h
  · cases h
    exact id
  · simp at h

theorem not_isStructural_of_nativeCall (h : Reader.nativeCall v mode p = .error e q) :
    ¬ e.IsStructural := by
  rw [Reader.nativeCall_eq] at h
  split at h
  · cases h
    exact id
  dsimp only at h
  split at h
  · cases h
    exact id
  split at h
  · rename_i hargs
    cases h
    exact not_isStructural_of_arguments hargs
  · simp at h

theorem not_isStructural_of_subroutineCall (h : Reader.subroutineCall v mode p = .error e q) :
    ¬ e.IsStructural := by
  have hargs {r : Progress} (h : Reader.arguments v mode { p with rest := (readWord p.rest).2 } =
      .error e r) : ¬ e.IsStructural :=
    not_isStructural_of_arguments h
  rw [Reader.subroutineCall_eq] at h
  split at h
  · cases h
    exact id
  dsimp only at h
  split at h
  · split at h
    · cases h
      exact id
    split at h
    · rename_i h'
      cases h
      exact hargs h'
    · simp at h
  · split at h
    · rename_i h'
      cases h
      exact hargs h'
    · simp at h

theorem not_isStructural_of_declaration {sort : Declaration}
    (h : Reader.declaration sort p = .error e q) : ¬ e.IsStructural := by
  rw [Reader.declaration_eq] at h
  split at h
  · cases h
    exact id
  · simp at h

theorem not_isStructural_of_result (h : Reader.result v mode p = .error e q) :
    ¬ e.IsStructural := by
  rw [Reader.result_eq] at h
  split at h
  · cases h
    exact id
  split at h
  · rename_i hx
    cases h
    exact not_isStructural_of_param hx
  · simp at h

/-- The statement opens a block that is not closed, or that is a subroutine without a body. -/
def BadBlock (rest : List Char) (k : Keyword) : Prop :=
  ∃ b header, k = Block.opener b ∧ operandsEnd? rest k = some header ∧
    ∀ marks, scanBlock b header = .ok marks →
      b = .definition ∧ bodyBetween header marks.closing = []

theorem badBlock_of_conditional (h : Reader.conditional v mode p = .error e q)
    (he : e.IsStructural) : BadBlock p.rest .ifBlock := by
  rw [Reader.conditional_eq] at h
  split at h
  · cases h
    exact he.elim
  rename_i hp
  split at h
  · rename_i hguard
    cases h
    exact absurd he (not_isStructural_of_param hguard)
  rename_i guard r hguard
  refine ⟨.conditional, r.rest, rfl, ?_, ?_⟩
  · rw [param_rest_of_ok hguard, operandsEnd?, if_neg hp]
  · intro marks hscan
    rw [hscan] at h
    dsimp only at h
    split at h
    · simp at h
    split at h
    · split at h <;> cases h
    · simp at h

theorem badBlock_of_loop (h : Reader.loop v mode start p = .error e q) (he : e.IsStructural) :
    BadBlock p.rest .whileBlock := by
  rw [Reader.loop_eq] at h
  split at h
  · cases h
    exact he.elim
  rename_i hp
  split at h
  · rename_i hguard
    cases h
    exact absurd he (not_isStructural_of_param hguard)
  rename_i guard r hguard
  refine ⟨.loop, r.rest, rfl, ?_, ?_⟩
  · rw [param_rest_of_ok hguard, operandsEnd?, if_neg hp]
  · intro marks hscan
    rw [hscan] at h
    dsimp only at h
    split at h
    · simp at h
    split at h <;> cases h

theorem badBlock_of_definition (h : Reader.definition p = .error e q) (he : e.IsStructural) :
    BadBlock p.rest .define := by
  rw [Reader.definition_eq] at h
  split at h
  · cases h
    exact he.elim
  rename_i hp
  dsimp only at h
  split at h
  · cases h
    exact he.elim
  refine ⟨.definition, (readWord p.rest).2, rfl, ?_, ?_⟩
  · rw [operandsEnd?, if_neg hp]
  · intro marks hscan
    rw [hscan] at h
    dsimp only at h
    split at h
    · rename_i hbody
      exact ⟨rfl, by simpa using hbody⟩
    · simp at h

/-- A statement that is not read, for its outline, opens a bad block. -/
theorem outline_of_statement_error {k : Keyword}
    (h : Reader.statement v mode start k p = .error e q) (he : e.IsStructural) :
    BadBlock p.rest k := by
  cases k with
  | set => exact absurd he (not_isStructural_of_assignment h)
  | call => exact absurd he (not_isStructural_of_nativeCall h)
  | goto => exact absurd he (not_isStructural_of_subroutineCall h)
  | var | exportVar | pop => exact absurd he (not_isStructural_of_declaration h)
  | ifBlock => exact badBlock_of_conditional h he
  | whileBlock => exact badBlock_of_loop h he
  | define => exact badBlock_of_definition h he
  | returnValue => exact absurd he (not_isStructural_of_result h)
  | exit | elseBranch | fi | done | endDefine => cases h

end

end NumScript.Script
