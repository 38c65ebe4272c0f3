import NumScript.Proofs.Script.Lockstep

set_option autoImplicit false

/-! # What a statement finds

A statement looks at its surroundings in five ways only: it takes the values of names, asks whether
a name means a variable, whether that is read-only, whether a native function has the name, and what
the body of a subroutine is. Where two views agree on these (`View.Agrees`), every reader does the
same (`Reader.statement_eq_of_agrees`), however the values are stored.

The outcome of the last expression is left behind by a reader, but none looks at it
(`sameReading_statement`).

Both are used to compare runs. What is not looked at may differ between them: the storage of
variables, the scopes behind the names, and what an earlier expression left. -/

namespace NumScript.Script

variable {ω σ : Type}

/-! ## Views that agree

Expressions see names through their values, so parameters come first. The readers of statements then
agree because each of their questions has the same answer. -/

/-- A statement finds the same in both views. -/
structure View.Agrees (v v' : View ω) : Prop where
  names : v.names = v'.names
  contains : ∀ name, Chain.contains v.chain name = Chain.contains v'.chain name
  readonly : ∀ name, v.isReadonly name = v'.isReadonly name
  isNative : v.isNative = v'.isNative
  body? : v.body? = v'.body?

namespace Reader

section

variable {v v' : View ω} (h : v.Agrees v') (mode : Mode)

include h

theorem param_eq_of_agrees : param v mode = param v' mode := by
  unfold param evaluate
  rw [h.names]

theorem values_eq_of_agrees (reads : List (List Char × List Char)) :
    values v mode reads = values v' mode reads := by
  induction reads with
  | nil => rfl
  | cons read more ih =>
      obtain ⟨text, rest⟩ := read
      unfold values evaluate
      rw [h.names, ih]

theorem arguments_eq_of_agrees : arguments v mode = arguments v' mode := by
  unfold arguments
  simp only [values_eq_of_agrees h]

/-- Views that agree are read alike. -/
theorem statement_eq_of_agrees (start : List Char) (k : Keyword) :
    statement v mode start k = statement v' mode start k := by
  cases k with
  | set =>
      show assignment v mode = assignment v' mode
      unfold assignment
      simp only [h.contains, h.readonly, param_eq_of_agrees h]
  | call =>
      show nativeCall v mode = nativeCall v' mode
      unfold nativeCall
      simp only [h.isNative, arguments_eq_of_agrees h]
  | goto =>
      show subroutineCall v mode = subroutineCall v' mode
      unfold subroutineCall
      simp only [h.body?, arguments_eq_of_agrees h]
  | ifBlock =>
      show conditional v mode = conditional v' mode
      unfold conditional
      rw [param_eq_of_agrees h]
  | whileBlock =>
      show loop v mode start = loop v' mode start
      unfold loop
      rw [param_eq_of_agrees h]
  | returnValue =>
      show result v mode = result v' mode
      unfold result
      rw [param_eq_of_agrees h]
  | var | exportVar | pop | define | exit | elseBranch | fi | done | endDefine => rfl

end

end Reader

/-! ## The outcome of the last expression

One lemma for each reader, and each of them goes by the same argument: the reader replaces the
outcome with its first parameter, or hands on the one it was given. -/

/-- Two results of a reader that differ at most in the outcome of the last expression. -/
inductive SameReading {α : Type} :
    EStateM.Result Error Progress α → EStateM.Result Error Progress α → Prop
  | ok (a : α) (rest : List Char) (r r' : Expr.Retained) :
      SameReading (.ok a ⟨rest, r⟩) (.ok a ⟨rest, r'⟩)
  | error (e : Error) (rest : List Char) (r r' : Expr.Retained) :
      SameReading (.error e ⟨rest, r⟩) (.error e ⟨rest, r'⟩)

section

variable (v : View ω) (mode : Mode) (start rest : List Char) (r r' : Expr.Retained)

theorem SameReading.refl {α : Type} (x : EStateM.Result Error Progress α) : SameReading x x := by
  cases x with
  | ok a p => exact .ok a p.rest p.retained p.retained
  | error e p => exact .error e p.rest p.retained p.retained

/-- Every parameter replaces the outcome. -/
theorem param_retained : Reader.param v mode ⟨rest, r⟩ = Reader.param v mode ⟨rest, r'⟩ := by
  rw [Reader.param_eq, Reader.param_eq]

/-- So only an empty list of arguments keeps it. -/
theorem sameReading_arguments :
    SameReading (Reader.arguments v mode ⟨rest, r⟩) (Reader.arguments v mode ⟨rest, r'⟩) := by
  have harguments (r : Expr.Retained) : Reader.arguments v mode ⟨rest, r⟩ =
      Reader.values v mode (argumentTexts rest) ⟨rest, r⟩ := by
    show (if isTerminated rest then (pure [] : Reader (List Float))
      else Reader.values v mode (readParams rest)) _ = _
    unfold argumentTexts
    split <;> rfl
  rw [harguments, harguments]
  cases argumentTexts rest with
  | nil => exact .ok [] rest r r'
  | cons read more => exact .refl (Reader.values v mode (read :: more) ⟨rest, r⟩)

theorem sameReading_assignment :
    SameReading (Reader.assignment v mode ⟨rest, r⟩) (Reader.assignment v mode ⟨rest, r'⟩) := by
  rw [Reader.assignment_eq, Reader.assignment_eq]
  dsimp only
  rw [param_retained v mode _ r r']
  split
  · exact .error _ _ _ _
  split
  · exact .error _ _ _ _
  · exact .refl _

theorem sameReading_nativeCall :
    SameReading (Reader.nativeCall v mode ⟨rest, r⟩) (Reader.nativeCall v mode ⟨rest, r'⟩) := by
  rw [Reader.nativeCall_eq, Reader.nativeCall_eq]
  dsimp only
  split
  · exact .error _ _ _ _
  split
  · exact .error _ _ _ _
  have hargs := sameReading_arguments v mode (readWord rest).2 r r'
  generalize Reader.arguments v mode _ = x at hargs ⊢
  generalize Reader.arguments v mode _ = x' at hargs ⊢
  cases hargs with
  | ok _ _ _ _ => exact .ok _ _ _ _
  | error _ _ _ _ => exact .error _ _ _ _

theorem sameReading_subroutineCall :
    SameReading (Reader.subroutineCall v mode ⟨rest, r⟩)
      (Reader.subroutineCall v mode ⟨rest, r'⟩) := by
  rw [Reader.subroutineCall_eq, Reader.subroutineCall_eq]
  dsimp only
  split
  · exact .error _ _ _ _
  have hargs := sameReading_arguments v mode (readWord rest).2 r r'
  generalize Reader.arguments v mode _ = x at hargs ⊢
  generalize Reader.arguments v mode _ = x' at hargs ⊢
  split
  · split
    · exact .error _ _ _ _
    · cases hargs with
      | ok _ _ _ _ => exact .ok _ _ _ _
      | error _ _ _ _ => exact .error _ _ _ _
  · cases hargs with
    | ok _ _ _ _ => exact .ok _ _ _ _
    | error _ _ _ _ => exact .error _ _ _ _

theorem sameReading_declaration (sort : Declaration) :
    SameReading (Reader.declaration sort ⟨rest, r⟩) (Reader.declaration sort ⟨rest, r'⟩) := by
  rw [Reader.declaration_eq, Reader.declaration_eq]
  dsimp only
  split
  · exact .error _ _ _ _
  · exact .ok _ _ _ _

theorem sameReading_conditional :
    SameReading (Reader.conditional v mode ⟨rest, r⟩) (Reader.conditional v mode ⟨rest, r'⟩) := by
  rw [Reader.conditional_eq, Reader.conditional_eq, param_retained v mode rest r r']
  dsimp only
  split
  · exact .error _ _ _ _
  · exact .refl _

theorem sameReading_loop :
    SameReading (Reader.loop v mode start ⟨rest, r⟩) (Reader.loop v mode start ⟨rest, r'⟩) := by
  rw [Reader.loop_eq, Reader.loop_eq, param_retained v mode rest r r']
  dsimp only
  split
  · exact .error _ _ _ _
  · exact .refl _

theorem sameReading_definition :
    SameReading (Reader.definition ⟨rest, r⟩) (Reader.definition ⟨rest, r'⟩) := by
  rw [Reader.definition_eq, Reader.definition_eq]
  dsimp only
  split
  · exact .error _ _ _ _
  split
  · exact .error _ _ _ _
  cases scanBlock .definition (readWord rest).2 with
  | error rest => exact .error _ _ _ _
  | ok marks =>
      dsimp only
      split
      · exact .error _ _ _ _
      · exact .ok _ _ _ _

theorem sameReading_result :
    SameReading (Reader.result v mode ⟨rest, r⟩) (Reader.result v mode ⟨rest, r'⟩) := by
  rw [Reader.result_eq, Reader.result_eq, param_retained v mode rest r r']
  dsimp only
  split
  · exact .error _ _ _ _
  · exact .refl _

/-- What is read, and where, does not depend on the outcome of the last expression. -/
theorem sameReading_statement (k : Keyword) :
    SameReading (Reader.statement v mode start k ⟨rest, r⟩)
      (Reader.statement v mode start k ⟨rest, r'⟩) := by
  cases k with
  | set => exact sameReading_assignment v mode rest r r'
  | call => exact sameReading_nativeCall v mode rest r r'
  | goto => exact sameReading_subroutineCall v mode rest r r'
  | var => exact sameReading_declaration rest r r' .var
  | exportVar => exact sameReading_declaration rest r r' .exportVar
  | pop => exact sameReading_declaration rest r r' .pop
  | ifBlock => exact sameReading_conditional v mode rest r r'
  | whileBlock => exact sameReading_loop v mode start rest r r'
  | define => exact sameReading_definition rest r r'
  | returnValue => exact sameReading_result v mode rest r r'
  | exit | elseBranch | fi | done | endDefine => exact .ok _ _ _ _

end

end NumScript.Script
