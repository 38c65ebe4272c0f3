import NumScript.Proofs.Expr.Arity
import NumScript.Proofs.Expr.Padding
import NumScript.Proofs.Script.Lockstep

set_option autoImplicit false

/-! # The verdict of a check and the values of variables

A check evaluates expressions with whatever values it finds and lets a division by zero pass. What
stands behind the division is then not looked at, so the verdict can depend on a value: `1/x+1 2`
passes where `x` is zero, and fails elsewhere for the operator that is missing before the `2`. This
is the only way. Where the same names are in the same scopes, two checks of one script end in the
same way, or one of them ends with a wrong number of operands in an expression with a `/` or a `%`
(`Interpreter.validate_sameNames`).
-/

namespace NumScript.Script

variable {ω σ : Type}

/-! ## Scopes of the same names

Names are declared in both checks alike, so their scopes keep the same names though the values
differ. -/

def Chain.SameNames (chain chain' : Chain ω) : Prop :=
  chain.map Dict.names = chain'.map Dict.names

theorem contains_eq_of_names_eq {s s' : Scope ω} (h : s.names = s'.names) (name : String) :
    Dict.contains s name = Dict.contains s' name := by
  rw [Bool.eq_iff_iff, Dict.contains_iff_mem_names, Dict.contains_iff_mem_names, h]

theorem names_declare (s : Scope ω) (name : String) :
    (s.declare name).names = if name ∈ s.names then s.names else s.names ++ [name] := by
  unfold Scope.declare
  cases h : s.add? name (Variable.zero .number) with
  | none =>
      have hmem : name ∈ s.names := by
        rw [← Dict.contains_iff_mem_names]
        unfold Dict.add? at h
        split at h
        · assumption
        · cases h
      rw [if_pos hmem]
      rfl
  | some s' =>
      obtain ⟨hmem, hentries⟩ := Dict.add?_eq_some_iff.1 h
      rw [if_neg hmem, Option.getD_some, Dict.names, hentries, List.map_append]
      rfl

theorem Chain.isSome_value? (chain : Chain ω) (cells : Cells) (name : String) :
    (Chain.value? chain cells name).isSome = Chain.contains chain name := by
  unfold Chain.value? Chain.find? Chain.contains
  rw [Option.isSome_map]
  induction chain with
  | nil => rfl
  | cons s chain ih =>
      rw [List.findSome?_cons, List.any_cons, ← ih]
      unfold Dict.contains
      cases Dict.find? s name <;> rfl

theorem Chain.SameNames.contains_eq {chain chain' : Chain ω} (h : Chain.SameNames chain chain')
    (name : String) : Chain.contains chain name = Chain.contains chain' name := by
  unfold Chain.contains
  induction chain generalizing chain' with
  | nil =>
      rw [List.map_eq_nil_iff.1 h.symm]
  | cons s chain ih =>
      cases chain' with
      | nil => cases h
      | cons s' chain' =>
          obtain ⟨hs, hchain⟩ := List.cons.inj h
          rw [List.any_cons, List.any_cons, contains_eq_of_names_eq hs, ih hchain]

theorem checkNames_sameDomain {chain chain' : Chain ω} (h : Chain.SameNames chain chain')
    (cells cells' : Cells) :
    (checkNames chain cells).SameDomain (checkNames chain' cells') := by
  intro name
  unfold checkNames
  split
  · rfl
  · rw [Chain.isSome_value?, Chain.isSome_value?, h.contains_eq]

/-! ## Verdicts

The verdict on one expression under two assignments of values. It is taken from what is known of
expressions (`Expr.evaluate_sameShape`), with a division by zero let pass. -/

/-- An expression with a `/` or a `%` has the wrong number of operands. -/
def Error.IsArityOfQuotient (e : Error) : Prop :=
  ∃ text cause, e = .badExpression text cause ∧ cause.IsArity ∧
    ('/' ∈ text.toList ∨ '%' ∈ text.toList)

/-- A value passes, and so does a division by zero; what else can be wrong then is excused. -/
theorem checkValue_cases {names : Expr.Names} {text : List Char}
    (hmem : '/' ∈ text ∨ '%' ∈ text)
    (h : ∀ e, Expr.evaluate names text = .error e → e.IsArity ∨ e = .divisionByZero) :
    checkValue names text = .ok () ∨
      ∃ e, checkValue names text = .error e ∧ e.IsArityOfQuotient := by
  unfold checkValue
  cases hx : Expr.evaluate names text with
  | ok x => exact .inl rfl
  | error cause =>
      by_cases hc : cause = .divisionByZero
      · exact .inl (if_pos hc)
      · refine .inr ⟨_, if_neg hc, _, cause, rfl, (h cause hx).resolve_right hc, ?_⟩
        rw [String.toList_ofList]
        exact hmem.imp (Expr.mem_trim (by decide)) (Expr.mem_trim (by decide))

theorem checkValue_sameVerdict {names names' : Expr.Names} (hn : names.SameDomain names')
    (text : List Char) :
    SameVerdict Error.IsArityOfQuotient (checkValue names text) (checkValue names' text) := by
  have pass {names : Expr.Names} (h : Expr.evaluate names text = .error .divisionByZero) :
      checkValue names text = .ok () := by
    simp only [checkValue, h, if_true]
  rcases Expr.evaluate_sameShape hn text with hsame | ⟨hmem, ⟨hx, hy⟩ | ⟨hy, hx⟩⟩
  · unfold checkValue
    generalize Expr.evaluate names text = r at hsame ⊢
    generalize Expr.evaluate names' text = r' at hsame ⊢
    cases hsame with
    | ok _ => exact .ok _ _
    | error cause =>
        dsimp only
        split
        · exact .ok _ _
        · exact .error _
  -- one of the two divides by zero, and its check passes
  · rw [pass hx]
    rcases checkValue_cases hmem hy with hy | ⟨e, hy, he⟩ <;> rw [hy]
    · exact .ok _ _
    · exact .right _ he
  · rw [pass hy]
    rcases checkValue_cases hmem hx with hx | ⟨e, hx, he⟩ <;> rw [hx]
    · exact .ok _ _
    · exact .left _ he

theorem comparison_sameNames : Comparison (ω := ω) Error.IsArityOfQuotient
    fun chain _ chain' _ => Chain.SameNames chain chain' where
  contains h := h.contains_eq
  value h := checkValue_sameVerdict (checkNames_sameDomain h _ _)
  declare h name := by
    obtain ⟨hs, hchain⟩ := List.cons.inj h
    unfold Chain.SameNames
    rw [List.map_cons, List.map_cons, names_declare, names_declare, hs, hchain]
  nest h := by
    unfold Chain.SameNames
    rw [List.map_cons, List.map_cons, h]

/-! ## Validating

Verdicts on expressions are the only place where the checks can part, so this is an instance of the
comparison of two checks. -/

/-- Validation of a script under other values of the same names, for a host with native functions of
the same names: it ends in the same way, or one of the two ends with a wrong number of operands in
an expression with a `/` or a `%`. -/
theorem Interpreter.validate_sameNames (i i' : Interpreter ω σ) (hhost : i.host.SameNames i'.host)
    (script : String) (chain chain' : Option (Chain ω))
    (hchain : Chain.SameNames (chain.getD i.machine.world.chain)
      (chain'.getD i'.machine.world.chain)) :
    let ending := (i.validate script chain).1
    let ending' := (i'.validate script chain').1
    ending = ending' ∨ ∃ text cause, cause.IsArity ∧ ('/' ∈ text.toList ∨ '%' ∈ text.toList) ∧
      (ending = .failed (.badExpression text cause) ∨
        ending' = .failed (.badExpression text cause)) := by
  have hsame := check_sameEnding comparison_sameNames hhost script.toList hchain
  refine hsame.imp id ?_
  rintro ⟨_, ⟨text, cause, rfl, hcause, hmem⟩, hending⟩
  exact ⟨text, cause, hcause, hmem, hending⟩

def Interpreter.withX (x : Float) : Interpreter Unit Unit :=
  .ofWorld { notify := fun _ _ w => w }
    { root := ⟨[("x", Variable.ofNumber x)]⟩, state := () } {}

theorem Interpreter.sameNames_withX (x y : Float) :
    (Interpreter.withX x).host.SameNames (Interpreter.withX y).host ∧
      Chain.SameNames (Interpreter.withX x).machine.world.chain
        (Interpreter.withX y).machine.world.chain :=
  ⟨fun _ => rfl, rfl⟩

/-- The main statement for a script in which every quotient has its operands: neither check finds
fault with one, so both end at the same undefined name. -/
theorem Interpreter.validate_sameNames_undefined :
    let i := Interpreter.withX 0.0
    let i' := Interpreter.withX 1.0
    let script := "define f; set x 1 / x; end; set x 2 % x; set y 1;"
    i.host.SameNames i'.host ∧ Chain.SameNames i.machine.world.chain i'.machine.world.chain ∧
      (i.validate script none).1 = (i'.validate script none).1 := by
  intro i i' script
  have hi : (i.validate script none).1 = .failed (.undefinedVariable "y") := by decide +kernel
  have hi' : (i'.validate script none).1 = .failed (.undefinedVariable "y") := by decide +kernel
  obtain ⟨hhost, hnames⟩ := Interpreter.sameNames_withX 0.0 1.0
  have hsame := Interpreter.validate_sameNames i i' hhost script none none hnames
  refine ⟨hhost, hnames, hsame.elim id ?_⟩
  rintro ⟨text, cause, -, -, h | h⟩
  · exact absurd (hi.symm.trans h) (by simp)
  · exact absurd (hi'.symm.trans h) (by simp)

/-- A value can decide the verdict: a division by zero hides that an operator is missing. -/
theorem Interpreter.exists_validate_ne :
    Chain.SameNames (Interpreter.withX 0.0).machine.world.chain
        (Interpreter.withX 1.0).machine.world.chain ∧
      ((Interpreter.withX 0.0).validate "set x 1/x+1 2;" none).1 = .finished ∧
      ((Interpreter.withX 1.0).validate "set x 1/x+1 2;" none).1 =
        .failed (.badExpression "1/x+1 2" (.missingOperator 2)) := by
  refine ⟨(Interpreter.sameNames_withX 0.0 1.0).2, ?_, ?_⟩ <;> decide +kernel

end NumScript.Script
