import NumScript.Script.Statement

set_option autoImplicit false

/-! # The readers of statements, written out

One equation for each reader: what it returns, as a case distinction on the text ahead, the names in
sight and the values of expressions. Everything that is proved about statements is proved from these
equations; no reader is opened again.

The readers are written in a monad, where the text ahead and the outcome of the last expression are
passed along out of sight. In the equations both are written down. When a reader changes, its
equation is proved anew, and what is built on the equation sees whether the change matters. -/

namespace NumScript.Script

variable {ω : Type}

def View.value (v : View ω) (mode : Mode) (text : List Char) : Except Error Float :=
  match Expr.evaluate v.names text with
  | .ok x => .ok x
  | .error cause =>
    if cause = .divisionByZero ∧ mode.toleratesArithmeticFaults then .ok Number.nan
    else .error (.badExpression (String.ofList (Text.trim text)) cause)

/-- The values of expressions up to the first that has none, and the outcome of the last one that
was looked at. -/
def View.values (v : View ω) (mode : Mode) (retained : Expr.Retained) :
    List (List Char) → Except Error (List Float) × Expr.Retained
  | [] => (.ok [], retained)
  | text :: more =>
    let retained := some (Expr.evaluate v.names text)
    match v.value mode text with
    | .error e => (.error e, retained)
    | .ok x =>
      match v.values mode retained more with
      | (.error e, retained) => (.error e, retained)
      | (.ok xs, retained) => (.ok (x :: xs), retained)

/-- The text ahead after a list of parameters or names. -/
def endOfList (start : List Char) : List (List Char × List Char) → List Char
  | [] => start
  | (_, rest) :: more => endOfList rest more

/-- The body of a subroutine between its header and its closing statement. -/
def bodyBetween (header closing : List Char) : List Char :=
  let first := skipGap (header.drop 1)
  first.take (first.length - closing.length)

theorem bodyBetween_terminator (next closing : List Char) :
    bodyBetween (';' :: next) closing =
      (skipGap next).take ((skipGap next).length - closing.length) :=
  rfl

/-- Nothing stands between a header and a closing statement right after it. -/
theorem bodyBetween_of_empty (closing : List Char) :
    bodyBetween (';' :: closing) closing = [] := by
  have hle : (skipGap closing).length ≤ closing.length := length_skipGapFrom_le false closing
  rw [bodyBetween_terminator, Nat.sub_eq_zero_of_le hle, List.take_zero]

def argumentTexts (rest : List Char) : List (List Char × List Char) :=
  if isTerminated rest then [] else readParams rest

namespace Reader

theorem bind_of_ok {α β : Type} {x : Reader α} {f : α → Reader β} {p q : Progress} {a : α}
    (h : x p = .ok a q) : (x >>= f) p = f a q := by
  show EStateM.bind x f p = _
  rw [EStateM.bind, h]

theorem bind_of_error {α β : Type} {x : Reader α} {f : α → Reader β} {p q : Progress} {e : Error}
    (h : x p = .error e q) : (x >>= f) p = .error e q := by
  show EStateM.bind x f p = _
  rw [EStateM.bind, h]

variable (v : View ω) (mode : Mode) (p : Progress)

/-! ## Parts of statements

Each part is a function of the text ahead and of the outcome of the last expression. Most of them
cannot fail; a value may be missing, a block may have no end, and `operands` asks that the statement
goes on. -/

theorem operands_of_terminated {p : Progress} (h : isTerminated p.rest = true) :
    operands p = .error .badOperands p := by
  show (if isTerminated p.rest = true then (throw .badOperands : Reader Unit)
    else pure ()) p = _
  rw [if_pos h]
  rfl

theorem operands_of_not_terminated {p : Progress} (h : ¬ isTerminated p.rest = true) :
    operands p = .ok () p := by
  show (if isTerminated p.rest = true then (throw .badOperands : Reader Unit)
    else pure ()) p = _
  rw [if_neg h]
  rfl

theorem name_eq :
    name p = .ok (String.ofList (readWord p.rest).1) { p with rest := (readWord p.rest).2 } :=
  rfl

theorem evaluate_eq (text : List Char) :
    evaluate v mode text p =
      match v.value mode text with
      | .ok x => .ok x { p with retained := some (Expr.evaluate v.names text) }
      | .error e => .error e { p with retained := some (Expr.evaluate v.names text) } := by
  show (match Expr.evaluate v.names text with
    | .ok x => (pure x : Reader Float)
    | .error cause =>
      if cause = Expr.Error.divisionByZero ∧ mode.toleratesArithmeticFaults then pure Number.nan
      else throw (Error.badExpression (String.ofList (Text.trim text)) cause))
    { p with retained := some (Expr.evaluate v.names text) } = _
  unfold View.value
  cases Expr.evaluate v.names text with
  | ok x => rfl
  | error cause =>
      dsimp only
      split <;> rfl

theorem param_eq :
    param v mode p =
      match v.value mode (readParam p.rest).1 with
      | .ok x =>
        .ok x ⟨(readParam p.rest).2, some (Expr.evaluate v.names (readParam p.rest).1)⟩
      | .error e =>
        .error e ⟨(readParam p.rest).2, some (Expr.evaluate v.names (readParam p.rest).1)⟩ :=
  evaluate_eq v mode { p with rest := (readParam p.rest).2 } (readParam p.rest).1

theorem values_eq (reads : List (List Char × List Char)) :
    ∃ rest, values v mode reads p =
      match v.values mode p.retained (reads.map Prod.fst) with
      | (.ok xs, retained) => .ok xs ⟨endOfList p.rest reads, retained⟩
      | (.error e, retained) => .error e ⟨rest, retained⟩ := by
  induction reads generalizing p with
  | nil => exact ⟨[], rfl⟩
  | cons read more ih =>
      obtain ⟨text, rest⟩ := read
      have h := evaluate_eq v mode { p with rest } text
      have hgo : goTo rest p = .ok () { p with rest } := rfl
      rw [values, bind_of_ok hgo, List.map_cons, View.values]
      cases hx : v.value mode text with
      | error e =>
          rw [hx] at h
          exact ⟨rest, bind_of_error h⟩
      | ok x =>
          rw [hx] at h
          rw [bind_of_ok h]
          obtain ⟨rest', h'⟩ := ih ⟨rest, some (Expr.evaluate v.names text)⟩
          refine ⟨rest', ?_⟩
          dsimp only at h' ⊢
          rcases hxs : v.values mode (some (Expr.evaluate v.names text)) (more.map Prod.fst) with
            ⟨e | xs, retained⟩
          · rw [hxs] at h'
            exact bind_of_error h'
          · rw [hxs] at h'
            exact bind_of_ok h'

/-- Arguments are read as parameters, unless there are none. -/
theorem arguments_eq_values :
    arguments v mode p = values v mode (argumentTexts p.rest) p := by
  show (if isTerminated p.rest then (pure [] : Reader (List Float))
    else values v mode (readParams p.rest)) p = _
  unfold argumentTexts
  split <;> rfl

theorem arguments_eq :
    ∃ rest, arguments v mode p =
      match v.values mode p.retained ((argumentTexts p.rest).map Prod.fst) with
      | (.ok xs, retained) => .ok xs ⟨endOfList p.rest (argumentTexts p.rest), retained⟩
      | (.error e, retained) => .error e ⟨rest, retained⟩ := by
  rw [arguments_eq_values]
  exact values_eq v mode p _

theorem block_eq (b : Block) :
    block b p =
      match scanBlock b p.rest with
      | .ok marks => .ok marks { p with rest := marks.close }
      | .error rest => .error b.unclosed { p with rest } := by
  show (match scanBlock b p.rest with
    | .ok marks => do
      goTo marks.close
      return marks
    | .error rest => do
      goTo rest
      throw b.unclosed : Reader Landmarks) p = _
  cases scanBlock b p.rest <;> rfl

/-! ## The statements

The cases of an equation are the ways in which the statement can go: without operands, with an
unknown name, with an expression that has no value, with a block that is not closed. In which order
they come is the order in which the reader finds them. -/

theorem assignment_eq :
    assignment v mode p =
      if isTerminated p.rest then .error .badOperands p
      else
        let name := String.ofList (readWord p.rest).1
        let q : Progress := { p with rest := (readWord p.rest).2 }
        if !Chain.contains v.chain name then .error (.undefinedVariable name) q
        else
          match param v mode q with
          | .error e q => .error e q
          | .ok x q =>
            if !mode.performsEffects then .ok .pass q
            else if mode.enforcesReadonly && v.isReadonly name then .error (.readOnly name) q
            else .ok (.assign name x) q := by
  unfold assignment
  by_cases hp : isTerminated p.rest = true
  · rw [if_pos hp, bind_of_error (operands_of_terminated hp)]
  rw [if_neg hp, bind_of_ok (operands_of_not_terminated hp), bind_of_ok (name_eq p)]
  dsimp only
  by_cases hn : (!Chain.contains v.chain (String.ofList (readWord p.rest).1)) = true
  · rw [if_pos hn, if_pos hn]
    rfl
  rw [if_neg hn, if_neg hn]
  cases h : param v mode { p with rest := (readWord p.rest).2 } with
  | error e q => exact bind_of_error h
  | ok x q =>
      refine (bind_of_ok h).trans ?_
      dsimp only
      split
      · rfl
      · split <;> rfl

theorem nativeCall_eq :
    nativeCall v mode p =
      if isTerminated p.rest then .error .badOperands p
      else
        let name := String.ofList (readWord p.rest).1
        let q : Progress := { p with rest := (readWord p.rest).2 }
        if !v.isNative name then .error (.undefinedFunction name) q
        else
          match arguments v mode q with
          | .error e q => .error e q
          | .ok args q => .ok (if mode.performsEffects then .call name args else .pass) q := by
  unfold nativeCall
  by_cases hp : isTerminated p.rest = true
  · rw [if_pos hp, bind_of_error (operands_of_terminated hp)]
  rw [if_neg hp, bind_of_ok (operands_of_not_terminated hp), bind_of_ok (name_eq p)]
  dsimp only
  by_cases hn : (!v.isNative (String.ofList (readWord p.rest).1)) = true
  · rw [if_pos hn, if_pos hn]
    rfl
  rw [if_neg hn, if_neg hn]
  cases h : arguments v mode { p with rest := (readWord p.rest).2 } with
  | error e q => exact bind_of_error h
  | ok args q => exact bind_of_ok h

theorem subroutineCall_eq :
    subroutineCall v mode p =
      if isTerminated p.rest then .error .badOperands p
      else
        let name := String.ofList (readWord p.rest).1
        let q : Progress := { p with rest := (readWord p.rest).2 }
        if mode.performsEffects then
          match v.body? name with
          | none => .error (.undefinedFunction name) q
          | some body =>
            match arguments v mode q with
            | .error e q => .error e q
            | .ok args q => .ok (.invoke name body args) q
        else
          match arguments v mode q with
          | .error e q => .error e q
          | .ok _ q => .ok .pass q := by
  unfold subroutineCall
  by_cases hp : isTerminated p.rest = true
  · rw [if_pos hp, bind_of_error (operands_of_terminated hp)]
  rw [if_neg hp, bind_of_ok (operands_of_not_terminated hp), bind_of_ok (name_eq p)]
  dsimp only
  by_cases hm : mode.performsEffects = true
  · rw [if_pos hm, if_pos hm]
    cases v.body? (String.ofList (readWord p.rest).1) with
    | none => rfl
    | some body =>
        dsimp only
        cases h : arguments v mode { p with rest := (readWord p.rest).2 } with
        | error e q => exact bind_of_error h
        | ok args q => exact bind_of_ok h
  · rw [if_neg hm, if_neg hm]
    cases h : arguments v mode { p with rest := (readWord p.rest).2 } with
    | error e q => exact bind_of_error h
    | ok args q => exact bind_of_ok h

theorem declaration_eq (sort : Declaration) :
    declaration sort p =
      if isTerminated p.rest then .error .badOperands p
      else .ok (.declare sort (readNames p.rest)) p := by
  unfold declaration
  by_cases hp : isTerminated p.rest = true
  · rw [if_pos hp, bind_of_error (operands_of_terminated hp)]
  · rw [if_neg hp, bind_of_ok (operands_of_not_terminated hp)]
    rfl

theorem conditional_eq :
    conditional v mode p =
      if isTerminated p.rest then .error .badOperands p
      else
        match param v mode p with
        | .error e q => .error e q
        | .ok guard q =>
          match scanBlock .conditional q.rest with
          | .error rest => .error .expectedFi { q with rest }
          | .ok marks =>
            if !mode.followsBranches then .ok .pass q
            else if Number.isTrue guard then
              match marks.alternate with
              | some alternate =>
                .ok (.jump ⟨afterTerminator? alternate, oneByteOn marks.close⟩) q
              | none => .ok .pass q
            else .ok .pass { q with rest := marks.alternate.getD marks.close } := by
  unfold conditional
  by_cases hp : isTerminated p.rest = true
  · rw [if_pos hp, bind_of_error (operands_of_terminated hp)]
  rw [if_neg hp, bind_of_ok (operands_of_not_terminated hp)]
  cases h : param v mode p with
  | error e q => exact bind_of_error h
  | ok guard q =>
      refine (bind_of_ok h).trans ?_
      have hget : (get : Reader Progress) q = .ok q q := rfl
      have hblock := block_eq q .conditional
      refine (bind_of_ok hget).trans ?_
      dsimp only
      cases hs : scanBlock .conditional q.rest with
      | error rest =>
          rw [hs] at hblock
          exact bind_of_error hblock
      | ok marks =>
          rw [hs] at hblock
          refine (bind_of_ok hblock).trans ?_
          dsimp only
          split
          · rfl
          · split
            · cases marks.alternate <;> rfl
            · rfl

theorem loop_eq (start : List Char) :
    loop v mode start p =
      if isTerminated p.rest then .error .badOperands p
      else
        match param v mode p with
        | .error e q => .error e q
        | .ok guard q =>
          match scanBlock .loop q.rest with
          | .error rest => .error .expectedDone { q with rest }
          | .ok marks =>
            if !mode.followsBranches then .ok .pass q
            else if Number.isTrue guard then
              .ok (.jump ⟨afterTerminator? marks.close, .before start⟩) q
            else .ok .pass { q with rest := marks.close } := by
  unfold loop
  by_cases hp : isTerminated p.rest = true
  · rw [if_pos hp, bind_of_error (operands_of_terminated hp)]
  rw [if_neg hp, bind_of_ok (operands_of_not_terminated hp)]
  cases h : param v mode p with
  | error e q => exact bind_of_error h
  | ok guard q =>
      refine (bind_of_ok h).trans ?_
      have hget : (get : Reader Progress) q = .ok q q := rfl
      have hblock := block_eq q .loop
      refine (bind_of_ok hget).trans ?_
      dsimp only
      cases hs : scanBlock .loop q.rest with
      | error rest =>
          rw [hs] at hblock
          exact bind_of_error hblock
      | ok marks =>
          rw [hs] at hblock
          refine (bind_of_ok hblock).trans ?_
          dsimp only
          split
          · rfl
          · split <;> rfl

theorem definition_eq :
    definition p =
      if isTerminated p.rest then .error .badOperands p
      else
        let name := String.ofList (readWord p.rest).1
        let q : Progress := { p with rest := (readWord p.rest).2 }
        if name.isEmpty || !isTerminated q.rest then .error .badOperands q
        else
          match scanBlock .definition q.rest with
          | .error rest => .error .expectedEnd { q with rest }
          | .ok marks =>
            let body := bodyBetween q.rest marks.closing
            if body.isEmpty then .error (.emptyFunction name) { q with rest := marks.close }
            else .ok (.define name (String.ofList body)) { q with rest := marks.close } := by
  unfold definition
  by_cases hp : isTerminated p.rest = true
  · rw [if_pos hp, bind_of_error (operands_of_terminated hp)]
  rw [if_neg hp, bind_of_ok (operands_of_not_terminated hp), bind_of_ok (name_eq p)]
  have hget (q : Progress) : (get : Reader Progress) q = .ok q q := rfl
  refine (bind_of_ok (hget _)).trans ?_
  dsimp only
  split
  · rfl
  · have hblock := block_eq { p with rest := (readWord p.rest).2 } .definition
    dsimp only at hblock
    cases hs : scanBlock .definition (readWord p.rest).2 with
    | error rest =>
        rw [hs] at hblock
        exact bind_of_error hblock
    | ok marks =>
        rw [hs] at hblock
        refine (bind_of_ok hblock).trans ?_
        unfold bodyBetween
        dsimp only
        split <;> rfl

theorem result_eq :
    result v mode p =
      if isTerminated p.rest then .error .badOperands p
      else
        match param v mode p with
        | .error e q => .error e q
        | .ok x q => .ok (if mode.performsEffects then .finish (some x) else .pass) q := by
  unfold result
  by_cases hp : isTerminated p.rest = true
  · rw [if_pos hp, bind_of_error (operands_of_terminated hp)]
  rw [if_neg hp, bind_of_ok (operands_of_not_terminated hp)]
  cases h : param v mode p with
  | error e q => exact bind_of_error h
  | ok x q => exact bind_of_ok h

end Reader

end NumScript.Script
