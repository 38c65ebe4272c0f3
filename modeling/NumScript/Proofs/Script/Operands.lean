import NumScript.Proofs.Script.Lines

set_option autoImplicit false

/-! # The operands of a program's statements

What the readers of statements make of a line of a program: they find the names and the expressions
that are written there, whatever gaps there are, and the places where the branches of its block
start and end. So what they return is said in terms of names and expressions, with the text of the
line gone.
-/

namespace NumScript.Script

variable {ω : Type}

/-! ## Names and lists

The name that comes first in most statements, and the lists that follow it. -/

theorem not_isTerminated_of_isWord {gap word : List Char} (hgap : IsGap gap) (hword : IsWord word)
    (text : List Char) : ¬ isTerminated (skipGap (gap ++ (word ++ text))) = true := by
  rw [hgap.skipGap_append, hword.skipGap_append]
  obtain ⟨c, rest, rfl⟩ := List.exists_cons_of_ne_nil hword.1
  intro hterm
  obtain ⟨next, hnext⟩ := exists_of_isTerminated hterm
  injection hnext with hc _
  have hchar := hword.2 c (.head _)
  rw [hc] at hchar
  exact absurd hchar (by decide)

/-- The name of a call is read, and then its arguments. -/
theorem CallText.read {name : String} {args : List (List Char)} {text : List Char}
    (h : CallText name args text) (more : List Char) :
    ∃ rest, readWord (text ++ ';' :: more) = (name.toList, rest) ∧
      List.Forall₂ SameExpression args ((argumentTexts rest).map Prod.fst) ∧
      endOfList rest (argumentTexts rest) = ';' :: more ∧
      ¬ isTerminated (skipGap (text ++ ';' :: more)) = true := by
  cases h with
  | @plain before after hbefore hname hafter =>
      have hassoc : before ++ (name.toList ++ after) ++ ';' :: more =
          before ++ (name.toList ++ (after ++ ';' :: more)) := by simp
      rw [hassoc]
      refine ⟨';' :: more, ?_, .nil, rfl, not_isTerminated_of_isWord hbefore hname.isWord _⟩
      rw [readWord_append_of_isWord hbefore hname.isWord (endsWord_of_isGap hafter rfl more),
        hafter.skipGap_terminator]
  | @args _ before text hbefore hname hargs hends =>
      have hassoc : before ++ (name.toList ++ text) ++ ';' :: more =
          before ++ (name.toList ++ (text ++ ';' :: more)) := by simp
      have hnot : ¬ isTerminated (skipGap (text ++ ';' :: more)) = true := by
        cases hargs with
        | one h => exact h.isTerminated _
        | more h _ =>
            rw [List.append_assoc]
            exact h.isTerminated _
      obtain ⟨hsame, hend⟩ := hargs.readParams more (skipGap (text ++ ';' :: more))
      rw [hassoc]
      refine ⟨_, readWord_append_of_isWord hbefore hname.isWord (hends.append more), ?_, ?_,
        not_isTerminated_of_isWord hbefore hname.isWord _⟩
      · rw [argumentTexts, if_neg hnot, readParams_skipGap]
        exact hsame
      · rw [argumentTexts, if_neg hnot, readParams_skipGap]
        exact hend

/-- The name and the value of an assignment are read. -/
theorem OperandsText.read_set {name : String} {e text : List Char}
    (h : OperandsText (.set name e) text) (more : List Char) :
    ∃ rest e', readWord (text ++ ';' :: more) = (name.toList, rest) ∧
      readParam rest = (e', ';' :: more) ∧ SameExpression e e' ∧
      ¬ isTerminated (skipGap (text ++ ';' :: more)) = true := by
  cases h with
  | @set _ _ before text hbefore hname he hends =>
      obtain ⟨e', hread, hsame⟩ := he.readParam (.inl rfl) more
      have hassoc : before ++ (name.toList ++ text) ++ ';' :: more =
          before ++ (name.toList ++ (text ++ ';' :: more)) := by simp
      rw [hassoc]
      refine ⟨_, e', readWord_append_of_isWord hbefore hname.isWord (hends.append more), ?_, hsame,
        not_isTerminated_of_isWord hbefore hname.isWord _⟩
      rw [readParam_skipGap, hread]

theorem NamesText.not_isTerminated {first : String} {names : List String} {text : List Char}
    (h : NamesText first names text) (more : List Char) :
    ¬ isTerminated (skipGap (text ++ more)) = true := by
  cases h with
  | one hbefore hname _ | more hbefore hname _ _ =>
      rw [List.append_assoc, List.append_assoc]
      exact not_isTerminated_of_isWord hbefore hname.isWord _

/-- The name of a definition is read. -/
theorem read_define {name : String} {before after : List Char} (hbefore : IsGap before)
    (hname : IsIdentifier name) (hafter : IsGap after) (more : List Char) :
    readWord (before ++ (name.toList ++ after) ++ ';' :: more) = (name.toList, ';' :: more) := by
  rw [List.append_assoc, List.append_assoc,
    readWord_append_of_isWord hbefore hname.isWord (endsWord_of_isGap hafter rfl more),
    hafter.skipGap_terminator]

/-! ## Expressions

An expression is read with other blanks around it than it was written with, so the values are
compared by what they mean and how they are quoted in errors. -/

theorem View.value_congr {v v' : View ω} (h : v.names = v'.names) (mode : Mode) {e e' : List Char}
    (hsame : SameExpression e e') : v.value mode e = v'.value mode e' := by
  unfold View.value
  rw [h, hsame.1 v'.names, hsame.2]

theorem View.values_congr {v v' : View ω} (h : v.names = v'.names) (mode : Mode)
    {es es' : List (List Char)} (hsame : List.Forall₂ SameExpression es es')
    (retained : Expr.Retained) : v.values mode retained es = v'.values mode retained es' := by
  induction hsame generalizing retained with
  | nil => rfl
  | @cons e e' es es' he _ ih =>
      unfold View.values
      dsimp only
      rw [View.value_congr h mode he, h, he.1 v'.names, ih]

section

variable (v : View ω) (mode : Mode) (retained : Expr.Retained)

/-- An expression is read and evaluated. -/
theorem param_of_expression {e text : List Char} (h : ExpressionText e text) (more : List Char) :
    Reader.param v mode ⟨skipGap (text ++ ';' :: more), retained⟩ =
      match v.value mode e with
      | .ok x => .ok x ⟨';' :: more, some (Expr.evaluate v.names e)⟩
      | .error err => .error err ⟨';' :: more, some (Expr.evaluate v.names e)⟩ := by
  obtain ⟨e', hread, hsame⟩ := h.readParam (.inl rfl) more
  have hvalue := @View.value_congr _ v v rfl mode e e' hsame
  have heval := hsame.1 v.names
  rw [Reader.param_eq, readParam_skipGap, hread]
  dsimp only
  cases hx : v.value mode e' with
  | error err => simp only [hvalue, heval, hx]
  | ok x => simp only [hvalue, heval, hx]

/-- The arguments of a call are read and evaluated. -/
theorem arguments_of_texts {es : List (List Char)} {rest more : List Char}
    (hsame : List.Forall₂ SameExpression es ((argumentTexts rest).map Prod.fst))
    (hend : endOfList rest (argumentTexts rest) = ';' :: more) :
    ∃ ahead, Reader.arguments v mode ⟨rest, retained⟩ =
      match v.values mode retained es with
      | (.ok xs, retained) => .ok xs ⟨';' :: more, retained⟩
      | (.error err, retained) => .error err ⟨ahead, retained⟩ := by
  have hvalues := @View.values_congr _ v v rfl mode es _ hsame retained
  obtain ⟨ahead, hread⟩ := Reader.arguments_eq v mode ⟨rest, retained⟩
  refine ⟨ahead, ?_⟩
  rcases hxs : v.values mode retained es with ⟨err | xs, retained'⟩
  · simp only [hread, ← hvalues, hxs]
  · simp only [hread, hend, ← hvalues, hxs]

end

section

variable (v : View ω) (mode : Mode) (retained : Expr.Retained)

theorem assignment_of_text {name : String} {e text : List Char}
    (h : OperandsText (.set name e) text) (more : List Char) :
    ∃ ahead, Reader.assignment v mode ⟨skipGap (text ++ ';' :: more), retained⟩ =
      if !Chain.contains v.chain name then .error (.undefinedVariable name) ⟨ahead, retained⟩
      else
        let p : Progress := ⟨';' :: more, some (Expr.evaluate v.names e)⟩
        match v.value mode e with
        | .error err => .error err p
        | .ok x =>
          if !mode.performsEffects then .ok .pass p
          else if mode.enforcesReadonly && v.isReadonly name then .error (.readOnly name) p
          else .ok (.assign name x) p := by
  obtain ⟨rest, e', hword, hparam, hsame, hnot⟩ := h.read_set more
  refine ⟨rest, ?_⟩
  rw [Reader.assignment_eq, if_neg hnot, readWord_skipGap, hword]
  dsimp only
  rw [String.ofList_toList, Reader.param_eq]
  dsimp only
  rw [hparam]
  dsimp only
  rw [View.value_congr rfl mode hsame, hsame.1 v.names]
  cases v.value mode e' <;> rfl

theorem nativeCall_of_text {name : String} {args : List (List Char)} {text : List Char}
    (h : CallText name args text) (more : List Char) :
    ∃ ahead, Reader.nativeCall v mode ⟨skipGap (text ++ ';' :: more), retained⟩ =
      if !v.isNative name then .error (.undefinedFunction name) ⟨ahead, retained⟩
      else
        match v.values mode retained args with
        | (.error err, retained) => .error err ⟨ahead, retained⟩
        | (.ok xs, retained) =>
          .ok (if mode.performsEffects then .call name xs else .pass) ⟨';' :: more, retained⟩ := by
  obtain ⟨rest, hword, hsame, hend, hnot⟩ := h.read more
  obtain ⟨ahead, hargs⟩ := arguments_of_texts v mode retained hsame hend
  by_cases hn : (!v.isNative name) = true
  · refine ⟨rest, ?_⟩
    rw [Reader.nativeCall_eq, if_neg hnot, readWord_skipGap, hword]
    dsimp only
    rw [String.ofList_toList, if_pos hn, if_pos hn]
  · refine ⟨ahead, ?_⟩
    rw [Reader.nativeCall_eq, if_neg hnot, readWord_skipGap, hword]
    dsimp only
    rw [String.ofList_toList, if_neg hn, if_neg hn, hargs]
    rcases v.values mode retained args with ⟨err | xs, retained'⟩ <;> rfl

theorem subroutineCall_of_text {name : String} {args : List (List Char)} {text : List Char}
    (h : CallText name args text) (more : List Char) :
    ∃ ahead, Reader.subroutineCall v mode ⟨skipGap (text ++ ';' :: more), retained⟩ =
      match mode.performsEffects, v.body? name with
      | true, none => .error (.undefinedFunction name) ⟨ahead, retained⟩
      | true, some body =>
        match v.values mode retained args with
        | (.error err, retained) => .error err ⟨ahead, retained⟩
        | (.ok xs, retained) => .ok (.invoke name body xs) ⟨';' :: more, retained⟩
      | false, _ =>
        match v.values mode retained args with
        | (.error err, retained) => .error err ⟨ahead, retained⟩
        | (.ok _, retained) => .ok .pass ⟨';' :: more, retained⟩ := by
  obtain ⟨rest, hword, hsame, hend, hnot⟩ := h.read more
  obtain ⟨ahead, hargs⟩ := arguments_of_texts v mode retained hsame hend
  rw [Reader.subroutineCall_eq, if_neg hnot, readWord_skipGap, hword]
  dsimp only
  rw [String.ofList_toList, hargs]
  cases mode.performsEffects with
  | false =>
      refine ⟨ahead, ?_⟩
      rcases v.values mode retained args with ⟨err | xs, retained'⟩ <;> rfl
  | true =>
      cases v.body? name with
      | none => exact ⟨rest, rfl⟩
      | some body =>
          refine ⟨ahead, ?_⟩
          rcases v.values mode retained args with ⟨err | xs, retained'⟩ <;> rfl

end

/-! ## Blocks

A header with a guard chooses one of several ways to go on. They are given as data, so that the text
and the program can be compared by comparing ways. -/

/-- A way to go on from a header: the text ahead, and perhaps a jump that waits. -/
structure Way where
  jump? : Option Jump := none
  ahead : List Char

def Way.action (way : Way) : Action :=
  match way.jump? with
  | some j => .jump j
  | none => .pass

section

variable (v : View ω) (mode : Mode) (retained : Expr.Retained)

/-- A header whose guard chooses between ways, before its block is looked at. -/
def readGuard (guard inner : List Char) (yes no both : Way) :
    EStateM.Result Error Progress Action :=
  let retained := some (Expr.evaluate v.names guard)
  match v.value mode guard with
  | .error e => .error e ⟨';' :: inner, retained⟩
  | .ok x =>
    let way := Program.choose mode x yes no both
    .ok way.action ⟨';' :: way.ahead, retained⟩

theorem readGuard_eq (guard inner : List Char) (yes no both : Way) :
    readGuard v mode guard inner yes no both =
      let retained := some (Expr.evaluate v.names guard)
      match v.value mode guard with
      | .error e => .error e ⟨';' :: inner, retained⟩
      | .ok x =>
        if !mode.followsBranches then .ok both.action ⟨';' :: both.ahead, retained⟩
        else if Number.isTrue x then .ok yes.action ⟨';' :: yes.ahead, retained⟩
        else .ok no.action ⟨';' :: no.ahead, retained⟩ := by
  unfold readGuard Program.choose
  cases v.value mode guard with
  | error e => rfl
  | ok x =>
      dsimp only
      split
      · rfl
      · split <;> rfl

/-- The header of a conditional goes on with a branch. A jump waits after the first of two. -/
theorem conditional_of_text {guard text inner after closing : List Char}
    (alternate : Option (List Char)) (h : ExpressionText guard text)
    (hscan : scanBlock .conditional (';' :: inner) =
      .ok { close := ';' :: after, alternate := alternate.map (';' :: ·), closing }) :
    Reader.conditional v mode ⟨skipGap (text ++ ';' :: inner), retained⟩ =
      readGuard v mode guard inner
        { jump? := alternate.map fun second => ⟨some second, .before after⟩, ahead := inner }
        { ahead := alternate.getD after } { ahead := inner } := by
  rw [Reader.conditional_eq, if_neg (h.isTerminated _), param_of_expression _ _ _ h, readGuard_eq]
  cases v.value mode guard with
  | error e => rfl
  | ok x =>
      dsimp only
      rw [hscan]
      cases alternate <;> rfl

/-- The header of a loop goes on with the body, and a jump back to the header waits after it. -/
theorem loop_of_text {guard text inner after closing : List Char} (start : List Char)
    (h : ExpressionText guard text)
    (hscan : scanBlock .loop (';' :: inner) =
      .ok { close := ';' :: after, alternate := none, closing }) :
    Reader.loop v mode start ⟨skipGap (text ++ ';' :: inner), retained⟩ =
      readGuard v mode guard inner
        { jump? := some ⟨some after, .before start⟩, ahead := inner }
        { ahead := after } { ahead := inner } := by
  rw [Reader.loop_eq, if_neg (h.isTerminated _), param_of_expression _ _ _ h, readGuard_eq]
  cases v.value mode guard with
  | error e => rfl
  | ok x =>
      dsimp only
      rw [hscan]
      rfl

end

/-- The header of a definition binds the text up to the line that closes it. -/
theorem definition_of_text {name : String} {before behind inner after closing : List Char}
    (retained : Expr.Retained) (hbefore : IsGap before) (hname : IsIdentifier name)
    (hbehind : IsGap behind)
    (hscan : scanBlock .definition (';' :: inner) =
      .ok { close := ';' :: after, alternate := none, closing }) :
    Reader.definition ⟨skipGap (before ++ (name.toList ++ behind) ++ ';' :: inner), retained⟩ =
      let body := bodyBetween (';' :: inner) closing
      if body.isEmpty then .error (.emptyFunction name) ⟨';' :: after, retained⟩
      else .ok (.define name (String.ofList body)) ⟨';' :: after, retained⟩ := by
  have hnot : ¬ isTerminated
      (skipGap (before ++ (name.toList ++ behind) ++ ';' :: inner)) = true := by
    rw [List.append_assoc, List.append_assoc]
    exact not_isTerminated_of_isWord hbefore hname.isWord _
  -- the name is there, and nothing but a gap between it and the terminator
  have hheader : ¬ (name.isEmpty || !isTerminated (';' :: inner)) = true := by
    have hempty : name.isEmpty = false := by
      have hne := hname.isWord.1
      simpa [String.toList_eq_nil_iff] using hne
    rw [hempty]
    exact Bool.false_ne_true
  rw [Reader.definition_eq, if_neg hnot, readWord_skipGap, read_define hbefore hname hbehind]
  dsimp only
  rw [String.ofList_toList, if_neg hheader, hscan]

/-! ## Bodies

The body that is bound is cut out of the text between two gaps. It is the text of the program that
was written there. -/

/-- Lines of statements start with a keyword, after a gap that does not matter. -/
theorem Written.exists_skipGap {p : Program} {text : List Char} (h : Written p text)
    (hp : p ≠ .empty) :
    ∃ text', Written p text' ∧ text' ≠ [] ∧ ∀ more, skipGap (text ++ more) = text' ++ more := by
  have hfirst {k : Keyword} {operands line : List Char} (hline : Line k operands line)
      (rest : List Char) : ∃ line', Line k operands line' ∧ line' ++ rest ≠ [] ∧
        ∀ more, skipGap (line ++ rest ++ more) = line' ++ rest ++ more := by
    obtain ⟨line', hline', hskip⟩ := hline.exists_skipGap
    refine ⟨line', hline', List.append_ne_nil_of_left_ne_nil hline'.ne_nil rest, fun more => ?_⟩
    rw [List.append_assoc, hskip, List.append_assoc]
  cases h with
  | empty => exact absurd rfl hp
  | simple hoperands hline hnext =>
      obtain ⟨line', hline', hne, hskip⟩ := hfirst hline _
      exact ⟨_, .simple hoperands hline' hnext, hne, hskip⟩
  | ifThen hguard hline hyes hgap hclose hnext =>
      obtain ⟨line', hline', hne, hskip⟩ := hfirst hline _
      exact ⟨_, .ifThen hguard hline' hyes hgap hclose hnext, hne, hskip⟩
  | ifElse hguard hline hyes hgap hmiddle hno hgap' hclose hnext =>
      obtain ⟨line', hline', hne, hskip⟩ := hfirst hline _
      exact ⟨_, .ifElse hguard hline' hyes hgap hmiddle hno hgap' hclose hnext, hne, hskip⟩
  | loop hguard hline hbody hgap hclose hnext =>
      obtain ⟨line', hline', hne, hskip⟩ := hfirst hline _
      exact ⟨_, .loop hguard hline' hbody hgap hclose hnext, hne, hskip⟩
  | define hbefore hname hbehind hline hbody hgap hclose hnext =>
      obtain ⟨line', hline', hne, hskip⟩ := hfirst hline _
      exact ⟨_, .define hbefore hname hbehind hline' hbody hgap hclose hnext, hne, hskip⟩

/-- The body of a subroutine is the text of its program. -/
theorem Written.bodyBetween {p : Program} {text : List Char} (h : Written p text) (hp : p ≠ .empty)
    (closing : List Char) :
    ∃ body, Written p body ∧ body ≠ [] ∧
      NumScript.Script.bodyBetween (';' :: (text ++ closing)) closing = body := by
  obtain ⟨body, hbody, hne, hskip⟩ := h.exists_skipGap hp
  refine ⟨body, hbody, hne, ?_⟩
  rw [bodyBetween_terminator, hskip, List.length_append, Nat.add_sub_cancel, List.take_left]

end NumScript.Script
