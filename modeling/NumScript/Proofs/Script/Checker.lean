import NumScript.Proofs.Script.Lockstep
import NumScript.Proofs.Script.Structured

set_option autoImplicit false

/-! # Validation as a recursive check

What validation looks at, written as a recursion over the tree of a program: each statement once, in
the order of the text, both branches of a conditional, the body of a loop once, and what stands
behind a `return` too. Declared names go into one scope for the whole program, conditionals and
loops included; the body of a subroutine has a scope of its own, in front of the names that are
visible where it is defined. There are no steps, no budget and no jumps.

Validating the text of a program gives what the recursion gives (`Interpreter.validate_eq_check`).
A run of a program in the mode of validation takes one step for a line at most, so `Program.lines`
is budget enough (`run_check`).
-/

namespace NumScript.Script

variable {ω σ : Type}

/-! ## The checker

The recursion is on the program. It takes no steps, keeps no stack and follows no guard, though a
guard has to pass as any other expression, and a local scope is all that it hands on from one
statement to the next. -/

/-- What a check knows, beside the scope that its declarations go into. -/
structure Surroundings (ω : Type) where
  isNative : String → Bool
  cells : Cells
  /-- The scopes behind the one for declarations. -/
  outer : Chain ω

namespace Surroundings

/-- Whether an expression passes, with these local names. -/
def value (w : Surroundings ω) (locals : Scope ω) (text : List Char) : Except Error Unit :=
  checkValue (checkNames (locals :: w.outer) w.cells) text

/-- Whether expressions pass, up to the first that does not. -/
def values (w : Surroundings ω) (locals : Scope ω) (texts : List (List Char)) :
    Except Error Unit :=
  texts.forM (w.value locals)

def nested (w : Surroundings ω) (locals : Scope ω) : Surroundings ω :=
  { w with outer := locals :: w.outer }

end Surroundings

def Simple.check (w : Surroundings ω) (locals : Scope ω) : Simple → Except Error (Scope ω)
  | .set name value =>
    if Chain.contains (locals :: w.outer) name then (w.value locals value).map fun _ => locals
    else .error (.undefinedVariable name)
  | .call name args =>
    if w.isNative name then (w.values locals args).map fun _ => locals
    else .error (.undefinedFunction name)
  -- the subroutine may be defined later
  | .goto _ args => (w.values locals args).map fun _ => locals
  | .declare _ first more => .ok ((first :: more).foldl Scope.declare locals)
  | .result value => (w.value locals value).map fun _ => locals
  | .exit => .ok locals

def Program.isEmpty : Program → Bool
  | .empty => true
  | _ => false

def Program.check (w : Surroundings ω) (locals : Scope ω) : Program → Except Error (Scope ω)
  | .empty => return locals
  | .simple statement next => do
    let locals ← statement.check w locals
    next.check w locals
  | .ifThen guard yes next => do
    w.value locals guard
    let locals ← yes.check w locals
    next.check w locals
  | .ifElse guard yes no next => do
    w.value locals guard
    let locals ← yes.check w locals
    let locals ← no.check w locals
    next.check w locals
  | .loop guard body next => do
    w.value locals guard
    let locals ← body.check w locals
    next.check w locals
  | .define name body next =>
    if body.isEmpty then throw (.emptyFunction name)
    else do
      -- what the body declares stays in it
      let _ ← body.check (w.nested locals) {}
      next.check w locals

theorem Program.isEmpty_eq_false {p : Program} (h : p ≠ .empty) : p.isEmpty = false := by
  cases p <;> first | rfl | exact absurd rfl h

theorem Program.check_define {w : Surroundings ω} {locals : Scope ω} {name : String}
    {body next : Program} (h : body ≠ .empty) :
    (Program.define name body next).check w locals =
      (body.check (w.nested locals) {}).map (fun _ => locals) >>= fun locals =>
        next.check w locals := by
  rw [Program.check, isEmpty_eq_false h]
  cases body.check (w.nested locals) {} <;> rfl

def Ending.ofCheck {α : Type} : Except Error α → Ending
  | .ok _ => .finished
  | .error e => .failed e

/-! ## Simple statements

A statement that is performed in the mode of validation has no effect but on the local scope. What
is left of performing it is the verdict of the checker. -/

def Activation.surroundings (host : Host ω σ) (a : Activation ω) (world : World ω σ) :
    Surroundings ω where
  isNative := Dict.contains host.bindings
  cells := world.cells
  outer := a.outer.getD world.chain

/-- The statement fails like its check, or it leaves behind the scope that the check gives, and
nothing else but the outcome of an expression. -/
def Move.IsChecked (a : Activation ω) (s : Setting ω σ) :
    Except Error (Scope ω) → Move ω σ → Prop
  | .ok locals, m => ∃ retained, m = .next { a with locals } { s with retained }
  | .error e, m => ∃ s', m = .stop (.failed e) s'

section

variable {host : Host ω σ} {runner : Runner ω σ} {depth : Nat} {a : Activation ω}
  {s : Setting ω σ} (ha : a.mode = .validate) (hs : s.lastReturn = none)

include hs in
theorem value_surroundings (text : List Char) :
    (a.surroundings host s.world).value a.locals text =
      ((s.view host a).value .validate text).map fun _ => () := by
  rw [← checkValue_eq, names_eq_checkNames (v := s.view host a) hs]
  rfl

include hs in
theorem values_surroundings (texts : List (List Char)) (retained : Expr.Retained) :
    (a.surroundings host s.world).values a.locals texts =
      ((s.view host a).values .validate retained texts).1.map fun _ => () := by
  induction texts generalizing retained with
  | nil => rfl
  | cons text more ih =>
      show (_ >>= fun _ => (a.surroundings host s.world).values a.locals more) = _
      rw [value_surroundings hs, ih (some (Expr.evaluate (s.view host a).names text)), View.values]
      cases (s.view host a).value .validate text with
      | error e => rfl
      | ok x =>
          dsimp only
          generalize (s.view host a).values .validate _ more = r
          obtain ⟨_ | _, _⟩ := r <;> rfl

include ha

theorem declareNames_validate (sort : Declaration) (names : List String) :
    declareNames host sort a s names =
      .next { a with locals := names.foldl Scope.declare a.locals } s := by
  induction names generalizing a with
  | nil => rfl
  | cons name more ih =>
      rw [declareNames, declareName_validate host sort ha]
      exact @ih { a with locals := a.locals.declare name } ha

include hs

/-- In the mode of validation a simple statement does what its check says. -/
theorem perform_isChecked (statement : Simple) :
    (statement.perform host runner depth a s).IsChecked a s
      (statement.check (a.surroundings host s.world) a.locals) := by
  -- in this mode every statement ends with `pass` or declares names
  cases statement with
  | set name value =>
      have hchain : a.locals :: (a.surroundings host s.world).outer = a.chain s.world := rfl
      simp only [Simple.check, Simple.perform, setVariable, value_surroundings hs, hchain, ha]
      cases Chain.contains (a.chain s.world) name with
      | false => exact ⟨s, rfl⟩
      | true =>
          cases (s.view host a).value .validate value with
          | error e => exact ⟨_, rfl⟩
          | ok x => exact ⟨_, rfl⟩
  | call name args =>
      have hnative : (a.surroundings host s.world).isNative = Dict.contains host.bindings := rfl
      simp only [Simple.check, Simple.perform, callNative, values_surroundings hs _ s.retained,
        hnative, ha]
      cases Dict.contains host.bindings name with
      | false => exact ⟨s, rfl⟩
      | true =>
          rcases (s.view host a).values .validate s.retained args with ⟨e | xs, retained⟩
          · exact ⟨_, rfl⟩
          · exact ⟨_, rfl⟩
  | goto name args =>
      simp only [Simple.check, Simple.perform, callSubroutine, values_surroundings hs _ s.retained,
        ha]
      rcases (s.view host a).values .validate s.retained args with ⟨e | xs, retained⟩
      · exact ⟨_, rfl⟩
      · exact ⟨_, rfl⟩
  | declare sort first more => exact ⟨s.retained, declareNames_validate ha sort _⟩
  | result value =>
      simp only [Simple.check, Simple.perform, value_surroundings hs, ha]
      cases (s.view host a).value .validate value with
      | error e => exact ⟨_, rfl⟩
      | ok x => exact ⟨_, rfl⟩
  | exit =>
      simp only [Simple.check, Simple.perform, ha]
      exact ⟨s.retained, rfl⟩

end

/-! ## Programs

A run in this mode takes its steps one after the other, and the recursion goes into both branches.
The two are brought together by saying how far a run gets with the steps it has. Its parts are
chained: the first branch, the step that leaves it, the second branch, the step behind it, and what
follows. -/

def Program.lines : Program → Nat
  | .empty => 0
  | .simple _ next => 1 + next.lines
  | .ifThen _ yes next => 2 + yes.lines + next.lines
  | .ifElse _ yes no next => 3 + yes.lines + no.lines + next.lines
  | .loop _ body next => 2 + body.lines + next.lines
  | .define _ body next => 2 + body.lines + next.lines

theorem Line.length_pos {k : Keyword} {operands line : List Char} (h : Line k operands line) :
    1 ≤ line.length := by
  cases h with
  | intro _ _ => simp only [List.length_append, List.length_singleton]; omega

/-- A line takes at least its terminator. -/
theorem Written.lines_le {p : Program} {text : List Char} (h : Written p text) :
    p.lines ≤ text.length := by
  induction h with
  | empty => exact Nat.le_refl _
  | simple _ hline _ ih =>
      have := hline.length_pos
      simp only [Program.lines, List.length_append]
      omega
  | ifThen _ hline _ _ hclose _ ihyes ihnext =>
      have := hline.length_pos
      have := hclose.length_pos
      simp only [Program.lines, List.length_append]
      omega
  | ifElse _ hline _ _ hmiddle _ _ hclose _ ihyes ihno ihnext =>
      have := hline.length_pos
      have := hmiddle.length_pos
      have := hclose.length_pos
      simp only [Program.lines, List.length_append]
      omega
  | loop _ hline _ _ hclose _ ihbody ihnext =>
      have := hline.length_pos
      have := hclose.length_pos
      simp only [Program.lines, List.length_append]
      omega
  | define _ _ _ hline _ _ hclose _ ihbody ihnext =>
      have := hline.length_pos
      have := hclose.length_pos
      simp only [Program.lines, List.length_append]
      omega

/-- The result of a run of `steps` steps fails like a check, or it is that of a run which got to the
end of the program, with the scope that the check gives, and spent no more than `spent` steps. -/
def Reaches (host : Host ω σ) (depth : Nat) (outer : List Program) (a : Activation ω)
    (s : Setting ω σ) (steps spent : Nat) (result : Ending × Setting ω σ) :
    Except Error (Scope ω) → Prop
  | .ok locals => ∃ left retained, steps ≤ left + spent ∧
      result = Program.run host left depth .empty outer { a with locals } { s with retained }
  | .error e => ∃ s', result = (.failed e, s')

section

variable {host : Host ω σ} {steps depth : Nat} {outer : List Program} {a : Activation ω}
  {s : Setting ω σ} (ha : a.mode = .validate)

/-- More steps may have been spent. -/
theorem Reaches.mono {spent spent' : Nat} {result : Ending × Setting ω σ}
    {r : Except Error (Scope ω)} (h : Reaches host depth outer a s steps spent result r)
    (hle : spent ≤ spent') : Reaches host depth outer a s steps spent' result r := by
  cases r with
  | error e => exact h
  | ok locals =>
      obtain ⟨left, retained, hsteps, hresult⟩ := h
      exact ⟨left, retained, by omega, hresult⟩

include ha

theorem run_validate_succ (p : Program) :
    Program.run host (steps + 1) depth p outer a s =
      match Program.advance host (Program.start (Program.run host steps (depth + 1))) depth a s p
        outer with
      | .next p outer a s => Program.run host steps depth p outer a s
      | .stop ending s => (ending, s) := by
  have hobserve : ¬ (a.mode.observesTermination && s.world.stopping) = true := by
    rw [ha]
    exact Bool.false_ne_true
  have hstep : Program.step host (Program.start (Program.run host steps (depth + 1))) depth p outer
      a s = Program.advance host (Program.start (Program.run host steps (depth + 1))) depth a s p
        outer := if_neg hobserve
  exact congrArg (fun turn => match turn with
    | .next p outer a s => Program.run host steps depth p outer a s
    | .stop ending s => (ending, s)) hstep

/-- A part of a program is checked, the block around it is left, and what follows is checked. -/
theorem Reaches.andThen {p : Program} {spent spent' : Nat} {result : Ending × Setting ω σ}
    {r : Except Error (Scope ω)} {next : Scope ω → Except Error (Scope ω)}
    (h : Reaches host depth (p :: outer) a s steps spent result r) (hsteps : spent < steps)
    (hnext : ∀ left locals retained, steps ≤ left + 1 + spent →
      Reaches host depth outer { a with locals } { s with retained } left spent'
        (Program.run host left depth p outer { a with locals } { s with retained })
        (next locals)) :
    Reaches host depth outer a s steps (spent + 1 + spent') result (r >>= next) := by
  cases r with
  | error e => exact h
  | ok locals =>
      obtain ⟨left, retained, hle, hresult⟩ := h
      obtain ⟨left, rfl⟩ : ∃ k, left = k + 1 := ⟨left - 1, by omega⟩
      rw [run_validate_succ (a := { a with locals }) ha] at hresult
      have hmore := hnext left locals retained (by omega)
      show Reaches host depth outer a s steps _ result (next locals)
      rw [hresult]
      cases hr : next locals with
      | error e =>
          rw [hr] at hmore
          exact hmore
      | ok locals' =>
          rw [hr] at hmore
          obtain ⟨left', retained', hle', hresult'⟩ := hmore
          exact ⟨left', retained', by omega, hresult'⟩

/-- A guard is checked, and then the branches one after the other, whatever its value is. -/
theorem Reaches.of_branch {guard : List Char} {yes no both : Program × List Program} {p : Program}
    (hs : s.lastReturn = none)
    (hp : ∀ runner : Runner ω σ, Program.advance host runner depth a s p outer =
      Program.branch host a s guard yes no both)
    {spent : Nat} {r : Except Error (Scope ω)}
    (h : ∀ retained, Reaches host depth outer a { s with retained } steps spent
      (Program.run host steps depth both.1 both.2 a { s with retained }) r) :
    Reaches host depth outer a s (steps + 1) (1 + spent)
      (Program.run host (steps + 1) depth p outer a s)
      ((a.surroundings host s.world).value a.locals guard >>= fun _ => r) := by
  rw [run_validate_succ ha, hp, Program.branch, value_surroundings hs, ha]
  cases (s.view host a).value .validate guard with
  | error e => exact ⟨_, rfl⟩
  | ok x =>
      have hboth := h (some (Expr.evaluate (s.view host a).names guard))
      cases r with
      | error e => exact hboth
      | ok locals =>
          obtain ⟨left, retained, hle, hresult⟩ := hboth
          exact ⟨left, retained, by omega, hresult⟩

/-- A statement is performed, and then what follows it is checked. -/
theorem Reaches.of_move {p q : Program} {spent : Nat} {r : Except Error (Scope ω)}
    {next : Scope ω → Except Error (Scope ω)} {m : Move ω σ}
    (hp : Program.advance host (Program.start (Program.run host steps (depth + 1))) depth a s p
      outer = m.turn q outer) (hm : m.IsChecked a s r)
    (hnext : ∀ locals retained,
      Reaches host depth outer { a with locals } { s with retained } steps spent
        (Program.run host steps depth q outer { a with locals } { s with retained })
        (next locals)) :
    Reaches host depth outer a s (steps + 1) (1 + spent)
      (Program.run host (steps + 1) depth p outer a s) (r >>= next) := by
  rw [run_validate_succ ha, hp]
  cases r with
  | error e =>
      obtain ⟨s', rfl⟩ := hm
      exact ⟨s', rfl⟩
  | ok locals =>
      obtain ⟨retained, rfl⟩ := hm
      have hmore := hnext locals retained
      show Reaches host depth outer a s _ _ (Program.run host steps depth q outer _ _) (next locals)
      cases hr : next locals with
      | error e =>
          rw [hr] at hmore
          exact hmore
      | ok locals' =>
          rw [hr] at hmore
          obtain ⟨left, retained', hle, hresult⟩ := hmore
          exact ⟨left, retained', by omega, hresult⟩

/-- The end of a whole program takes one more step. -/
theorem Reaches.ending {spent : Nat} {result : Ending × Setting ω σ} {r : Except Error (Scope ω)}
    (h : Reaches host depth [] a s steps spent result r) (hsteps : spent < steps) :
    result.1 = .ofCheck r ∧
      ∀ locals, r = .ok locals → ∃ retained, result.2 = { s with retained } := by
  cases r with
  | error e =>
      obtain ⟨s', rfl⟩ := h
      exact ⟨rfl, fun _ h => by cases h⟩
  | ok locals =>
      obtain ⟨left, retained, hle, rfl⟩ := h
      obtain ⟨left, rfl⟩ : ∃ k, left = k + 1 := ⟨left - 1, by omega⟩
      rw [run_validate_succ (a := { a with locals }) ha]
      exact ⟨rfl, fun _ _ => ⟨retained, rfl⟩⟩

/-- A definition asks for the check of its body, which leaves no names behind. -/
theorem bind_isChecked {name : String} {body : Program} (hbody : body ≠ .empty) {spent : Nat}
    {r : Except Error (Scope ω)} {inner : Activation ω}
    (hinner : inner = { mode := .validate, outer := some (a.chain s.world) })
    (h : Reaches host (depth + 1) [] inner s steps spent
      (Program.run host steps (depth + 1) body [] inner s) r) (hsteps : spent < steps) :
    (Program.bind (Program.start (Program.run host steps (depth + 1))) a s name body).IsChecked a s
      (r.map fun _ => a.locals) := by
  have hstart : Program.start (Program.run host steps (depth + 1)) body inner s =
      Program.run host steps (depth + 1) body [] inner s := by
    cases body with
    | empty => exact absurd rfl hbody
    | _ => rfl
  obtain ⟨hending, hleft⟩ := h.ending (by rw [hinner]) hsteps
  rw [Program.bind_of_ne_empty hbody, ← hinner, hstart]
  generalize Program.run host steps (depth + 1) body [] inner s = result at hending hleft ⊢
  obtain ⟨ending, s'⟩ := result
  dsimp only at hending hleft
  subst hending
  cases r with
  | error e => exact ⟨s', rfl⟩
  | ok locals =>
      obtain ⟨retained, rfl⟩ := hleft locals rfl
      have hperforms : a.mode.performsEffects = false := by rw [ha]; rfl
      simp only [Ending.ofCheck, hperforms]
      exact ⟨retained, rfl⟩

end

/-- In the mode of validation a run of a program goes as its check says, with one step for each
line. -/
theorem run_reaches (host : Host ω σ) (p : Program) {steps depth : Nat} {outer : List Program}
    {a : Activation ω} {s : Setting ω σ} (hsteps : p.lines ≤ steps) (ha : a.mode = .validate)
    (hs : s.lastReturn = none) :
    Reaches host depth outer a s steps p.lines (Program.run host steps depth p outer a s)
      (p.check (a.surroundings host s.world) a.locals) := by
  induction p generalizing steps depth outer a s with
  | empty => exact ⟨steps, s.retained, Nat.le_refl _, rfl⟩
  | simple statement next ih =>
      rw [Program.lines] at hsteps ⊢
      obtain ⟨steps, rfl⟩ : ∃ k, steps = k + 1 := ⟨steps - 1, by omega⟩
      refine Reaches.of_move ha rfl (perform_isChecked ha hs statement) fun locals retained => ?_
      exact ih (a := { a with locals }) (by omega) ha hs
  | ifThen guard yes next ihyes ihnext =>
      rw [Program.lines] at hsteps ⊢
      obtain ⟨steps, rfl⟩ : ∃ k, steps = k + 1 := ⟨steps - 1, by omega⟩
      refine Reaches.mono (Reaches.of_branch ha hs (fun _ => rfl) fun retained => ?_)
        (show 1 + (yes.lines + 1 + next.lines) ≤ _ by omega)
      refine Reaches.andThen ha (ihyes (by omega) ha hs) (by omega) fun left locals _ hle => ?_
      exact ihnext (a := { a with locals }) (by omega) ha hs
  | ifElse guard yes no next ihyes ihno ihnext =>
      rw [Program.lines] at hsteps ⊢
      obtain ⟨steps, rfl⟩ : ∃ k, steps = k + 1 := ⟨steps - 1, by omega⟩
      refine Reaches.mono (Reaches.of_branch ha hs (fun _ => rfl) fun retained => ?_)
        (show 1 + (yes.lines + 1 + no.lines + 1 + next.lines) ≤ _ by omega)
      -- the first branch is left to the second, and that to what follows
      have hyes := @ihyes steps depth (no :: next :: outer) a { s with retained } (by omega) ha hs
      have hboth : Reaches host depth (next :: outer) a { s with retained } steps
          (yes.lines + 1 + no.lines) _
          (_ >>= fun locals => no.check (a.surroundings host s.world) locals) :=
        hyes.andThen ha (by omega) fun left locals retained hle =>
          @ihno left depth (next :: outer) { a with locals } { s with retained } (by omega) ha hs
      rw [← bind_assoc]
      refine hboth.andThen ha (by omega) fun left locals _ hle => ?_
      exact ihnext (a := { a with locals }) (by omega) ha hs
  | loop guard body next ihbody ihnext =>
      rw [Program.lines] at hsteps ⊢
      obtain ⟨steps, rfl⟩ : ∃ k, steps = k + 1 := ⟨steps - 1, by omega⟩
      refine Reaches.mono (Reaches.of_branch ha hs (fun _ => rfl) fun retained => ?_)
        (show 1 + (body.lines + 1 + next.lines) ≤ _ by omega)
      refine Reaches.andThen ha (ihbody (by omega) ha hs) (by omega) fun left locals _ hle => ?_
      exact ihnext (a := { a with locals }) (by omega) ha hs
  | define name body next ihbody ihnext =>
      rw [Program.lines] at hsteps ⊢
      obtain ⟨steps, rfl⟩ : ∃ k, steps = k + 1 := ⟨steps - 1, by omega⟩
      by_cases hbody : body = .empty
      · subst hbody
        rw [run_validate_succ ha]
        exact ⟨s, rfl⟩
      -- the body is checked from the start, in a run of its own
      have hcheck := @ihbody steps (depth + 1) []
        { mode := .validate, outer := some (a.chain s.world) } s (by omega) rfl hs
      have hmove := @bind_isChecked _ _ host steps depth a s ha name body hbody _ _ _ rfl hcheck
        (by omega)
      rw [Program.check_define hbody]
      refine Reaches.mono (Reaches.of_move ha rfl hmove fun locals retained => ?_)
        (show 1 + next.lines ≤ _ by omega)
      exact ihnext (a := { a with locals }) (by omega) ha hs

/-! ## Validating

The simulation of texts by programs gives the run of a program in this mode, and the part above
gives the verdict. The number of steps of a check is more than the number of lines. -/

/-- Under the same scopes and cells no error has to be excused. -/
theorem comparison_eq : Comparison (ω := ω) (fun _ => False)
    fun chain cells chain' cells' => chain = chain' ∧ cells = cells' where
  contains := by
    rintro _ _ _ _ ⟨rfl, rfl⟩ _
    rfl
  value := by
    rintro chain cells _ _ ⟨rfl, rfl⟩ text
    cases checkValue (checkNames chain cells) text with
    | error e => exact .error e
    | ok => exact .ok _ _
  declare := by
    rintro _ _ _ _ _ _ ⟨h, rfl⟩ _
    cases h
    exact ⟨rfl, rfl⟩
  nest := by
    rintro _ _ _ _ ⟨rfl, rfl⟩
    exact ⟨rfl, rfl⟩

/-- The subroutines of an interpreter play no part in a check. -/
theorem Interpreter.check_of_functions (i : Interpreter ω σ) (functions : Functions)
    (text : List Char) (chain : Option (Chain ω)) :
    (i.check text chain).ending =
      (Interpreter.check { i with machine := { i.machine with functions } } text chain).ending := by
  have hsame := @check_sameEnding _ _ _ _ comparison_eq i
    { i with machine := { i.machine with functions } } (fun _ => rfl) text chain chain ⟨rfl, rfl⟩
  exact hsame.resolve_right fun ⟨_, h, _⟩ => h

/-- Validation of the text of a program gives what the recursive check of the program gives, for any
interpreter and any names to check against. -/
theorem Interpreter.validate_eq_check (i : Interpreter ω σ) {p : Program} {script : String}
    (hscript : IsScript p script.toList) (hp : p ≠ .empty) (chain : Option (Chain ω)) :
    (i.validate script chain).1 = .ofCheck (p.check
      { isNative := Dict.contains i.host.bindings, cells := i.machine.world.cells
        outer := chain.getD i.machine.world.chain } {}) := by
  let steps := script.toList.length + 1
  let a : Activation ω := { mode := .validate, outer := chain }
  let s : Setting ω σ := { world := i.machine.world, retained := i.machine.retained }
  have hagrees : Agrees (run i.host steps 0) (Program.start (Program.run i.host steps 0)) :=
    agrees_of_follows fun _ _ _ _ _ hat hm => run_follows i.host steps 0 hat hm
  obtain ⟨hending, -⟩ := hagrees a hscript (s := s) (m := s.machine {}) ⟨{}, .nil, rfl⟩
  -- a check has more steps than its program has lines
  have hlines : p.lines ≤ script.toList.length := by
    obtain ⟨lines, trail, htext, hlines, -⟩ := hscript
    rw [htext, List.length_append]
    exact Nat.le_trans hlines.lines_le (Nat.le_add_right _ _)
  have hreaches := @run_reaches _ _ i.host p steps 0 [] a s (by omega) rfl rfl
  have hstart : Program.start (Program.run i.host steps 0) p a s =
      Program.run i.host steps 0 p [] a s := by
    cases p with
    | empty => exact absurd rfl hp
    | _ => rfl
  have hcheck := i.check_of_functions {} script.toList chain
  calc (i.validate script chain).1
      = (i.check script.toList chain).ending := rfl
    _ = _ := hcheck
    _ = _ := hending
    _ = _ := by rw [hstart]; exact (hreaches.ending rfl (by omega)).1

/-- The main statement for a script in which both branches, the body of a loop and what follows an
`exit` pass, although a divisor is zero and a subroutine is unknown. The name that the body of `f`
declares is unknown after it. -/
theorem Interpreter.validate_eq_check_undefined :
    let i : Interpreter Unit Unit := .ofWorld { notify := fun _ _ w => w }
      { root := ⟨[("x", Variable.ofNumber 0.0)]⟩, state := () } {}
    let p : Program := .define "f"
      (.simple (.declare .var "y" []) (.simple (.set "y" "1".toList) .empty))
      (.ifElse "x".toList (.simple (.set "x" "1/0".toList) .empty)
        (.simple (.goto "g" []) .empty)
        (.loop "x".toList (.simple .exit .empty) (.simple (.set "y" "2".toList) .empty)))
    let script :=
      "define f; var y;set y 1;end;if x;set x 1/0;else;goto g;fi;while x;exit;done;set y 2;"
    IsScript p script.toList ∧ p ≠ .empty ∧
      (i.validate script none).1 = .failed (.undefinedVariable "y") ∧
      .ofCheck (p.check ⟨fun _ => false, {}, i.machine.world.chain⟩ {}) =
        Ending.failed (.undefinedVariable "y") := by
  intro i p script
  have hspace : IsGap " ".toList := .blank rfl .nil
  have hident {name : String} {c : Char} (hname : name.toList = [c])
      (hc : Expr.isWordStart c = true) : IsIdentifier name :=
    ⟨c, [], hname, hc, fun _ h => absurd h List.not_mem_nil⟩
  have hf : IsIdentifier "f" := hident rfl rfl
  have hg : IsIdentifier "g" := hident rfl rfl
  have hx : IsIdentifier "x" := hident rfl rfl
  have hy : IsIdentifier "y" := hident rfl rfl
  have hexpr {e : List Char} (h : IsExpression e) : ExpressionText e (" ".toList ++ (e ++ [])) :=
    .intro hspace h .nil
  have hbody : Written (.simple (.declare .var "y" []) (.simple (.set "y" "1".toList) .empty)) _ :=
    .simple (.declare (.one hspace hy .nil)) (.intro hspace (by decide))
      (.simple (.set hspace hy (hexpr (by decide)) (by decide)) (.intro .nil (by decide)) .empty)
  have hyes : Written (.simple (.set "x" "1/0".toList) .empty) _ :=
    .simple (.set hspace hx (hexpr (by decide)) (by decide)) (.intro .nil (by decide)) .empty
  have hno : Written (.simple (.goto "g" []) .empty) _ :=
    .simple (.goto (.plain hspace hg .nil)) (.intro .nil (by decide)) .empty
  have hexit : Written (.simple .exit .empty) _ :=
    .simple (.exit .nil) (.intro .nil (by decide)) .empty
  have hlast : Written (.simple (.set "y" "2".toList) .empty) _ :=
    .simple (.set hspace hy (hexpr (by decide)) (by decide)) (.intro .nil (by decide)) .empty
  have hloop : Written _ _ :=
    .loop (hexpr (e := "x".toList) (by decide)) (.intro .nil (by decide)) hexit .nil
      (.intro .nil (by decide)) hlast
  have hif : Written _ _ :=
    .ifElse (hexpr (e := "x".toList) (by decide)) (.intro .nil (by decide)) hyes .nil
      (.intro .nil (by decide)) hno .nil (.intro .nil (by decide)) hloop
  have hlines : Written p _ :=
    .define hspace hf .nil (.intro .nil (by decide)) hbody .nil (.intro .nil (by decide)) hif
  have hscript : IsScript p
      "define f; var y;set y 1;end;if x;set x 1/0;else;goto g;fi;while x;exit;done;set y 2;".toList :=
    ⟨_, [], rfl, hlines, .gap .nil⟩
  have hp : p ≠ .empty := by simp [p]
  have hcheck := i.validate_eq_check hscript hp none
  have hundefined : Ending.ofCheck (p.check ⟨fun _ => false, {}, i.machine.world.chain⟩ {}) =
      .failed (.undefinedVariable "y") := by
    decide +kernel
  exact ⟨hscript, hp, hcheck.trans hundefined, hundefined⟩

end NumScript.Script
