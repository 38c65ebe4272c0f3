import NumScript.Proofs.Script.Validation

set_option autoImplicit false

/-! # Two checks side by side

Two checks of one text that are given different scopes go over the same places in the same order. If
a name means a variable in both or in neither, they differ at most in what they say of an expression.
A *comparison* is a relation between the scopes of two checks under which they find the same verdict
on every expression, but for errors that are *excused*; it has to survive the declaration of names
and a new scope for the body of a subroutine. Under a comparison the two checks end in the same way,
or one of them ends with an excused error (`run_sameEnding`).

## How to use it

A comparison is given by a relation between scopes and a class of excused errors. Its one real
obligation is the verdict on a single expression. With equality and no error excused the two checks
are the same; with equal names and the errors of a quotient excused one gets what values can change.
-/

namespace NumScript.Script

variable {ω σ : Type}

/-! ## Verdicts

The three cases are chosen so that they compose: where a reader goes on with a result, both readers
do, and an excused error of one of them ends the comparison. -/

/-- Both have a result, both fail for the same reason, or one of them fails for an excused one. -/
inductive SameVerdict {α β : Type} (excused : Error → Prop) : Except Error α → Except Error β → Prop
  | ok (a : α) (b : β) : SameVerdict excused (.ok a) (.ok b)
  | error (e : Error) : SameVerdict excused (.error e) (.error e)
  | left {e : Error} (r : Except Error β) : excused e → SameVerdict excused (.error e) r
  | right {e : Error} (r : Except Error α) : excused e → SameVerdict excused r (.error e)

/-- The same for readers, which also leave the same text ahead. -/
inductive SameRead {α β : Type} (excused : Error → Prop) (same : α → β → Prop) :
    EStateM.Result Error Progress α → EStateM.Result Error Progress β → Prop
  | ok {a : α} {b : β} {p q : Progress} : same a b → p.rest = q.rest →
      SameRead excused same (.ok a p) (.ok b q)
  | error (e : Error) (p q : Progress) : SameRead excused same (.error e p) (.error e q)
  | left {e : Error} (p : Progress) (r : EStateM.Result Error Progress β) : excused e →
      SameRead excused same (.error e p) r
  | right {e : Error} (q : Progress) (r : EStateM.Result Error Progress α) : excused e →
      SameRead excused same r (.error e q)

def SameEnding (excused : Error → Prop) (ending ending' : Ending) : Prop :=
  ending = ending' ∨ ∃ e, excused e ∧ (ending = .failed e ∨ ending' = .failed e)

/-! ## Expressions in a check

The values of expressions are not used by a check. Only whether an expression passes is, and a
comparison is a relation under which this is the same. -/

def checkNames (chain : Chain ω) (cells : Cells) : Expr.Names := fun name =>
  if name = "return" then some Number.nan else Chain.value? chain cells name

/-- Whether an expression passes a check. A division by zero does. -/
def checkValue (names : Expr.Names) (text : List Char) : Except Error Unit :=
  match Expr.evaluate names text with
  | .ok _ => .ok ()
  | .error cause =>
    if cause = .divisionByZero then .ok ()
    else .error (.badExpression (String.ofList (Text.trim text)) cause)

theorem checkValue_eq (v : View ω) (text : List Char) :
    checkValue v.names text = (v.value .validate text).map fun _ => () := by
  unfold checkValue View.value
  cases Expr.evaluate v.names text with
  | ok x => rfl
  | error cause =>
      by_cases hc : cause = .divisionByZero
      · simp only [hc, Mode.toleratesArithmeticFaults, and_self, if_true]
        rfl
      · simp only [hc, false_and, if_false]
        rfl

theorem names_eq_checkNames {v : View ω} (h : v.lastReturn = none) :
    v.names = checkNames v.chain v.cells := by
  unfold View.names checkNames
  rw [h]
  rfl

/-- A relation between the scopes of two checks under which they find the same verdict on every
expression, but for excused errors. -/
structure Comparison (excused : Error → Prop)
    (related : Chain ω → Cells → Chain ω → Cells → Prop) : Prop where
  contains : ∀ {chain cells chain' cells'}, related chain cells chain' cells' →
    ∀ name, Chain.contains chain name = Chain.contains chain' name
  value : ∀ {chain cells chain' cells'}, related chain cells chain' cells' →
    ∀ text, SameVerdict excused (checkValue (checkNames chain cells) text)
      (checkValue (checkNames chain' cells') text)
  declare : ∀ {s chain cells s' chain' cells'}, related (s :: chain) cells (s' :: chain') cells' →
    ∀ name, related (s.declare name :: chain) cells (s'.declare name :: chain') cells'
  nest : ∀ {chain cells chain' cells'}, related chain cells chain' cells' →
    related ({} :: chain) cells ({} :: chain') cells'

/-! ## Statements

One lemma for each reader, from its equation. Where both readers succeed they leave the same place,
as both go over one text. -/

/-- What the statements of two checks see, as far as they can tell it apart. -/
structure View.Comparable (excused : Error → Prop) (v v' : View ω) : Prop where
  contains : ∀ name, Chain.contains v.chain name = Chain.contains v'.chain name
  isNative : ∀ name, v.isNative name = v'.isNative name
  value : ∀ text, SameVerdict excused (v.value .validate text) (v'.value .validate text)

theorem View.Comparable.of_comparison {excused : Error → Prop}
    {related : Chain ω → Cells → Chain ω → Cells → Prop} (hc : Comparison excused related)
    {v v' : View ω} (h : related v.chain v.cells v'.chain v'.cells)
    (hnative : v.isNative = v'.isNative) (hv : v.lastReturn = none) (hv' : v'.lastReturn = none) :
    v.Comparable excused v' where
  contains := hc.contains h
  isNative name := by rw [hnative]
  value text := by
    have hverdict := hc.value h text
    rw [← names_eq_checkNames hv, ← names_eq_checkNames hv', checkValue_eq, checkValue_eq]
      at hverdict
    generalize v.value .validate text = r at hverdict ⊢
    generalize v'.value .validate text = r' at hverdict ⊢
    rcases r with e | x <;> rcases r' with e' | x'
    · cases hverdict with
      | error e => exact .error e
      | left _ he => exact .left _ he
      | right _ he => exact .right _ he
    · cases hverdict with
      | left _ he => exact .left _ he
    · cases hverdict with
      | right _ he => exact .right _ he
    · exact .ok x x'

section

variable {excused : Error → Prop} {v v' : View ω} (h : v.Comparable excused v')

include h

theorem View.Comparable.values (texts : List (List Char)) (retained retained' : Expr.Retained) :
    SameVerdict excused (v.values .validate retained texts).1
      (v'.values .validate retained' texts).1 := by
  induction texts generalizing retained retained' with
  | nil => exact .ok [] []
  | cons text more ih =>
      unfold View.values
      have hvalue := h.value text
      dsimp only
      generalize v.value .validate text = r at hvalue ⊢
      generalize v'.value .validate text = r' at hvalue ⊢
      cases hvalue with
      | error e => exact .error e
      | left _ he => exact .left _ he
      | right _ he => exact .right _ he
      | ok x x' =>
          have hmore := ih (some (Expr.evaluate v.names text)) (some (Expr.evaluate v'.names text))
          generalize v.values .validate (some (Expr.evaluate v.names text)) more = r at hmore ⊢
          generalize v'.values .validate (some (Expr.evaluate v'.names text)) more = r' at hmore ⊢
          obtain ⟨xs, retained⟩ := r
          obtain ⟨xs', retained'⟩ := r'
          cases hmore with
          | ok xs xs' => exact .ok _ _
          | error e => exact .error e
          | left _ he => exact .left _ he
          -- whatever becomes of the first list
          | right xs he =>
              cases xs with
              | error e => exact .right _ he
              | ok xs => exact .right _ he

theorem View.Comparable.param (rest : List Char) (retained retained' : Expr.Retained) :
    SameRead excused (fun _ _ => True) (Reader.param v .validate ⟨rest, retained⟩)
      (Reader.param v' .validate ⟨rest, retained'⟩) := by
  rw [Reader.param_eq, Reader.param_eq]
  have hvalue := h.value (readParam rest).1
  generalize v.value .validate (readParam rest).1 = r at hvalue ⊢
  generalize v'.value .validate (readParam rest).1 = r' at hvalue ⊢
  cases hvalue with
  | ok x x' => exact .ok trivial rfl
  | error e => exact .error e _ _
  | left _ he => exact .left _ _ he
  | right _ he => exact .right _ _ he

theorem View.Comparable.arguments (rest : List Char) (retained retained' : Expr.Retained) :
    SameRead excused (fun _ _ => True) (Reader.arguments v .validate ⟨rest, retained⟩)
      (Reader.arguments v' .validate ⟨rest, retained'⟩) := by
  obtain ⟨ahead, heq⟩ := Reader.arguments_eq v .validate ⟨rest, retained⟩
  obtain ⟨ahead', heq'⟩ := Reader.arguments_eq v' .validate ⟨rest, retained'⟩
  have hvalues := h.values ((argumentTexts rest).map Prod.fst) retained retained'
  rw [heq, heq']
  generalize v.values .validate retained ((argumentTexts rest).map Prod.fst) = r at hvalues ⊢
  generalize v'.values .validate retained' ((argumentTexts rest).map Prod.fst) = r' at hvalues ⊢
  obtain ⟨xs, retained⟩ := r
  obtain ⟨xs', retained'⟩ := r'
  cases hvalues with
  | ok xs xs' => exact .ok trivial rfl
  | error e => exact .error e _ _
  | left _ he => exact .left _ _ he
  | right _ he => exact .right _ _ he

variable (start rest : List Char) (retained retained' : Expr.Retained)

theorem assignment_sameRead :
    SameRead excused Eq (Reader.assignment v .validate ⟨rest, retained⟩)
      (Reader.assignment v' .validate ⟨rest, retained'⟩) := by
  rw [Reader.assignment_eq, Reader.assignment_eq]
  dsimp only
  split
  · exact .error _ _ _
  rw [h.contains]
  split
  · exact .error _ _ _
  have hread := h.param (readWord rest).2 retained retained'
  generalize Reader.param v .validate _ = r at hread ⊢
  generalize Reader.param v' .validate _ = r' at hread ⊢
  cases hread with
  | ok _ hrest => exact .ok rfl hrest
  | error e => exact .error e _ _
  | left _ _ he => exact .left _ _ he
  | right _ _ he => exact .right _ _ he

theorem nativeCall_sameRead :
    SameRead excused Eq (Reader.nativeCall v .validate ⟨rest, retained⟩)
      (Reader.nativeCall v' .validate ⟨rest, retained'⟩) := by
  rw [Reader.nativeCall_eq, Reader.nativeCall_eq]
  dsimp only
  split
  · exact .error _ _ _
  rw [h.isNative]
  split
  · exact .error _ _ _
  have hread := h.arguments (readWord rest).2 retained retained'
  generalize Reader.arguments v .validate _ = r at hread ⊢
  generalize Reader.arguments v' .validate _ = r' at hread ⊢
  cases hread with
  | ok _ hrest => exact .ok rfl hrest
  | error e => exact .error e _ _
  | left _ _ he => exact .left _ _ he
  | right _ _ he => exact .right _ _ he

theorem subroutineCall_sameRead :
    SameRead excused Eq (Reader.subroutineCall v .validate ⟨rest, retained⟩)
      (Reader.subroutineCall v' .validate ⟨rest, retained'⟩) := by
  rw [Reader.subroutineCall_eq, Reader.subroutineCall_eq]
  simp only [Mode.performsEffects, Bool.false_eq_true, if_false]
  split
  · exact .error _ _ _
  have hread := h.arguments (readWord rest).2 retained retained'
  generalize Reader.arguments v .validate _ = r at hread ⊢
  generalize Reader.arguments v' .validate _ = r' at hread ⊢
  cases hread with
  | ok _ hrest => exact .ok rfl hrest
  | error e => exact .error e _ _
  | left _ _ he => exact .left _ _ he
  | right _ _ he => exact .right _ _ he

theorem conditional_sameRead :
    SameRead excused Eq (Reader.conditional v .validate ⟨rest, retained⟩)
      (Reader.conditional v' .validate ⟨rest, retained'⟩) := by
  rw [Reader.conditional_eq, Reader.conditional_eq]
  dsimp only
  split
  · exact .error _ _ _
  have hread := h.param rest retained retained'
  generalize Reader.param v .validate _ = r at hread ⊢
  generalize Reader.param v' .validate _ = r' at hread ⊢
  cases hread with
  | @ok _ _ p q _ hrest =>
      dsimp only
      rw [hrest]
      cases scanBlock .conditional q.rest with
      | error rest => exact .error _ _ _
      | ok marks => exact .ok rfl hrest
  | error e => exact .error e _ _
  | left _ _ he => exact .left _ _ he
  | right _ _ he => exact .right _ _ he

theorem loop_sameRead :
    SameRead excused Eq (Reader.loop v .validate start ⟨rest, retained⟩)
      (Reader.loop v' .validate start ⟨rest, retained'⟩) := by
  rw [Reader.loop_eq, Reader.loop_eq]
  dsimp only
  split
  · exact .error _ _ _
  have hread := h.param rest retained retained'
  generalize Reader.param v .validate _ = r at hread ⊢
  generalize Reader.param v' .validate _ = r' at hread ⊢
  cases hread with
  | @ok _ _ p q _ hrest =>
      dsimp only
      rw [hrest]
      cases scanBlock .loop q.rest with
      | error rest => exact .error _ _ _
      | ok marks => exact .ok rfl hrest
  | error e => exact .error e _ _
  | left _ _ he => exact .left _ _ he
  | right _ _ he => exact .right _ _ he

theorem result_sameRead :
    SameRead excused Eq (Reader.result v .validate ⟨rest, retained⟩)
      (Reader.result v' .validate ⟨rest, retained'⟩) := by
  rw [Reader.result_eq, Reader.result_eq]
  dsimp only
  split
  · exact .error _ _ _
  have hread := h.param rest retained retained'
  generalize Reader.param v .validate _ = r at hread ⊢
  generalize Reader.param v' .validate _ = r' at hread ⊢
  cases hread with
  | ok _ hrest => exact .ok rfl hrest
  | error e => exact .error e _ _
  | left _ _ he => exact .left _ _ he
  | right _ _ he => exact .right _ _ he

omit h in
theorem definition_sameRead :
    SameRead excused Eq (Reader.definition ⟨rest, retained⟩)
      (Reader.definition ⟨rest, retained'⟩) := by
  rw [Reader.definition_eq, Reader.definition_eq]
  dsimp only
  split
  · exact .error _ _ _
  split
  · exact .error _ _ _
  cases scanBlock .definition (readWord rest).2 with
  | error rest => exact .error _ _ _
  | ok marks =>
      dsimp only
      split
      · exact .error _ _ _
      · exact .ok rfl rfl

/-- Two checks read the same from a statement. -/
theorem statement_sameRead (k : Keyword) :
    SameRead excused Eq (Reader.statement v .validate start k ⟨rest, retained⟩)
      (Reader.statement v' .validate start k ⟨rest, retained'⟩) := by
  cases k with
  | set => exact assignment_sameRead h rest retained retained'
  | call => exact nativeCall_sameRead h rest retained retained'
  | goto => exact subroutineCall_sameRead h rest retained retained'
  | var | exportVar | pop =>
      simp only [Reader.statement, Reader.declaration_eq]
      split
      · exact .error _ _ _
      · exact .ok rfl rfl
  | ifBlock => exact conditional_sameRead h rest retained retained'
  | whileBlock => exact loop_sameRead h start rest retained retained'
  | define => exact definition_sameRead rest retained retained'
  | returnValue => exact result_sameRead h rest retained retained'
  | exit | elseBranch | fi | done | endDefine => exact .ok rfl rfl

end

/-! ## Steps

Both frames are at the same place of the same text. They differ in their scopes, which compare, and
in the tables of their hosts, which have the same names. -/

/-- Two frames of checks that are at the same place of the same text. -/
structure SameCheck (related : Chain ω → Cells → Chain ω → Cells → Prop)
    (f : Frame ω) (m : Machine ω σ) (f' : Frame ω) (m' : Machine ω σ) : Prop where
  mode : f.mode = .validate
  mode' : f'.mode = .validate
  rest : f.rest = f'.rest
  -- a check never leaves a jump behind
  jumps : f.jumps = []
  jumps' : f'.jumps = []
  chain : related (f.chain m.world) m.world.cells (f'.chain m'.world) m'.world.cells
  lastReturn : m.lastReturn = none
  lastReturn' : m'.lastReturn = none

inductive SameStep (excused : Error → Prop)
    (related : Chain ω → Cells → Chain ω → Cells → Prop) : Step ω σ → Step ω σ → Prop
  | next {f f' : Frame ω} {m m' : Machine ω σ} : SameCheck related f m f' m' →
      SameStep excused related (.next f m) (.next f' m')
  | stop {o o' : Outcome ω σ} : SameEnding excused o.ending o'.ending →
      SameStep excused related (.stop o) (.stop o')
  | left {o : Outcome ω σ} {e : Error} (s : Step ω σ) : excused e → o.ending = .failed e →
      SameStep excused related (.stop o) s
  | right {o : Outcome ω σ} {e : Error} (s : Step ω σ) : excused e → o.ending = .failed e →
      SameStep excused related s (.stop o)

/-- Two ways to run frames that go on in the same way where the frames validate. -/
def SameOnChecks (excused : Error → Prop) (related : Chain ω → Cells → Chain ω → Cells → Prop)
    (callee callee' : Frame ω → Machine ω σ → Outcome ω σ) : Prop :=
  ∀ (f : Frame ω) (m : Machine ω σ) (f' : Frame ω) (m' : Machine ω σ),
    SameCheck related f m f' m' → SameEnding excused (callee f m).ending (callee' f' m').ending

section

variable {excused : Error → Prop} {related : Chain ω → Cells → Chain ω → Cells → Prop}

theorem SameEnding.refl (ending : Ending) : SameEnding excused ending ending :=
  .inl rfl

/-- The outcome of the last expression plays no part in a check. -/
theorem SameCheck.retain {f f' : Frame ω} {m m' : Machine ω σ} (h : SameCheck related f m f' m')
    (retained retained' : Expr.Retained) :
    SameCheck related f { m with retained } f' { m' with retained := retained' } :=
  { h with }

theorem SameCheck.of_sameWorld {f f' : Frame ω} {m m₁ m' m₁' : Machine ω σ}
    (h : SameCheck related f m f' m') (hm : m.SameWorld m₁) (hm' : m'.SameWorld m₁') :
    SameCheck related f m₁ f' m₁' := by
  obtain ⟨r, rfl⟩ := hm
  obtain ⟨r', rfl⟩ := hm'
  exact h.retain r r'

theorem SameCheck.goTo {f f' : Frame ω} {m m' : Machine ω σ} (h : SameCheck related f m f' m')
    (rest : List Char) : SameCheck related { f with rest } m { f' with rest } m' :=
  { h with rest := rfl }

theorem SameCheck.finishStatement {f f' : Frame ω} {m m' : Machine ω σ}
    (h : SameCheck related f m f' m') :
    SameStep excused related (f.finishStatement m) (f'.finishStatement m') := by
  unfold Frame.finishStatement
  rw [h.rest]
  cases afterTerminator? f'.rest with
  | none => exact .stop (.refl _)
  | some rest => exact .next (h.goTo rest)

theorem SameCheck.takeJump {f f' : Frame ω} {m m' : Machine ω σ} (h : SameCheck related f m f' m') :
    f.takeJump = (f, .before f.rest) ∧ f'.takeJump = (f', .before f.rest) := by
  constructor
  · exact Frame.takeJump_of_not_due (by simp [h.jumps])
  · rw [h.rest]
    exact Frame.takeJump_of_not_due (by simp [h.jumps'])

theorem SameOnChecks.enter {callee callee' : Frame ω → Machine ω σ → Outcome ω σ}
    (hc : SameOnChecks excused related callee callee') :
    SameOnChecks excused related (enter callee) (enter callee') := by
  intro f m f' m' h
  unfold Script.enter
  rw [h.rest]
  cases skipGap f'.rest with
  | nil => exact .refl _
  | cons c rest => exact hc _ _ _ _ (h.goTo (c :: rest))

variable (hcomp : Comparison excused related)

include hcomp

theorem declare_sameStep (host host' : Host ω σ) (sort : Declaration) {f f' : Frame ω}
    {m m' : Machine ω σ} (h : SameCheck related f m f' m')
    (names : List (List Char × List Char)) :
    SameStep excused related (declare host sort f m names) (declare host' sort f' m' names) := by
  induction names generalizing f f' with
  | nil => exact h.finishStatement
  | cons read more ih =>
      obtain ⟨word, rest⟩ := read
      unfold declare
      dsimp only
      rw [declareName_validate host sort h.mode, declareName_validate host' sort h.mode']
      split
      · exact .stop (.refl _)
      · exact ih
          { h with rest := rfl, chain := hcomp.declare h.chain (String.ofList word) }

variable {callee callee' : Frame ω → Machine ω σ → Outcome ω σ}
  (hc : SameOnChecks excused related callee callee') (hharm : Harmless callee)
  (hharm' : Harmless callee') {host host' : Host ω σ} {f f' : Frame ω} {m m' : Machine ω σ}
  (h : SameCheck related f m f' m')

include hc hharm hharm' h

theorem perform_sameStep (depth : Nat) {a : Action} (ha : a.IsQuiet) :
    SameStep excused related (perform host callee depth f m a)
      (perform host' callee' depth f' m' a) := by
  cases a with
  | pass => exact h.finishStatement
  | declare sort names => exact declare_sameStep hcomp host host' sort h names
  | define name body =>
      -- each body is checked in front of the chain of its own frame
      have hworld := checkBody_sameWorld hharm f m body
      have hworld' := checkBody_sameWorld hharm' f' m' body
      have hbody : SameEnding excused (checkBody callee f m body).1
          (checkBody callee' f' m' body).1 :=
        hc.enter _ m _ m'
          { mode := rfl, mode' := rfl, rest := rfl, jumps := rfl, jumps' := rfl
            chain := hcomp.nest h.chain
            lastReturn := h.lastReturn, lastReturn' := h.lastReturn' }
      simp only [perform, h.mode, h.mode']
      generalize checkBody callee f m body = r at hworld hbody ⊢
      generalize checkBody callee' f' m' body = r' at hworld' hbody ⊢
      obtain ⟨ending, m₁⟩ := r
      obtain ⟨ending', m₁'⟩ := r'
      rcases hbody with heq | ⟨e, he, heq | heq⟩
      · dsimp only at heq
        subst heq
        cases ending with
        | finished => exact (h.of_sameWorld hworld hworld').finishStatement
        | failed e => exact .stop (.refl _)
        | outOfSteps => exact .stop (.refl _)
      · dsimp only at heq
        subst heq
        exact .left _ he rfl
      · dsimp only at heq
        subst heq
        exact .right _ he rfl
  | assign _ _ | call _ _ | invoke _ _ _ | jump _ | finish _ => exact ha.elim

theorem dispatch_sameStep (hhost : host.SameNames host') (depth : Nat) :
    SameStep excused related (dispatch host callee depth f m)
      (dispatch host' callee' depth f' m') := by
  have hstart : skipGap f'.rest = skipGap f.rest := by rw [h.rest]
  rcases hl : readLeading (skipGap f.rest) with ⟨leading, rest⟩
  have hl' : readLeading (skipGap f'.rest) = (leading, rest) := by rw [hstart, hl]
  cases leading with
  | nothing =>
      rw [dispatch_of_nothing hl, dispatch_of_nothing hl']
      exact .stop (.refl _)
  | unknown word =>
      rw [dispatch_of_unknown hl, dispatch_of_unknown hl']
      exact .stop (.refl _)
  | keyword k =>
      have hview : (f.view host m).Comparable excused (f'.view host' m') :=
        .of_comparison hcomp h.chain (funext hhost) h.lastReturn h.lastReturn'
      have hread := statement_sameRead hview (skipGap f.rest) rest m.retained m'.retained k
      -- both read the statement, or one of them fails; a single failure has to be excused
      rcases hr : Reader.statement (f.view host m) .validate (skipGap f.rest) k ⟨rest, m.retained⟩
        with ⟨a, p⟩ | ⟨e, p⟩ <;>
      rcases hr' : Reader.statement (f'.view host' m') .validate (skipGap f.rest) k
          ⟨rest, m'.retained⟩ with ⟨a', p'⟩ | ⟨e', p'⟩ <;>
      rw [hr, hr'] at hread <;>
      rw [← h.mode] at hr <;>
      rw [← h.mode', ← hstart] at hr'
      · obtain ⟨rfl, hrest⟩ : a = a' ∧ p.rest = p'.rest := by
          cases hread with
          | ok ha hrest => exact ⟨ha, hrest⟩
        rw [dispatch_of_ok hl hr, dispatch_of_ok hl' hr', hrest]
        rw [h.mode] at hr
        exact perform_sameStep hcomp hc hharm hharm'
          ((h.goTo p'.rest).retain p.retained p'.retained) depth
          (quiet_of_asks (asks_of_statement hr))
      · rw [dispatch_of_error hl' hr']
        cases hread with
        | right _ _ he => exact .right _ he rfl
      · rw [dispatch_of_error hl hr]
        cases hread with
        | left _ _ he => exact .left _ he rfl
      · rw [dispatch_of_error hl hr, dispatch_of_error hl' hr']
        cases hread with
        | error => exact .stop (.refl _)
        | left _ _ he => exact .left _ he rfl
        | right _ _ he => exact .right _ he rfl

theorem step_sameStep (hhost : host.SameNames host') (depth : Nat) :
    SameStep excused related (step host callee depth f m) (step host' callee' depth f' m') := by
  obtain ⟨hjump, hjump'⟩ := h.takeJump
  rw [step_of_before (not_observed_of_validate h.mode m) (congrArg Prod.snd hjump),
    step_of_before (not_observed_of_validate h.mode' m') (congrArg Prod.snd hjump'), hjump, hjump']
  exact dispatch_sameStep hcomp hc hharm hharm' (h.goTo f.rest) hhost depth

end

/-- Two checks of one text end in the same way, but for excused errors, when their scopes compare
and their hosts offer functions of the same names. -/
theorem run_sameEnding {excused : Error → Prop}
    {related : Chain ω → Cells → Chain ω → Cells → Prop} (hcomp : Comparison excused related)
    {host host' : Host ω σ} (hhost : host.SameNames host') (steps depth : Nat) :
    SameOnChecks excused related (run host steps depth) (run host' steps depth) := by
  induction steps generalizing depth with
  | zero =>
      intro f m f' m' _
      exact .refl _
  | succ steps ih =>
      intro f m f' m' h
      have hstep := step_sameStep hcomp (ih (depth + 1)) (run_validate host steps (depth + 1))
        (run_validate host' steps (depth + 1)) h hhost depth
      rw [run, run]
      generalize step host (run host steps (depth + 1)) depth f m = s at hstep ⊢
      generalize step host' (run host' steps (depth + 1)) depth f' m' = s' at hstep ⊢
      cases hstep with
      | next h => exact ih depth _ _ _ _ h
      | stop hending => exact hending
      | left _ he hending => exact .inr ⟨_, he, .inl hending⟩
      | right _ he hending => exact .inr ⟨_, he, .inr hending⟩

/-- The same for whole checks of a text. -/
theorem check_sameEnding {excused : Error → Prop}
    {related : Chain ω → Cells → Chain ω → Cells → Prop} (hcomp : Comparison excused related)
    {i i' : Interpreter ω σ} (hhost : i.host.SameNames i'.host) (text : List Char)
    {chain chain' : Option (Chain ω)}
    (h : related (chain.getD i.machine.world.chain) i.machine.world.cells
      (chain'.getD i'.machine.world.chain) i'.machine.world.cells) :
    SameEnding excused (i.check text chain).ending (i'.check text chain').ending :=
  (run_sameEnding hcomp hhost (text.length + 1) 0).enter _ _ _ _
    { mode := rfl, mode' := rfl, rest := rfl, jumps := rfl, jumps' := rfl
      chain := hcomp.nest h, lastReturn := rfl, lastReturn' := rfl }

end NumScript.Script
