import NumScript.Proofs.Script.Dispatch
import NumScript.Proofs.Script.Operands

set_option autoImplicit false

/-! # Simple statements in a text and in a program

A line with a simple statement does in a run what the statement does in a program
(`dispatch_performs`). The two keep their subroutines in different ways, one as texts and one as
programs; everything else they share.
-/

namespace NumScript

/-! ## Tables with the same names

Both tables are changed by the same definitions in the same order, so they have the same names in
the same places, and only the values differ in kind. -/

def Dict.Related {α β : Type} (r : α → β → Prop) (d : Dict α) (e : Dict β) : Prop :=
  List.Forall₂ (fun x y => x.1 = y.1 ∧ r x.2 y.2) d.entries e.entries

section

variable {α β : Type} {r : α → β → Prop} {d : Dict α} {e : Dict β}

theorem Dict.Related.find? (h : d.Related r e) (name : String) :
    Option.Rel r (d.find? name) (e.find? name) := by
  obtain ⟨xs⟩ := d
  obtain ⟨ys⟩ := e
  change List.Forall₂ (fun x y => x.1 = y.1 ∧ r x.2 y.2) xs ys at h
  induction h with
  | nil => exact .none
  | @cons x y xs ys hxy _ ih =>
      obtain ⟨key, a⟩ := x
      obtain ⟨key', b⟩ := y
      obtain ⟨hkey, hab⟩ := hxy
      dsimp only at hkey
      subst hkey
      rw [find?_cons, find?_cons]
      split
      · exact .some hab
      · exact ih

theorem Dict.Related.contains (h : d.Related r e) (name : String) :
    d.contains name = e.contains name := by
  have hfind := h.find? name
  unfold Dict.contains
  cases hd : d.find? name <;> cases he : e.find? name <;> rw [hd, he] at hfind <;>
    first | rfl | cases hfind

theorem Dict.Related.put (h : d.Related r e) (name : String) {a : α} {b : β} (hab : r a b) :
    (d.put name a).Related r (e.put name b) := by
  unfold Dict.put Dict.add?
  rw [h.contains name]
  split
  · exact List.forall₂_map_left_iff.2 (List.forall₂_map_right_iff.2 (h.imp fun x y hxy => by
      rw [hxy.1]
      split
      · exact ⟨rfl, hab⟩
      · exact hxy))
  · exact List.rel_append h (.cons ⟨rfl, hab⟩ .nil)

end

namespace Script

variable {ω σ : Type}

/-! ## A run and a program side by side

A machine and a setting share the world and the last result. A text of a subroutine and its program
are related by writing. -/

def Functions.Hold (functions : Functions) (programs : Dict Program) : Prop :=
  Dict.Related (fun text p => IsScript p text.toList) functions programs

/-- A name means a subroutine of both tables or of none. -/
theorem Functions.Hold.find?_cases {functions : Functions} {programs : Dict Program}
    (h : functions.Hold programs) (name : String) :
    (functions.find? name = none ∧ programs.find? name = none) ∨
      ∃ body p, functions.find? name = some body ∧ programs.find? name = some p ∧
        IsScript p body.toList := by
  have hrel := h.find? name
  generalize functions.find? name = found at hrel
  generalize programs.find? name = found' at hrel
  cases hrel with
  | none => exact .inl ⟨rfl, rfl⟩
  | some hscript => exact .inr ⟨_, _, rfl, rfl, hscript⟩

def Setting.machine (s : Setting ω σ) (functions : Functions) : Machine ω σ where
  world := s.world
  functions := functions
  lastReturn := s.lastReturn
  retained := s.retained

/-- The machine is the setting, but for the texts of the subroutines. -/
def Machine.Matches (m : Machine ω σ) (s : Setting ω σ) : Prop :=
  ∃ functions : Functions, functions.Hold s.programs ∧ m = s.machine functions

/-- A run of a text ended like a run of a program. -/
def Outcome.Matches (o : Outcome ω σ) (r : Ending × Setting ω σ) : Prop :=
  o.ending = r.1 ∧ o.machine.Matches r.2

/-- The statement of a text does what the one of a program does, and leaves this text ahead. -/
def Step.Performs (rest : List Char) (jumps : List Jump) : Step ω σ → Move ω σ → Prop
  | .next f m, .next a s => f = { toActivation := a, rest, jumps } ∧ m.Matches s
  | .stop o, .stop ending s => o.Matches (ending, s)
  | _, _ => False

/-- Texts of programs run like the programs. -/
def Agrees (callee : Frame ω → Machine ω σ → Outcome ω σ) (runner : Runner ω σ) : Prop :=
  ∀ ⦃p : Program⦄ ⦃text : List Char⦄ (a : Activation ω) ⦃s : Setting ω σ⦄ ⦃m : Machine ω σ⦄,
    IsScript p text → m.Matches s →
      (enter callee { toActivation := a, rest := text } m).Matches (runner p a s)

/-! ## The statements

One lemma for each statement, and all of them have the same form: what the line does in a run is
what the statement does in a program, with the line gone. -/

section

variable {host : Host ω σ} {callee : Frame ω → Machine ω σ → Outcome ω σ} {depth : Nat}
  {f : Frame ω} {s : Setting ω σ} {functions : Functions} {rest more : List Char} {k : Keyword}
  (hl : readLeading (skipGap f.rest) = (.keyword k, rest))

include hl

/-- A statement that asks for an effect goes on with what is left of it. -/
theorem dispatch_of_action {a : Action} {p : Progress}
    (hread : Reader.statement (f.view host (s.machine functions)) f.mode (skipGap f.rest) k
      ⟨rest, s.retained⟩ = .ok a p) (hp : p.rest = ';' :: more) :
    dispatch host callee depth f (s.machine functions) =
      perform host callee depth { f with rest := ';' :: more }
        (Setting.machine { s with retained := p.retained } functions) a := by
  rw [dispatch_of_ok hl hread, ← hp]
  rfl

variable (hfunctions : functions.Hold s.programs)

include hfunctions

/-- A statement that is not read stops the run and the program with its error. -/
theorem performs_of_error {e : Error} {p : Progress}
    (hread : Reader.statement (f.view host (s.machine functions)) f.mode (skipGap f.rest) k
      ⟨rest, s.retained⟩ = .error e p) :
    (dispatch host callee depth f (s.machine functions)).Performs more f.jumps
      (.stop (.failed e) { s with retained := p.retained }) := by
  rw [dispatch_of_error hl hread]
  exact ⟨rfl, functions, hfunctions, rfl⟩

/-- A statement that asks for nothing goes on. -/
theorem performs_of_pass {p : Progress}
    (hread : Reader.statement (f.view host (s.machine functions)) f.mode (skipGap f.rest) k
      ⟨rest, s.retained⟩ = .ok .pass p) (hp : p.rest = ';' :: more) :
    (dispatch host callee depth f (s.machine functions)).Performs more f.jumps
      (.next f.toActivation { s with retained := p.retained }) := by
  rw [dispatch_of_ok hl hread, perform, Frame.finishStatement]
  dsimp only
  rw [hp]
  exact ⟨rfl, functions, hfunctions, rfl⟩

end

/-- The texts of the subroutines do not matter to expressions. -/
theorem values_view (host : Host ω σ) (f : Frame ω) (s : Setting ω σ) (functions : Functions)
    (es : List (List Char)) :
    (f.view host (s.machine functions)).values f.mode s.retained es =
      (s.view host f.toActivation).values f.mode s.retained es := by
  have hsame : List.Forall₂ SameExpression es es :=
    List.forall₂_same.2 fun e _ => ⟨fun _ => rfl, rfl⟩
  exact @View.values_congr _ (f.view host (s.machine functions)) (s.view host f.toActivation) rfl
    f.mode es es hsame s.retained

section

variable {host : Host ω σ} {callee : Frame ω → Machine ω σ → Outcome ω σ} {depth : Nat}
  {runner : Runner ω σ} {f : Frame ω} {s : Setting ω σ} {functions : Functions}
  {text more : List Char} (hfunctions : functions.Hold s.programs)

include hfunctions

theorem performs_set {name : String} {e : List Char}
    (hl : readLeading (skipGap f.rest) = (.keyword .set, skipGap (text ++ ';' :: more)))
    (h : OperandsText (.set name e) text) :
    (dispatch host callee depth f (s.machine functions)).Performs more f.jumps
      (setVariable host f.toActivation s name e) := by
  have hread := assignment_of_text (f.view host (s.machine functions)) f.mode s.retained h more
  unfold setVariable
  by_cases hn : (!Chain.contains (f.toActivation.chain s.world) name) = true
  · obtain ⟨ahead, hread⟩ := hread
    rw [if_pos hn]
    exact performs_of_error hl hfunctions (hread.trans (if_pos hn))
  rw [if_neg hn]
  obtain ⟨ahead, hread⟩ := hread
  replace hread := hread.trans (if_neg hn)
  have hvalue : (f.view host (s.machine functions)).value f.mode e =
      (s.view host f.toActivation).value f.mode e := rfl
  rw [hvalue] at hread
  cases hx : (s.view host f.toActivation).value f.mode e with
  | error err =>
      rw [hx] at hread
      exact performs_of_error hl hfunctions hread
  | ok x =>
      rw [hx] at hread
      dsimp only at hread ⊢
      by_cases hm : (!f.mode.performsEffects) = true
      · rw [if_pos hm] at hread ⊢
        exact performs_of_pass hl hfunctions hread rfl
      rw [if_neg hm] at hread ⊢
      by_cases hr : (f.mode.enforcesReadonly &&
          ((s.looking host f.toActivation e).view host f.toActivation).isReadonly name) = true
      · rw [if_pos hr]
        exact performs_of_error hl hfunctions (hread.trans (if_pos hr))
      · rw [if_neg hr, dispatch_of_action hl (hread.trans (if_neg hr)) rfl]
        exact ⟨rfl, functions, hfunctions, rfl⟩

theorem performs_call {name : String} {args : List (List Char)}
    (hl : readLeading (skipGap f.rest) = (.keyword .call, skipGap (text ++ ';' :: more)))
    (h : CallText name args text) :
    (dispatch host callee depth f (s.machine functions)).Performs more f.jumps
      (callNative host f.toActivation s name args) := by
  obtain ⟨ahead, hread⟩ :=
    nativeCall_of_text (f.view host (s.machine functions)) f.mode s.retained h more
  unfold callNative
  by_cases hn : (!Dict.contains host.bindings name) = true
  · rw [if_pos hn]
    exact performs_of_error hl hfunctions (hread.trans (if_pos hn))
  rw [if_neg hn]
  replace hread := hread.trans (if_neg hn)
  rw [values_view] at hread
  rcases hxs : (s.view host f.toActivation).values f.mode s.retained args with ⟨err | xs, retained⟩
  · rw [hxs] at hread
    exact performs_of_error hl hfunctions hread
  rw [hxs] at hread
  dsimp only at hread ⊢
  by_cases hm : f.mode.performsEffects = true
  · rw [if_pos hm] at hread
    rw [if_neg (by simp [hm]), dispatch_of_action hl hread rfl]
    simp only [perform, Setting.machine]
    cases Bindings.call host.bindings name xs s.world with
    | error e => exact ⟨rfl, functions, hfunctions, rfl⟩
    | ok r => exact ⟨rfl, functions, hfunctions, rfl⟩
  · rw [if_neg hm] at hread
    rw [if_pos (by simp [hm])]
    exact performs_of_pass hl hfunctions hread rfl

/-- A subroutine runs like the program that it is the text of. -/
theorem performs_invoke (hagrees : Agrees callee runner) {name body : String} {p : Program}
    (hbody : IsScript p body.toList) (args : List Float) :
    (perform host callee depth { f with rest := ';' :: more } (s.machine functions)
      (.invoke name body args)).Performs more f.jumps
      (runSubroutine host runner depth f.toActivation s name p args) := by
  unfold runSubroutine
  simp only [perform, invoke]
  by_cases hdepth : host.maxDepth ≤ depth
  · rw [if_pos hdepth, if_pos hdepth]
    exact ⟨rfl, functions, hfunctions, rfl⟩
  rw [if_neg hdepth, if_neg hdepth]
  have hmatches : (s.machine functions).Matches s := ⟨functions, hfunctions, rfl⟩
  obtain ⟨hending, hmachine⟩ := hagrees { params := some args } hbody
    (show ({ s.machine functions with lastReturn := none } : Machine ω σ).Matches
      { s with lastReturn := none } from ⟨functions, hfunctions, rfl⟩)
  rcases hr : runner p { params := some args } { s with lastReturn := none } with ⟨ending, s'⟩
  rw [hr] at hending hmachine
  dsimp only at hending hmachine ⊢
  rw [hending]
  cases ending with
  | finished => exact ⟨rfl, hmachine⟩
  | failed e => exact ⟨rfl, hmachine⟩
  | outOfSteps => exact ⟨rfl, hmachine⟩

theorem performs_goto (hagrees : Agrees callee runner) {name : String} {args : List (List Char)}
    (hl : readLeading (skipGap f.rest) = (.keyword .goto, skipGap (text ++ ';' :: more)))
    (h : CallText name args text) :
    (dispatch host callee depth f (s.machine functions)).Performs more f.jumps
      (callSubroutine host runner depth f.toActivation s name args) := by
  obtain ⟨ahead, hread⟩ :=
    subroutineCall_of_text (f.view host (s.machine functions)) f.mode s.retained h more
  have hbody : (f.view host (s.machine functions)).body? name = functions.find? name := rfl
  rw [hbody, values_view] at hread
  unfold callSubroutine
  cases hm : f.mode.performsEffects with
  | false =>
      -- a check reads the arguments, whatever the name means
      rw [hm] at hread
      dsimp only at hread ⊢
      rcases hxs : (s.view host f.toActivation).values f.mode s.retained args with
        ⟨err | xs, retained⟩
      · rw [hxs] at hread
        exact performs_of_error hl hfunctions hread
      · rw [hxs] at hread
        exact performs_of_pass hl hfunctions hread rfl
  | true =>
      rw [hm] at hread
      rcases hfunctions.find?_cases name with ⟨hbody, hp⟩ | ⟨body, p, hbody, hp, hscript⟩
      · rw [hbody] at hread
        rw [hp]
        exact performs_of_error hl hfunctions hread
      · rw [hbody] at hread
        rw [hp]
        dsimp only at hread ⊢
        rcases hxs : (s.view host f.toActivation).values f.mode s.retained args with
          ⟨err | xs, retained⟩
        · rw [hxs] at hread
          exact performs_of_error hl hfunctions hread
        · rw [hxs] at hread
          rw [dispatch_of_action hl hread rfl]
          exact performs_invoke (s := { s with retained }) hfunctions hagrees hscript xs

/-- Names are declared one after the other. -/
theorem declare_performs {sort : Declaration} {names : List String}
    (hnames : ∀ name ∈ names, name.toList ≠ []) {reads : List (List Char × List Char)}
    (hreads : reads.map Prod.fst = names.map String.toList)
    (hend : endOfList f.rest reads = ';' :: more) :
    (declare host sort f (s.machine functions) reads).Performs more f.jumps
      (declareNames host sort f.toActivation s names) := by
  induction names generalizing f s reads with
  | nil =>
      obtain rfl : reads = [] := List.map_eq_nil_iff.1 hreads
      change f.rest = ';' :: more at hend
      rw [declare, Frame.finishStatement, hend]
      exact ⟨rfl, functions, hfunctions, rfl⟩
  | cons name names ih =>
      -- a name that fails stops both, and those before it stay declared in both
      obtain ⟨⟨word, rest⟩, reads, rfl, hword, htail⟩ := List.map_eq_cons_iff.1 hreads
      dsimp only at hword
      subst hword
      rw [declare, declareNames]
      dsimp only
      rw [if_neg (hnames name (.head _)), String.ofList_toList]
      have hworld : (s.machine functions).world = s.world := rfl
      rw [hworld]
      cases declareName host sort f.toActivation s.world name with
      | error e => exact ⟨rfl, functions, hfunctions, rfl⟩
      | ok r =>
          obtain ⟨a, world⟩ := r
          have hmore (name : String) (hmem : name ∈ names) : name.toList ≠ [] :=
            hnames name (.tail _ hmem)
          exact @ih { f with toActivation := a, rest } { s with world } hfunctions hmore reads htail
            hend

theorem performs_declare {sort : Declaration} {first : String} {names : List String}
    (hl : readLeading (skipGap f.rest) = (.keyword sort.keyword, skipGap (text ++ ';' :: more)))
    (h : NamesText first names text) :
    (dispatch host callee depth f (s.machine functions)).Performs more f.jumps
      (declareNames host sort f.toActivation s (first :: names)) := by
  obtain ⟨hreads, hend⟩ := h.readNames more (skipGap (text ++ ';' :: more))
  have hread : Reader.statement (f.view host (s.machine functions)) f.mode (skipGap f.rest)
      sort.keyword ⟨skipGap (text ++ ';' :: more), s.retained⟩ =
        .ok (.declare sort (readNames (text ++ ';' :: more)))
          ⟨skipGap (text ++ ';' :: more), s.retained⟩ := by
    have hdeclaration : ∀ p, Reader.statement (f.view host (s.machine functions)) f.mode
        (skipGap f.rest) sort.keyword p = Reader.declaration sort p := by
      cases sort <;> exact fun _ => rfl
    rw [hdeclaration, Reader.declaration_eq, if_neg (h.not_isTerminated _), readNames_skipGap]
  rw [dispatch_of_ok hl hread]
  exact @declare_performs _ _ host { f with rest := skipGap (text ++ ';' :: more) } s functions more
    hfunctions sort (first :: names) h.toList_ne_nil _ hreads hend

theorem performs_result {e : List Char}
    (hl : readLeading (skipGap f.rest) = (.keyword .returnValue, skipGap (text ++ ';' :: more)))
    (h : ExpressionText e text) :
    (dispatch host callee depth f (s.machine functions)).Performs more f.jumps
      (Simple.perform host runner depth f.toActivation s (.result e)) := by
  have hread : Reader.statement (f.view host (s.machine functions)) f.mode (skipGap f.rest)
      .returnValue ⟨skipGap (text ++ ';' :: more), s.retained⟩ = _ :=
    Reader.result_eq (f.view host (s.machine functions)) f.mode _
  rw [if_neg (h.isTerminated _), param_of_expression _ _ _ h] at hread
  have hvalue : (f.view host (s.machine functions)).value f.mode e =
      (s.view host f.toActivation).value f.mode e := rfl
  rw [hvalue] at hread
  unfold Simple.perform
  dsimp only
  cases hx : (s.view host f.toActivation).value f.mode e with
  | error err =>
      rw [hx] at hread
      exact performs_of_error hl hfunctions hread
  | ok x =>
      rw [hx] at hread
      dsimp only at hread ⊢
      by_cases hm : f.mode.performsEffects = true
      · rw [if_pos hm] at hread ⊢
        rw [dispatch_of_action hl hread rfl]
        exact ⟨rfl, functions, hfunctions, rfl⟩
      · rw [if_neg hm] at hread ⊢
        exact performs_of_pass hl hfunctions hread rfl

theorem performs_exit {gap : List Char}
    (hl : readLeading (skipGap f.rest) = (.keyword .exit, skipGap (gap ++ ';' :: more)))
    (h : IsGap gap) :
    (dispatch host callee depth f (s.machine functions)).Performs more f.jumps
      (Simple.perform host runner depth f.toActivation s .exit) := by
  rw [h.skipGap_terminator] at hl
  have hread : Reader.statement (f.view host (s.machine functions)) f.mode (skipGap f.rest)
      .exit ⟨';' :: more, s.retained⟩ =
        .ok (if f.mode.performsEffects then .finish none else .pass) ⟨';' :: more, s.retained⟩ := by
    unfold Reader.statement
    dsimp only
    split <;> rfl
  unfold Simple.perform
  dsimp only
  by_cases hm : f.mode.performsEffects = true
  · rw [if_pos hm] at hread ⊢
    rw [dispatch_of_action hl hread rfl]
    exact ⟨rfl, functions, hfunctions, rfl⟩
  · rw [if_neg hm] at hread ⊢
    exact performs_of_pass hl hfunctions hread rfl

/-- A line with a simple statement does what the statement does. -/
theorem dispatch_performs (hagrees : Agrees callee runner) {statement : Simple}
    {operands line : List Char} (hoperands : OperandsText statement operands)
    (hline : Line statement.keyword operands line)
    (hrest : skipGap f.rest = skipGap (line ++ more)) :
    (dispatch host callee depth f (s.machine functions)).Performs more f.jumps
      (statement.perform host runner depth f.toActivation s) := by
  have hl := hline.readLeading_skipGap hrest
  cases hoperands with
  | set hbefore hname he hends => exact performs_set hfunctions hl (.set hbefore hname he hends)
  | call h => exact performs_call hfunctions hl h
  | goto h => exact performs_goto hfunctions hagrees hl h
  | declare h => exact performs_declare hfunctions hl h
  | result h => exact performs_result hfunctions hl h
  | exit h => exact performs_exit hfunctions hl h

end

end Script

end NumScript
