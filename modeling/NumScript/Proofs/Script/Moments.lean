import NumScript.Proofs.Script.Validation

set_option autoImplicit false

/-! # The moments of a run

A run goes from one statement to the next, in the script and in the subroutines that it calls. Its
*moments* are the frames and machines with which it comes to a statement, in the order in which it
does (`moments`). What happened in a run can be told from them: which statements were read, in which
scope, and what they asked for (`request`).

Reading a statement changes nothing but the place in the text and the outcome of the last
expression. So a step either performs a request or stops with the world it began with (`step_eq`).

A moment holds all that a statement can depend on. So what is said of a moment, such as that its
statement exports a name or calls a subroutine, is said of what was executed, and not of the words
of a text that may never be reached.
-/

namespace NumScript.Script

variable {ω σ : Type}

/-! ## Requests

A step is split at the point where everything is read and nothing is done. Before it the world does
not change, and what is done behind it is a function of the request. -/

/-- What the next statement asks for, with the frame and the machine after it was read, or how the
run stops before that. -/
def request (host : Host ω σ) (f : Frame ω) (m : Machine ω σ) :
    Except (Outcome ω σ) (Action × Frame ω × Machine ω σ) :=
  if f.mode.observesTermination && m.world.stopping then
    .error ⟨.failed .terminated, Text.byteSize f.rest, m, f.outer⟩
  else
    match f.takeJump with
    | (f, .inside text) => .error ⟨.failed .emptyStatement, Text.byteSize text - 1, m, f.outer⟩
    | (f, .before rest) =>
      let start := skipGap rest
      match readLeading start with
      | (.nothing, rest) =>
        .error ⟨if rest = [] then .finished else .failed .emptyStatement, Text.byteSize rest, m,
          f.outer⟩
      | (.unknown word, rest) =>
        .error ⟨.failed (.unknownStatement word), Text.byteSize rest, m, f.outer⟩
      | (.keyword k, rest) =>
        match Reader.statement (f.view host m) f.mode start k ⟨rest, m.retained⟩ with
        | .error e p =>
          .error ⟨.failed e, Text.byteSize p.rest, { m with retained := p.retained }, f.outer⟩
        | .ok a p => .ok (a, { f with rest := p.rest }, { m with retained := p.retained })

section

variable {host : Host ω σ} {f f' : Frame ω} {m m' : Machine ω σ} {a : Action}

/-- A step performs a request, and stops where there is none. -/
theorem step_eq (host : Host ω σ) (callee : Frame ω → Machine ω σ → Outcome ω σ) (depth : Nat)
    (f : Frame ω) (m : Machine ω σ) :
    step host callee depth f m =
      match request host f m with
      | .ok (a, f, m) => perform host callee depth f m a
      | .error o => .stop o := by
  unfold step request
  split
  · rfl
  rcases f.takeJump with ⟨start, point⟩
  cases point with
  | inside text => rfl
  | before rest =>
      unfold dispatch
      dsimp only
      rcases readLeading (skipGap rest) with ⟨leading, ahead⟩
      cases leading with
      | nothing | unknown _ => rfl
      | keyword k =>
          dsimp only
          rw [show Frame.view host { start with rest } m = start.view host m from rfl]
          cases Reader.statement (start.view host m) start.mode (skipGap rest) k
            ⟨ahead, m.retained⟩ <;> rfl

/-- A run that stops before a statement stops with the world it began with. -/
theorem sameWorld_of_request_error {o : Outcome ω σ} (h : request host f m = .error o) :
    m.SameWorld o.machine := by
  unfold request at h
  split at h
  · cases h
    exact .refl m
  rcases hjump : f.takeJump with ⟨start, point⟩
  rw [hjump] at h
  cases point with
  | inside text =>
      cases h
      exact .refl m
  | before rest =>
      dsimp only at h
      split at h
      · cases h
        exact .refl m
      · cases h
        exact .refl m
      · split at h
        · rename_i p _
          cases h
          exact ⟨p.retained, rfl⟩
        · cases h

/-- A request was read by the reader of a statement, which sees what the frame sees. -/
theorem statement_of_request (h : request host f m = .ok (a, f', m')) :
    f'.toActivation = f.toActivation ∧ m.SameWorld m' ∧
      ∃ start k p q, Reader.statement (f.view host m) f.mode start k p = .ok a q := by
  unfold request at h
  split at h
  · cases h
  have hact := f.toActivation_takeJump
  rcases hjump : f.takeJump with ⟨start, point⟩
  rw [hjump] at h hact
  cases point with
  | inside text => cases h
  | before rest =>
      dsimp only at h hact
      split at h
      · cases h
      · cases h
      · split at h
        · cases h
        · rename_i b p hread
          cases h
          have hview : start.view host m = f.view host m := by
            unfold Frame.view
            rw [hact]
          rw [hview, hact] at hread
          exact ⟨hact, ⟨p.retained, rfl⟩, _, _, _, _, hread⟩

end

/-! ## Names that can be assigned

The flag of a variable is looked at in one reader only. What it found is what holds when the
assignment is made, since nothing happens in between. -/

theorem Chain.exists_find?_of_contains {chain : Chain ω} {name : String}
    (h : Chain.contains chain name = true) : ∃ v, Chain.find? chain name = some v := by
  obtain ⟨s, hs, hname⟩ := List.any_eq_true.1 h
  exact Option.isSome_iff_exists.1 (List.findSome?_isSome_iff.2 ⟨s, hs, hname⟩)

/-- Where the read-only flag counts, an assignment is asked for only if the name means a variable
that is not read-only. -/
theorem writable_of_statement {v : View ω} {mode : Mode} (hm : mode.enforcesReadonly = true)
    {start : List Char} {k : Keyword} {p q : Progress} {name : String} {x : Float}
    (h : Reader.statement v mode start k p = .ok (.assign name x) q) :
    ∃ u, Chain.find? v.chain name = some u ∧ u.readonly = false := by
  obtain rfl : k = .set := asksFor_of_statement h
  change Reader.assignment v mode p = _ at h
  rw [Reader.assignment_eq] at h
  split at h
  · cases h
  dsimp only at h
  split at h
  · cases h
  rename_i hname
  split at h
  · cases h
  split at h
  · cases h
  split at h
  · cases h
  rename_i hreadonly
  cases h
  -- the name is known, and its variable passed the test of the flag
  obtain ⟨u, hu⟩ := Chain.exists_find?_of_contains (by simpa using hname)
  refine ⟨u, hu, ?_⟩
  rw [hm, View.isReadonly, hu] at hreadonly
  simpa using hreadonly

/-! ## The moments

The list of moments is defined along the run, with the moments of a subroutine between those of its
caller. It is the trace in which statements about what was executed are made. -/

structure Moment (ω σ : Type) where
  frame : Frame ω
  machine : Machine ω σ

/-- The first moment in the subroutine that is called next, if one is. -/
def called? (host : Host ω σ) (depth : Nat) (f : Frame ω) (m : Machine ω σ) :
    Option (Moment ω σ) :=
  match request host f m with
  | .ok (.invoke _ body args, _, m) =>
    if host.maxDepth ≤ depth ∨ skipGap body.toList = [] then none
    else
      some ⟨{ rest := skipGap body.toList, params := some args }, { m with lastReturn := none }⟩
  | _ => none

/-- A subroutine that is asked for is called if the depth allows it and its body is not blank. -/
theorem called?_of_invoke {host : Host ω σ} {depth : Nat} {f f' : Frame ω} {m m' : Machine ω σ}
    {name body : String} {args : List Float}
    (h : request host f m = .ok (.invoke name body args, f', m')) (hdepth : ¬ host.maxDepth ≤ depth)
    (hbody : skipGap body.toList ≠ []) :
    called? host depth f m =
      some ⟨{ rest := skipGap body.toList, params := some args },
        { m' with lastReturn := none }⟩ := by
  unfold called?
  rw [h]
  dsimp only
  rw [if_neg fun hor => hor.elim hdepth hbody]

/-- The moments of a run, those in subroutines included. -/
def moments (host : Host ω σ) : (steps depth : Nat) → Frame ω → Machine ω σ → List (Moment ω σ)
  | 0, _, _, _ => []
  | steps + 1, depth, f, m =>
    let inside :=
      match called? host depth f m with
      | some M => moments host steps (depth + 1) M.frame M.machine
      | none => []
    let later :=
      match step host (run host steps (depth + 1)) depth f m with
      | .next f m => moments host steps depth f m
      | .stop _ => []
    ⟨f, m⟩ :: (inside ++ later)

def declaredNames (names : List (List Char × List Char)) : List String :=
  (names.takeWhile fun read => !read.1.isEmpty).map fun read => String.ofList read.1

theorem declaredNames_cons {word : List Char} (rest : List Char) (hword : word ≠ [])
    (more : List (List Char × List Char)) :
    declaredNames ((word, rest) :: more) = String.ofList word :: declaredNames more := by
  unfold declaredNames
  rw [List.takeWhile_cons, if_pos (by simpa using hword), List.map_cons]

def Moment.exports (host : Host ω σ) (M : Moment ω σ) : List String :=
  match request host M.frame M.machine with
  | .ok (.declare .exportVar names, _, _) => declaredNames names
  | _ => []

namespace Interpreter

/-- The moments of a run of a script. -/
def moments (i : Interpreter ω σ) (steps : Nat) (script : String) (params : Option (List Float)) :
    List (Moment ω σ) :=
  if skipGap script.toList = [] then []
  else
    Script.moments i.host steps 0 { rest := skipGap script.toList, params }
      { i.machine with world := { i.machine.world with stopping := false }, lastReturn := none }

/-- In the run of a script, a statement `export` is executed that has the name as an operand. -/
def Exports (i : Interpreter ω σ) (steps : Nat) (script : String) (params : Option (List Float))
    (name : String) : Prop :=
  ∃ M ∈ i.moments steps script params, name ∈ M.exports i.host

/-- In the run of a script, a statement `export` is executed that has the name as an operand, where
there is a local variable of that name. -/
def HandsOver (i : Interpreter ω σ) (steps : Nat) (script : String) (params : Option (List Float))
    (name : String) : Prop :=
  ∃ M ∈ i.moments steps script params,
    name ∈ M.exports i.host ∧ M.frame.locals.contains name = true

instance (i : Interpreter ω σ) (steps : Nat) (script : String) (params : Option (List Float))
    (name : String) : Decidable (i.HandsOver steps script params name) :=
  inferInstanceAs (Decidable (∃ _ ∈ _, _))

end Interpreter

end NumScript.Script
