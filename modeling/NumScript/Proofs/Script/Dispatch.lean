import NumScript.Script.Run

set_option autoImplicit false

/-! # The steps of a run, written out

What `step` does, one equation for each way a step can go. Taking a jump changes only the place in
the text and the jumps that wait; the activation stays as it is.
-/

namespace NumScript.Script

variable {ω σ : Type}

section

variable {host : Host ω σ} {callee : Frame ω → Machine ω σ → Outcome ω σ} {depth : Nat}
  {f : Frame ω} {m : Machine ω σ} {rest : List Char}

/-! ## A statement

Four cases: nothing is left but a gap, the first word is no keyword, the statement is not read, or
it asks for something. -/

theorem dispatch_of_nothing (h : readLeading (skipGap f.rest) = (.nothing, rest)) :
    dispatch host callee depth f m =
      Frame.stop { f with rest } m (if rest = [] then .finished else .failed .emptyStatement) := by
  unfold dispatch
  simp only [h]

theorem dispatch_of_unknown {word : String}
    (h : readLeading (skipGap f.rest) = (.unknown word, rest)) :
    dispatch host callee depth f m =
      Frame.stop { f with rest } m (.failed (.unknownStatement word)) := by
  unfold dispatch
  simp only [h]

theorem dispatch_of_error {k : Keyword} {e : Error} {p : Progress}
    (h : readLeading (skipGap f.rest) = (.keyword k, rest))
    (hread : Reader.statement (f.view host m) f.mode (skipGap f.rest) k ⟨rest, m.retained⟩ =
      .error e p) :
    dispatch host callee depth f m =
      Frame.stop { f with rest := p.rest } { m with retained := p.retained } (.failed e) := by
  unfold dispatch
  simp only [h, hread]

theorem dispatch_of_ok {k : Keyword} {a : Action} {p : Progress}
    (h : readLeading (skipGap f.rest) = (.keyword k, rest))
    (hread : Reader.statement (f.view host m) f.mode (skipGap f.rest) k ⟨rest, m.retained⟩ =
      .ok a p) :
    dispatch host callee depth f m =
      perform host callee depth { f with rest := p.rest } { m with retained := p.retained } a := by
  unfold dispatch
  simp only [h, hread]

/-! ## A step

A step looks for a request to stop, then for a jump, and then performs the statement ahead. The
three equations are about a request that is found, about a place to read from, and about one inside
a character. -/

theorem step_of_stopping (h : (f.mode.observesTermination && m.world.stopping) = true) :
    step host callee depth f m = f.stop m (.failed .terminated) := by
  unfold step
  rw [if_pos h]

theorem step_of_before (h : ¬ (f.mode.observesTermination && m.world.stopping) = true)
    (hpoint : f.takeJump.2 = .before rest) :
    step host callee depth f m = dispatch host callee depth { f.takeJump.1 with rest } m := by
  unfold step
  have hjump : f.takeJump = (f.takeJump.1, .before rest) := by rw [← hpoint]
  rw [if_neg h, hjump]

theorem step_of_inside (h : ¬ (f.mode.observesTermination && m.world.stopping) = true)
    (hpoint : f.takeJump.2 = .inside rest) :
    step host callee depth f m =
      .stop ⟨.failed .emptyStatement, Text.byteSize rest - 1, m, f.takeJump.1.outer⟩ := by
  unfold step
  have hjump : f.takeJump = (f.takeJump.1, .inside rest) := by rw [← hpoint]
  rw [if_neg h, hjump]

end

/-- A check does not look for a request to stop. -/
theorem not_observed_of_validate {f : Frame ω} (h : f.mode = .validate) (m : Machine ω σ) :
    ¬ (f.mode.observesTermination && m.world.stopping) = true := by
  rw [h]
  exact Bool.false_ne_true

/-! ## The next statement

The place of the next statement depends on the latest jump alone. Proofs about places split on
whether it is due, and need no more than what is said here. -/

theorem Frame.toActivation_takeJump (f : Frame ω) :
    f.takeJump.1.toActivation = f.toActivation := by
  unfold Frame.takeJump
  split
  · split <;> rfl
  · rfl

/-- A jump is taken exactly where the latest one waits. -/
theorem Frame.takeJump_of_due {f : Frame ω} {j : Jump} {below : List Jump}
    (hjumps : f.jumps = j :: below) (h : j.trigger = some f.rest) :
    f.takeJump = ({ f with jumps := below }, j.target) := by
  unfold Frame.takeJump
  rw [hjumps]
  exact if_pos h

theorem Frame.takeJump_of_not_due {f : Frame ω}
    (h : ∀ j ∈ f.jumps.head?, j.trigger ≠ some f.rest) :
    f.takeJump = (f, .before f.rest) := by
  unfold Frame.takeJump
  split
  · rename_i j below hjumps
    exact if_neg (h j (by rw [hjumps]; rfl))
  · rfl

/-- The place of the next statement is the place ahead or where one of the jumps that wait leads,
and the jumps that wait then waited before. -/
theorem Frame.takeJump_cases (f : Frame ω) :
    f.takeJump.2 = .before f.rest ∨ ∃ j ∈ f.jumps, f.takeJump.2 = j.target := by
  unfold Frame.takeJump
  split
  · rename_i j below hjumps
    split
    · exact .inr ⟨j, by rw [hjumps]; exact .head _, rfl⟩
    · exact .inl rfl
  · exact .inl rfl

theorem Frame.jumps_takeJump_subset (f : Frame ω) : f.takeJump.1.jumps ⊆ f.jumps := by
  unfold Frame.takeJump
  split
  · rename_i j below hjumps
    split
    · rw [hjumps]
      exact List.subset_cons_self j below
    · exact List.Subset.refl _
  · exact List.Subset.refl _

end NumScript.Script
