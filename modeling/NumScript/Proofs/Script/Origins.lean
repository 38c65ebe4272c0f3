import NumScript.Proofs.Script.Moments

set_option autoImplicit false

/-! # Where the texts of subroutines come from

A subroutine that a run defines has a text that was cut out of another one: of the script, or of a
subroutine. Going back from text to text one comes to the script, or to a subroutine that was there
before the run. That is the *origin* of the text. It cannot be told from the text, since the same
piece may stand in both, so it is written down along the run (`Origins.ofRun`). Each frame has the
origin of its text. What is defined in it gets that origin, and where a subroutine is called the
frame of the call has the origin that was written down for the name.

Nothing depends on what is written down here. It says of a run which of its subroutines it took out
of the script.
-/

namespace NumScript.Script

variable {ω σ : Type}

inductive Origin where
  | script
  /-- A subroutine that was there before the run. -/
  | earlier
  deriving DecidableEq

abbrev Origins := String → Origin

namespace Origins

def put (w : Origins) (name : String) (o : Origin) : Origins :=
  fun key => if key = name then o else w key

/-! ## One step

`track` says what a run of a subroutine writes down, given the origin of its text and what was
written down before. -/

section

variable (track : Origin → Origins → Frame ω → Machine ω σ → Origins)

def ofEntry (o : Origin) (w : Origins) (f : Frame ω) (m : Machine ω σ) : Origins :=
  match skipGap f.rest with
  | [] => w
  | rest => track o w { f with rest } m

/-- A definition counts once the body has been checked. A check itself defines nothing. -/
def ofAction (host : Host ω σ) (callee : Frame ω → Machine ω σ → Outcome ω σ) (depth : Nat)
    (o : Origin) (w : Origins) (f : Frame ω) (m : Machine ω σ) : Action → Origins
  | .define name body =>
    match (checkBody callee f m body).1 with
    | .finished => if f.mode.performsEffects then w.put name o else w
    | _ => w
  | .invoke name body args =>
    if host.maxDepth ≤ depth then w
    else
      ofEntry track (w name) w { rest := body.toList, params := some args }
        { m with lastReturn := none }
  | _ => w

def ofStep (host : Host ω σ) (callee : Frame ω → Machine ω σ → Outcome ω σ) (depth : Nat)
    (o : Origin) (w : Origins) (f : Frame ω) (m : Machine ω σ) : Origins :=
  match request host f m with
  | .ok (a, f, m) => ofAction track host callee depth o w f m a
  | .error _ => w

end

/-! ## A run

The recursion is that of a run. It is a function of the run, and not a relation to one, so that two
runs can be compared with what the first one writes down. -/

/-- The origins after the run of a frame whose text is of the origin `o`. -/
def ofRun (host : Host ω σ) :
    (steps depth : Nat) → Origin → Origins → Frame ω → Machine ω σ → Origins
  | 0, _, _, w, _, _ => w
  | steps + 1, depth, o, w, f, m =>
    let callee := run host steps (depth + 1)
    let w := ofStep (ofRun host steps (depth + 1)) host callee depth o w f m
    match step host callee depth f m with
    | .next f m => ofRun host steps depth o w f m
    | .stop _ => w

end Origins

/-- The origins of the subroutines that are there after a run of a script. -/
def Interpreter.origins (i : Interpreter ω σ) (steps : Nat) (script : String)
    (params : Option (List Float)) : Origins :=
  Origins.ofEntry (Origins.ofRun i.host steps 0) .script (fun _ => .earlier)
    { rest := script.toList, params }
    { i.machine with world := { i.machine.world with stopping := false }, lastReturn := none }

end NumScript.Script
