import Mathlib.Data.List.Infix
import NumScript.Host.Recorder
import NumScript.Proofs.Script.Progress
import NumScript.Proofs.Script.Visits

set_option autoImplicit false

/-! # Runs without loops

A script in which the word `while` does not stand, and whose subroutines do not contain it either,
comes to an end, though it may be malformed, and though its subroutines may call themselves and
replace each other while they run. Two things bound such a run. In one frame every step goes to a
later place of the text (`isLater_of_step`), so there are no more steps than characters. And a
subroutine that is called has one less call left below it, since the limit of the host is finite.

A new subroutine is a piece of the text that defines it. So the subroutines that a run defines are
without loops as well, and none of them is longer than the longest text there was at the beginning
(`Functions.AreLoopFree`). Therefore one number of steps is enough for every frame of a run, at each
depth of calls (`run_ends`).
-/

namespace NumScript.Script

variable {ω σ : Type}

/-! ## Texts without loops

The condition is on characters and not on statements, so it passes on to every piece of the text and
to every body, whatever is wrong with them. -/

/-- The word `while` does not stand in the text, not even inside another word. -/
def IsLoopFree (text : List Char) : Prop :=
  ¬ "while".toList <:+: text

instance (text : List Char) : Decidable (IsLoopFree text) :=
  inferInstanceAs (Decidable (¬ _))

theorem IsLoopFree.of_infix {s t : List Char} (h : IsLoopFree t) (hs : s <:+: t) : IsLoopFree s :=
  fun hwhile => h (hwhile.trans hs)

theorem isInfix_readWord (s : List Char) : (readWord s).1 <:+: s :=
  (List.takeWhile_prefix _).isInfix.trans (skipGap_suffix s).isInfix

/-- The keyword of a statement stands in the text. -/
theorem word_isInfix_of_readLeading {s rest : List Char} {k : Keyword}
    (hl : readLeading s = (.keyword k, rest)) : k.word.toList <:+: s := by
  rw [readLeading_eq] at hl
  injection hl with hleading _
  have hword : String.ofList (readWord s).1 = k.word := by
    unfold Leading.ofWord at hleading
    split at hleading
    · cases hleading
    · split at hleading
      · rename_i hk
        cases hleading
        exact Keyword.ofWord?_eq_some_iff.1 hk
      · cases hleading
  rw [← hword, String.toList_ofList]
  exact isInfix_readWord s

/-- No statement of such a text opens a loop. -/
theorem IsLoopFree.keyword_ne {s rest : List Char} {k : Keyword} (h : IsLoopFree s)
    (hl : readLeading s = (.keyword k, rest)) : k ≠ .whileBlock := by
  rintro rfl
  exact h (word_isInfix_of_readLeading hl)

/-- No subroutine has a loop, and none has more characters than this. -/
def Functions.AreLoopFree (functions : Functions) (longest : Nat) : Prop :=
  ∀ name body, functions.find? name = some body →
    IsLoopFree body.toList ∧ body.toList.length ≤ longest

theorem Functions.AreLoopFree.put {functions : Functions} {longest : Nat}
    (h : functions.AreLoopFree longest) (name : String) {body : String}
    (hbody : IsLoopFree body.toList) (hlength : body.toList.length ≤ longest) :
    Functions.AreLoopFree (functions.put name body) longest := by
  intro key text hfind
  rw [Dict.find?_put] at hfind
  split at hfind
  · cases hfind
    exact ⟨hbody, hlength⟩
  · exact h key text hfind

/-! ## The table of subroutines

A subroutine may redefine itself or its callers while it runs. The bound survives, since it is one
on all texts in the table at any time and not on the text of one name. -/

section

variable {host : Host ω σ} {callee : Frame ω → Machine ω σ → Outcome ω σ} {depth : Nat}
  {f f' : Frame ω} {m m' : Machine ω σ} {a : Action}

theorem functions_of_declare (host : Host ω σ) (sort : Declaration) (f : Frame ω)
    (m : Machine ω σ) (names : List (List Char × List Char)) :
    (declare host sort f m names).machine.functions = m.functions := by
  induction names generalizing f m with
  | nil => exact congrArg Machine.functions (f.machine_finishStatement m)
  | cons read more ih =>
      obtain ⟨word, rest⟩ := read
      unfold declare
      dsimp only
      split
      · rfl
      · split
        · exact ih _ _
        · rfl

/-- Only definitions and subroutines change the table. -/
theorem functions_of_isOwn (ha : a.IsOwn) :
    (perform host callee depth f m a).machine.functions = m.functions := by
  have finish {g : Frame ω} {n : Machine ω σ} (hn : n.functions = m.functions) :
      (g.finishStatement n).machine.functions = m.functions := by
    rw [g.machine_finishStatement, hn]
  cases a with
  | invoke _ _ _ | define _ _ => exact ha.elim
  | pass | jump _ | assign _ _ => exact finish rfl
  | declare sort names => exact functions_of_declare host sort f m names
  | call name args =>
      simp only [perform]
      split
      · exact finish rfl
      · rfl
  | finish result => cases result <;> rfl

theorem Machine.SameWorld.functions_eq (h : m.SameWorld m') : m'.functions = m.functions := by
  obtain ⟨_, rfl⟩ := h
  rfl

/-- A definition puts the body that was asked for into the table, or leaves it as it is. -/
theorem functions_of_define (hquiet : Harmless callee) (name body : String) :
    (perform host callee depth f m (.define name body)).machine.functions = m.functions ∨
      (perform host callee depth f m (.define name body)).machine.functions =
        m.functions.put name body := by
  have hbody := (checkBody_sameWorld hquiet f m body).functions_eq
  simp only [perform]
  rcases hcheck : checkBody callee f m body with ⟨ending, m'⟩
  rw [hcheck] at hbody
  have hbody : m'.functions = m.functions := hbody
  cases ending with
  | finished =>
      dsimp only
      rw [Frame.machine_finishStatement]
      split
      · exact .inr (by rw [← hbody])
      · exact .inl hbody
  | failed _ | outOfSteps => exact .inl hbody

/-- A subroutine that is called was found in the table. -/
theorem body_of_called {N : Moment ω σ} (h : called? host depth f m = some N) :
    N.machine.functions = m.functions ∧ N.frame.jumps = [] ∧
      ∃ name body, m.functions.find? name = some body ∧ N.frame.rest = skipGap body.toList := by
  unfold called? at h
  split at h
  · rename_i name body args g n hreq
    split at h
    · cases h
    · cases h
      obtain ⟨_, _, _, _, _, _, hread, _⟩ := reading_of_request hreq
      refine ⟨(statement_of_request hreq).2.1.functions_eq, rfl, name, body, ?_, rfl⟩
      cases asks_of_statement hread with
      | effect _ _ _ heffect =>
          cases heffect with
          | invoke _ hbody => exact hbody
  · cases h

variable {longest : Nat}

/-- A step in a text without loops keeps such a table. -/
theorem functions_of_step (hquiet : Harmless callee) (hf : f.IsForward) (hrest : IsLoopFree f.rest)
    (hlength : f.rest.length ≤ longest) (hm : m.functions.AreLoopFree longest)
    (hcalled : ∀ N, called? host depth f m = some N →
      (callee N.frame N.machine).machine.functions.AreLoopFree longest) :
    (step host callee depth f m).machine.functions.AreLoopFree longest := by
  have hanatomy := step_anatomy host callee depth f m
  generalize step host callee depth f m = s at hanatomy ⊢
  cases hanatomy with
  | stopped hreq =>
      have hsame := (sameWorld_of_request_error hreq).functions_eq
      exact hsame ▸ hm
  | tooDeep hreq _ _ | blank hreq _ _ =>
      have hsame := (statement_of_request hreq).2.1.functions_eq
      exact hsame ▸ hm
  | called _ _ hN =>
      rw [Frame.machine_resume]
      exact hcalled _ hN
  -- the body is a piece of the text ahead, so it has no loop and is not longer
  | @checked name body g n hreq _ =>
      have hsame := (statement_of_request hreq).2.1.functions_eq
      have hn : n.functions.AreLoopFree longest := hsame ▸ hm
      obtain ⟨hpiece, hshorter⟩ := body_of_request hf hreq
      rcases @functions_of_define _ _ host _ depth g n hquiet name body with heq | heq
      · rw [heq]
        exact hn
      · rw [heq]
        exact hn.put name (hrest.of_infix hpiece) (by omega)
  | own hreq ha _ =>
      have hsame := (statement_of_request hreq).2.1.functions_eq
      rw [functions_of_isOwn ha]
      exact hsame ▸ hm

end

/-! ## Runs

The bound is a sum: what is ahead in the frame, and the length of a longest text for each call that
is left. A step takes off the first part. A call takes one text off the second part and starts over
with the length of a body. -/

/-- The steps below one more call are those below the calls that it leaves, and one text's worth. -/
theorem sub_mul_succ {limit depth : Nat} (h : depth < limit) (longest : Nat) :
    (limit - depth) * (longest + 1) = (limit - (depth + 1)) * (longest + 1) + (longest + 1) := by
  rw [show limit - depth = limit - (depth + 1) + 1 by omega, Nat.succ_mul]

/-- A run without loops ends when it is given a step for each character ahead and a longest text's
worth of steps for each call that the limit leaves, and it defines no subroutine with a loop. -/
theorem run_ends (host : Host ω σ) {longest : Nat} (steps depth : Nat) {f : Frame ω}
    {m : Machine ω σ} (hf : f.IsForward) (hrest : IsLoopFree f.rest)
    (hlength : f.rest.length ≤ longest) (hm : m.functions.AreLoopFree longest)
    (hsteps : f.rest.length + (host.maxDepth - depth) * (longest + 1) < steps) :
    (run host steps depth f m).ending ≠ .outOfSteps ∧
      (run host steps depth f m).machine.functions.AreLoopFree longest := by
  induction steps generalizing depth f m with
  | zero => exact absurd hsteps (Nat.not_lt_zero _)
  | succ steps ih =>
      -- a call starts over with the length of a body, at the price of one of the calls that are
      -- left
      have hcalled (N : Moment ω σ) (hN : called? host depth f m = some N) :
          (run host steps (depth + 1) N.frame N.machine).ending ≠ .outOfSteps ∧
            (run host steps (depth + 1) N.frame N.machine).machine.functions.AreLoopFree
              longest := by
        obtain ⟨hfunctions, hjumps, name, body, hbody, hN'⟩ := body_of_called hN
        obtain ⟨_, _, _, _, _, _, hdepth, _⟩ := step_of_called hN
        obtain ⟨hfree, hle⟩ := hm name body hbody
        have hskip := skipGap_suffix body.toList
        have hskip_le := hskip.length_le
        rw [sub_mul_succ hdepth] at hsteps
        refine ih (depth + 1) ?_ ?_ ?_ ?_ ?_
        · exact Frame.isForward_of_nil hjumps
        · rw [hN']
          exact hfree.of_infix hskip.isInfix
        · rw [hN']
          omega
        · rw [hfunctions]
          exact hm
        · rw [hN']
          omega
      -- the step itself does not run out: its subroutine and its check have steps enough
      have hend : ¬ (step host (run host steps (depth + 1)) depth f m).RanOut := by
        refine not_ranOut_of_step (fun name body g n hreq => ?_) fun N hN => (hcalled N hN).1
        have hbody := (body_of_request hf hreq).2
        exact (run_check_ends host steps (depth + 1)).checkBody g n (by omega)
      have hfunctions := functions_of_step (run_validate host steps (depth + 1)) hf hrest hlength hm
        fun N hN => (hcalled N hN).2
      rw [run]
      cases hstep : step host (run host steps (depth + 1)) depth f m with
      | stop o =>
          rw [hstep] at hend hfunctions
          exact ⟨hend, hfunctions⟩
      | next f' m' =>
          rw [hstep] at hfunctions
          -- without loops no jump leads back, so less of the text is ahead
          obtain ⟨⟨hsuffix, hlt⟩, hf'⟩ := isLater_of_step hf
            (fun s rest hs hl => absurd rfl ((hrest.of_infix hs.isInfix).keyword_ne hl)) hstep
          exact ih depth hf' (hrest.of_infix hsuffix.isInfix) (by omega) hfunctions (by omega)

/-! ## Scripts

The bound is written down: the length of the longest text, once for the script and once for each
call that the host allows. -/

namespace Interpreter

def longestText (i : Interpreter ω σ) (script : String) : Nat :=
  i.machine.functions.entries.foldr (fun entry longest => max entry.2.toList.length longest)
    script.toList.length

theorem length_le_longestText (i : Interpreter ω σ) (script : String) :
    script.toList.length ≤ i.longestText script := by
  unfold longestText
  induction i.machine.functions.entries with
  | nil => exact Nat.le_refl _
  | cons entry more ih => exact Nat.le_trans ih (Nat.le_max_right _ _)

theorem length_body_le_longestText (i : Interpreter ω σ) (script : String) {name body : String}
    (h : i.machine.functions.find? name = some body) :
    body.toList.length ≤ i.longestText script := by
  unfold longestText
  rcases hentries : i.machine.functions with ⟨entries⟩
  rw [hentries] at h
  clear hentries
  induction entries with
  | nil => cases h
  | cons entry more ih =>
      obtain ⟨key, text⟩ := entry
      rw [Dict.find?_cons] at h
      split at h
      · cases h
        exact Nat.le_max_left _ _
      · exact Nat.le_trans (ih h) (Nat.le_max_right _ _)

/-- Without loops every run ends. If the word `while` stands neither in a script nor in the
subroutines there are, the script ends whatever the parameters, the variables and the functions of
the host are, although subroutines may call and replace each other, and although the text may be
malformed. It does not need more steps than the longest text has characters, for itself and for each
call that the host allows, and with any greater number of steps it goes the same way. -/
theorem evaluate_ends (i : Interpreter ω σ) (script : String) (params : Option (List Float))
    (hscript : IsLoopFree script.toList)
    (hfunctions : ∀ name body, i.machine.functions.find? name = some body →
      IsLoopFree body.toList) :
    let least := (i.host.maxDepth + 1) * (i.longestText script + 1)
    (i.evaluate least script params).1 ≠ .outOfSteps ∧
      ∀ steps, least ≤ steps →
        i.evaluate steps script params = i.evaluate least script params := by
  intro least
  by_cases hblank : skipGap script.toList = []
  · simp only [i.evaluate_of_blank _ params hblank]
    exact ⟨Ending.noConfusion, fun _ _ => trivial⟩
  -- the number of steps is the bound for the frame of the script
  have hend : (run i.host least 0 { rest := skipGap script.toList, params } i.begun).ending ≠
      .outOfSteps := by
    have hskip := skipGap_suffix script.toList
    have hlength := Nat.le_trans hskip.length_le (i.length_le_longestText script)
    have hm : i.begun.functions.AreLoopFree (i.longestText script) :=
      fun name body h => ⟨hfunctions name body h, i.length_body_le_longestText script h⟩
    have hleast : least = i.host.maxDepth * (i.longestText script + 1) + (i.longestText script + 1) :=
      Nat.succ_mul _ _
    refine (run_ends i.host least 0 (Frame.isForward_of_nil rfl) (hscript.of_infix hskip.isInfix)
      hlength hm ?_).1
    show (skipGap script.toList).length + i.host.maxDepth * (i.longestText script + 1) < least
    omega
  simp only [i.evaluate_of_not_blank _ params hblank]
  exact ⟨hend, fun steps hsteps => by rw [run_eq_of_le hsteps hend]⟩

/-- An interpreter with a subroutine that defines a subroutine which calls the first one, with at
most three calls at once. -/
def withRecursion : Interpreter Recorder.Watcher Recorder.Record where
  host := { notify := Recorder.notify, maxDepth := 3 }
  machine :=
    { world := { state := [] }
      functions := ⟨[("g", "define f; goto g; end; goto f;")]⟩ }

def recursion : String :=
  "if 0; else; define g; define f; goto g; end; goto f; end; fi; goto g; fi x"

/-- The main statement for this script, which goes on calling until the limit is reached. -/
theorem evaluate_ends_recursion :
    IsLoopFree recursion.toList ∧
    (∀ name body, withRecursion.machine.functions.find? name = some body →
      IsLoopFree body.toList) ∧
    (withRecursion.evaluate 100 recursion none).1 = .failed (.tooDeep "f" 3) ∧
    let least := 4 * (withRecursion.longestText recursion + 1)
    (withRecursion.evaluate least recursion none).1 ≠ .outOfSteps ∧
      ∀ steps, least ≤ steps →
        withRecursion.evaluate steps recursion none = withRecursion.evaluate least recursion none := by
  have hscript : IsLoopFree recursion.toList := by decide +kernel
  have hfunctions (name body : String)
      (h : withRecursion.machine.functions.find? name = some body) : IsLoopFree body.toList := by
    rw [Dict.eq_of_find?_singleton h]
    decide +kernel
  exact ⟨hscript, hfunctions, by decide +kernel,
    evaluate_ends withRecursion recursion none hscript hfunctions⟩

end Interpreter

end NumScript.Script
