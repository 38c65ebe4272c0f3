import NumScript.Proofs.Script.Shape
import NumScript.Proofs.Script.Validation

set_option autoImplicit false

/-! # A check visits every statement

A check walks over the text from one statement to the next. It goes past the body of a subroutine,
but checks it in a frame of its own. So a check that finishes has read every statement of the text,
in the body of a subroutine or outside, and found it good (`run_visitsAll`), and the text is sound
(`VisitsAll.sound`).
-/

namespace NumScript.Script

variable {ω σ : Type}

def Visited (text : List Char) : Prop :=
  ∀ s ∈ text :: laterStatements text, Good s

/-! ## From one statement to the next

The induction goes against the run: if all statements are good from the next place on and the one
ahead is good, all are good from here on. So a check that finishes is followed back from its end. -/

theorem Visited.of_next {s next : List Char} (hs : Good s)
    (hlater : laterStatements s = next :: laterStatements next) (hnext : Visited next) :
    Visited s := by
  intro t ht
  rcases List.mem_cons.1 ht with rfl | ht
  · exact hs
  · rw [hlater] at ht
    exact hnext t ht

theorem skipGap_eq_nil_of_nothing {s : List Char} (h : readLeading s = (.nothing, [])) :
    skipGap s = [] := by
  rw [readLeading_eq] at h
  injection h with hword hrest
  have hnil : (readWord s).1 = [] := by
    unfold Leading.ofWord at hword
    split at hword
    · assumption
    · split at hword <;> cases hword
  -- nothing was read, so the rest is the whole text
  have htake : (skipGap s).takeWhile Expr.isWordChar = [] := hnil
  have hall := List.takeWhile_append_dropWhile (l := skipGap s) (p := Expr.isWordChar)
  rw [htake, List.nil_append] at hall
  rw [readWord] at hrest
  dsimp only at hrest
  rwa [hall, skipGap_skipGap] at hrest

theorem Good.last {s : List Char} (h : skipGap s = []) : Good s := by
  refine ⟨.last h, fun body hbody => ?_⟩
  obtain ⟨rest, _, hl, _, _⟩ := hbody
  rw [← readLeading_skipGap, h] at hl
  cases hl

theorem Visited.last {s : List Char} (h : skipGap s = []) : Visited s := by
  intro t ht
  rw [← laterStatements_skipGap, h] at ht
  rcases List.mem_singleton.1 ht with rfl
  exact .last h

/-- A statement that defines no subroutine is good if it is well formed. -/
theorem Good.of_not_define {s rest next : List Char} {k : Keyword}
    (hl : readLeading s = (.keyword k, rest)) (hend : operandsEnd? rest k = some (';' :: next))
    (hk : k ≠ .define)
    (hnames : ∀ sort : Declaration, k = sort.keyword → ∀ read ∈ readNames rest, read.1 ≠ [])
    (hblock : ∀ b : Block, k = b.opener → ∃ marks, scanBlock b (';' :: next) = .ok marks) :
    Good s := by
  refine ⟨.statement hl hend hnames fun b hb => ?_, fun body hbody => ?_⟩
  · obtain ⟨marks, hscan⟩ := hblock b hb
    refine ⟨marks, hscan, ?_⟩
    rintro rfl
    exact absurd hb hk
  · obtain ⟨rest', _, hl', _, _⟩ := hbody
    rw [hl] at hl'
    cases hl'
    exact absurd rfl hk

/-! ## Subroutines

A check jumps over the body of a subroutine, so the statements inside are visited by another check,
of the body as a text of its own. They are statements of the longer text, too, and good there. -/

/-- The text from a header on is the body, the closing statement and what follows it. -/
theorem exists_body_append {next closing : List Char} (hmem : closing ∈ next :: laterStatements next)
    (hbody : bodyBetween (';' :: next) closing ≠ []) :
    ∃ p, next = p ++ closing ∧ IsClosed p ∧ skipGap p = bodyBetween (';' :: next) closing := by
  rcases List.mem_cons.1 hmem with rfl | hmem
  · exact absurd (bodyBetween_of_empty closing) hbody
  · obtain ⟨p, rfl, hp⟩ := exists_isClosed_append hmem
    refine ⟨p, rfl, hp, ?_⟩
    rw [bodyBetween_terminator, skipGap_append closing hp.skipGap_ne_nil, List.length_append,
      Nat.add_sub_cancel, List.take_left]

/-- The statement that closes a block is visited if what follows it is visited. -/
theorem Visited.of_closer {b : Block} {s rest next : List Char}
    (hl : readLeading s = (.keyword b.closer, rest)) (hrest : rest = ';' :: next)
    (hnext : Visited next) : Visited s := by
  -- it takes no operands, so its terminator is next
  have hend : operandsEnd? rest b.closer = some (';' :: next) := by
    rw [hrest]
    cases b <;> rfl
  refine .of_next (.of_not_define hl hend ?_ ?_ ?_) (laterStatements_of_operandsEnd hl hend) hnext
  · cases b <;> decide
  · intro sort hsort
    cases b <;> cases sort <;> cases hsort
  · intro b' hb'
    cases b <;> cases b' <;> cases hb'

/-- The statements of a text that ends with a terminator are good in a longer text, too. -/
theorem Visited.append {p t : List Char} (hp : IsClosed p) (hfirst : Visited p) (ht : Visited t) :
    Visited (p ++ t) := by
  intro s hs
  rcases List.mem_cons.1 hs with rfl | hs
  · exact (hfirst p (.head _)).append hp t
  rw [hp.laterStatements_append, List.mem_append] at hs
  rcases hs with hs | hs
  · obtain ⟨r, hr, rfl⟩ := List.mem_map.1 hs
    -- the last terminator of the first text is followed by the second one
    rcases hp.of_mem hr with rfl | hclosed
    · exact ht _ (.head _)
    · exact (hfirst r (.tail _ hr)).append hclosed t
  · exact ht s (.tail _ hs)

theorem Sound.visited {p : List Char} (h : Sound (skipGap p)) : Visited p := by
  intro t ht
  rcases List.mem_cons.1 ht with rfl | ht
  · exact (h.good (.head _)).of_skipGap (skipGap_skipGap t)
  · exact h.good (.tail _ (by rwa [laterStatements_skipGap]))

/-- A definition is visited if its body is sound and what follows it is visited. -/
theorem Visited.of_define {s rest header next : List Char} {marks : Landmarks}
    (hl : readLeading s = (.keyword .define, rest))
    (hend : operandsEnd? rest .define = some (';' :: header))
    (hscan : scanBlock .definition (';' :: header) = .ok marks)
    (hbody : bodyBetween (';' :: header) marks.closing ≠ [])
    (hsound : Sound (bodyBetween (';' :: header) marks.closing))
    (hclose : marks.close = ';' :: next) (hnext : Visited next) : Visited s := by
  obtain ⟨hmem, hcl, _⟩ := scanBlock_landmarks hscan
  rw [laterStatements_terminator] at hmem
  obtain ⟨p, rfl, hp, hpbody⟩ := exists_body_append hmem hbody
  have hword := operandsEnd?_define hend
  have hs : Good s := by
    refine ⟨.statement hl hend ?_ ?_, ?_⟩
    · intro sort hsort
      cases sort <;> cases hsort
    · intro b hb
      cases b with
      | conditional | loop => cases hb
      | definition => exact ⟨marks, hscan, fun _ => hbody⟩
    · -- the statement defines nothing else than this body
      rintro body ⟨rest', marks', hl', hscan', rfl⟩
      rw [hl] at hl'
      cases hl'
      rw [hword] at hscan' ⊢
      rw [hscan] at hscan'
      cases hscan'
      exact hsound
  -- behind the header stand the body, the closing statement and what follows it
  rw [← hpbody] at hsound
  have hclosing : Visited marks.closing := .of_closer hcl hclose hnext
  have hinside : Visited (p ++ marks.closing) := hsound.visited.append hp hclosing
  exact .of_next hs (laterStatements_of_operandsEnd hl hend) hinside

/-! ## A whole check

A step that goes on hands back what is visited behind it. One that stops without an error has come
to the end of the text. -/

/-- A step of a check from the statement `s` on. All statements are visited from there on, if they
are from the place on where the step goes to, or if it finishes the check. -/
def Step.Passes (f : Frame ω) (s : List Char) : Step ω σ → Prop
  | .next f' _ => f'.mode = f.mode ∧ f'.jumps = f.jumps ∧ (Visited f'.rest → Visited s)
  | .stop o => o.ending = .finished → Visited s

theorem Frame.finishStatement_passes (f : Frame ω) (m : Machine ω σ) {s : List Char}
    (h : ∀ next, f.rest = ';' :: next → Visited next → Visited s) :
    (f.finishStatement m).Passes f s := by
  unfold Frame.finishStatement
  split
  · rename_i next hnext
    exact ⟨rfl, rfl, h next (afterTerminator?_eq_some_iff.1 hnext)⟩
  · intro h
    cases h

theorem declare_passes (host : Host ω σ) (sort : Declaration) {f : Frame ω}
    (hf : f.mode = .validate) (m : Machine ω σ) (names : List (List Char × List Char))
    {s : List Char}
    (h : ∀ next, endOfList f.rest names = ';' :: next → (∀ read ∈ names, read.1 ≠ []) →
      Visited next → Visited s) :
    (declare host sort f m names).Passes f s := by
  induction names generalizing f with
  | nil => exact f.finishStatement_passes m fun next hnext => h next hnext (by simp)
  | cons read more ih =>
      obtain ⟨word, rest⟩ := read
      unfold declare
      dsimp only
      split
      · intro h
        cases h
      · rename_i hword
        rw [declareName_validate host sort hf]
        refine @ih { f with rest, locals := f.locals.declare (String.ofList word) } hf ?_
        intro next hnext hmore
        refine h next hnext fun read hread => ?_
        rcases List.mem_cons.1 hread with rfl | hread
        · exact hword
        · exact hmore read hread

/-- A way to run frames that visits every statement where it finishes a check. -/
def VisitsAll (callee : Frame ω → Machine ω σ → Outcome ω σ) : Prop :=
  ∀ (f : Frame ω) (m : Machine ω σ), f.mode = .validate → f.jumps = [] →
    (callee f m).ending = .finished → Visited f.rest

/-- A text is sound if a check of it finishes. -/
theorem VisitsAll.sound {callee : Frame ω → Machine ω σ → Outcome ω σ} (hc : VisitsAll callee)
    {f : Frame ω} {m : Machine ω σ} (hf : f.mode = .validate) (hjumps : f.jumps = [])
    (h : (enter callee f m).ending = .finished) : Sound f.rest := by
  unfold enter at h
  split at h
  · simp at h
  · rename_i hne
    have hvisited := hc { f with rest := skipGap f.rest } m hf hjumps h
    refine sound_of_good hne fun s hs => ?_
    rcases List.mem_cons.1 hs with rfl | hs
    · exact (hvisited _ (.head _)).of_skipGap (skipGap_skipGap f.rest)
    · exact hvisited s (.tail _ (by rwa [laterStatements_skipGap]))

theorem VisitsAll.sound_of_checkBody {callee : Frame ω → Machine ω σ → Outcome ω σ}
    (hc : VisitsAll callee) {f : Frame ω} {m : Machine ω σ} {body : String}
    (h : (checkBody callee f m body).1 = .finished) : Sound body.toList :=
  @VisitsAll.sound _ _ callee hc
    { rest := body.toList, mode := .validate, outer := some (f.chain m.world) } m rfl rfl h

section

variable {host : Host ω σ} {callee : Frame ω → Machine ω σ → Outcome ω σ} (hc : VisitsAll callee)
  {f : Frame ω} (hf : f.mode = .validate)

include hc hf

theorem perform_passes (depth : Nat) (m : Machine ω σ) {v : View ω}
    {start s rest ahead : List Char} {k : Keyword} {a : Action} (hahead : f.rest = ahead)
    (hl : readLeading s = (.keyword k, rest)) (hask : Asks v .validate start rest k a ahead) :
    (perform host callee depth f m a).Passes f s := by
  cases hask with
  | effect _ _ hm => exact absurd hm (by decide)
  | jump _ _ _ hm => exact absurd hm (by decide)
  | skip _ _ _ hm => exact absurd hm (by decide)
  | pass hplain hend =>
      refine f.finishStatement_passes m fun next hnext => ?_
      rw [← hahead, hnext] at hend
      refine .of_next (.of_not_define hl hend ?_ ?_ ?_) (laterStatements_of_operandsEnd hl hend)
      · rintro rfl
        cases hplain
      · rintro sort rfl
        cases sort <;> cases hplain
      · rintro b rfl
        cases b <;> cases hplain
  | @declare sort e hend =>
      refine declare_passes host sort hf m _ fun next hnext hnames => ?_
      have hend : operandsEnd? rest sort.keyword = some (';' :: next) := by
        rw [hahead] at hnext
        rw [hend, ← hnext, operandsEnd?_declaration hend]
      refine .of_next (.of_not_define hl hend ?_ ?_ ?_) (laterStatements_of_operandsEnd hl hend)
      · cases sort <;> exact Keyword.noConfusion
      · exact fun _ _ => hnames
      · intro b hb
        cases sort <;> cases b <;> cases hb
  | @enter b _ marks hb hend hscan =>
      -- a check enters every branch, so the next statement is the first one inside
      refine f.finishStatement_passes m fun next hnext => ?_
      rw [← hahead, hnext] at hend hscan
      refine .of_next (.of_not_define hl hend ?_ ?_ ?_) (laterStatements_of_operandsEnd hl hend)
      · intro hk
        exact hb (by cases b <;> first | rfl | cases hk)
      · intro sort hsort
        cases sort <;> cases b <;> cases hsort
      · intro b' hb'
        have : b' = b := by cases b <;> cases b' <;> first | rfl | cases hb'
        exact ⟨marks, this ▸ hscan⟩
  | @define name e marks hend hterm hscan hbody =>
      simp only [perform]
      rcases hcheck : checkBody callee f m (String.ofList (bodyBetween e marks.closing)) with
        ⟨ending, m'⟩
      cases ending with
      | failed e =>
          intro h
          cases h
      | outOfSteps =>
          intro h
          cases h
      | finished =>
          refine f.finishStatement_passes _ fun next hnext => ?_
          have hsound := hc.sound_of_checkBody (by rw [hcheck])
          rw [String.toList_ofList] at hsound
          obtain ⟨header, rfl⟩ := exists_of_isTerminated hterm
          rw [hahead] at hnext
          exact .of_define hl hend hscan hbody hsound hnext

theorem dispatch_passes (depth : Nat) (m : Machine ω σ) :
    (dispatch host callee depth f m).Passes f f.rest := by
  rcases hl : readLeading (skipGap f.rest) with ⟨leading, rest⟩
  cases leading with
  -- a check that finds no statement finishes only at the end of the text
  | nothing =>
      rw [dispatch_of_nothing hl]
      intro hend
      rw [readLeading_skipGap] at hl
      change (if rest = [] then Ending.finished else _) = .finished at hend
      split at hend
      · rename_i hrest
        rw [hrest] at hl
        exact .last (skipGap_eq_nil_of_nothing hl)
      · simp at hend
  | unknown word =>
      rw [dispatch_of_unknown hl]
      intro h
      cases h
  | keyword k =>
      rcases hread : Reader.statement (f.view host m) f.mode (skipGap f.rest) k ⟨rest, m.retained⟩
        with ⟨a, p⟩ | ⟨e, p⟩
      · rw [dispatch_of_ok hl hread]
        rw [hf] at hread
        rw [readLeading_skipGap] at hl
        exact @perform_passes _ _ host _ hc { f with rest := p.rest } hf depth _ _ _ _ _ _ _ _ rfl hl
          (asks_of_statement hread)
      · rw [dispatch_of_error hl hread]
        intro h
        cases h

theorem step_passes (hjumps : f.jumps = []) (depth : Nat) (m : Machine ω σ) :
    (step host callee depth f m).Passes f f.rest := by
  have hobserve := not_observed_of_validate hf m
  have hjump : f.takeJump = (f, .before f.rest) := by
    refine Frame.takeJump_of_not_due fun j hj => ?_
    rw [hjumps] at hj
    simp at hj
  rw [step_of_before hobserve (by rw [hjump]), hjump]
  exact dispatch_passes hc hf depth m

end

/-- A check that finishes has visited every statement of its text. -/
theorem run_visitsAll (host : Host ω σ) (steps depth : Nat) : VisitsAll (run host steps depth) := by
  induction steps generalizing depth with
  | zero =>
      intro f m _ _ hend
      cases hend
  | succ steps ih =>
      intro f m hf hjumps hend
      rw [run] at hend
      have hstep := @step_passes _ _ host _ (ih (depth + 1)) f hf hjumps depth m
      cases hs : step host (run host steps (depth + 1)) depth f m with
      | next f' m' =>
          rw [hs] at hstep hend
          obtain ⟨hmode, hjumps', hvisited⟩ := hstep
          exact hvisited (ih depth f' m' (hmode.trans hf) (hjumps'.trans hjumps) hend)
      | stop o =>
          rw [hs] at hstep hend
          exact hstep hend

end NumScript.Script
