import NumScript.Command.Job
import NumScript.Proofs.Script.Landing
import NumScript.Proofs.Script.Visits
import NumScript.Proofs.Text.Encoding

set_option autoImplicit false

/-! # The cursor and the characters

The cursor of a frame counts bytes, and a host cuts the text where it stands. So it should always
stand between two characters. What readers, scans and terminators leave ahead is the end of the text
from some character on, so with them it does. The exception is the jump over the second branch of a
conditional. It passes one byte behind the closing keyword and does not look at it. Where a character
of more than one byte stands there, the cursor comes to stand inside it (`Station.Slips`).

From such a place a run reads no further: it stops at once, as if it had found an empty statement. A
check leaves no jumps, so it never comes to such a place.

The list of stations is longer than what a host can observe. It has the places between two
statements, those inside subroutines and those of checks, so a statement that left the cursor in a
wrong place would be noticed even if a later one brought it back. What a reader does in between is
the matter of the cursor by bytes.
-/

namespace NumScript.Script

variable {ω σ : Type}

/-! ## Where a reading ends

Each reader leaves an end of the text that it was given, whether it succeeds or fails. These are
facts about suffixes, one for each reader, and they hold of the places that a failed reading
reports. -/

/-- The text ahead after a reading, whether it succeeds or fails. -/
def Reader.ahead {α : Type} (r : Reader α) (p : Progress) : List Char :=
  match r p with
  | .ok _ q => q.rest
  | .error _ q => q.rest

/-- The items of a list leave what is ahead in the text that is read. -/
theorem readList_suffix {read : List Char → List Char × List Char}
    {hread : ∀ text, (read text).2.length ≤ text.length} (hahead : ∀ text, (read text).2 <:+ text)
    (text : List Char) : ∀ item ∈ readList read hread text, item.2 <:+ text := by
  induction text using readList.induct read hread with
  | case1 text rest hsep ih =>
      rw [readList_of_separator hsep]
      refine List.forall_mem_cons.2 ⟨hahead text, fun item hitem => ?_⟩
      have hrest : ',' :: rest <:+ text := afterSeparator?_eq_some_iff.1 hsep ▸ hahead text
      exact (ih item hitem).trans ((List.suffix_cons _ _).trans hrest)
  | case2 text hsep =>
      rw [readList_of_last hsep]
      exact List.forall_mem_singleton.2 (hahead text)

theorem argumentTexts_suffix (text : List Char) : ∀ item ∈ argumentTexts text, item.2 <:+ text := by
  unfold argumentTexts
  split
  · exact List.forall_mem_nil _
  · exact readList_suffix readParam_suffix text

theorem scanStatements_error_suffix {b : Block} {depth : Nat} {alternate : Option (List Char)}
    {t here rest : List Char} {statements : List (List Char)} (hhere : here <:+ t)
    (hall : ∀ s ∈ statements, s <:+ t)
    (h : scanStatements b depth alternate here statements = .error rest) : rest <:+ t := by
  induction statements generalizing depth alternate here with
  | nil =>
      cases h
      exact hhere
  | cons s more ih =>
      obtain ⟨hs, hmore⟩ := List.forall_mem_cons.1 hall
      rw [scanStatements] at h
      rcases hl : readLeading s with ⟨leading, ahead⟩
      have hlead := (readLeading_suffix hl).trans hs
      rw [hl] at h
      cases leading with
      | nothing | unknown _ => exact ih hlead hmore h
      | keyword k =>
          dsimp only at h
          split at h
          · exact ih hlead hmore h
          split at h
          · split at h
            · cases h
            · exact ih hlead hmore h
          split at h <;> exact ih hlead hmore h

theorem scanBlock_error_suffix {b : Block} {header rest : List Char}
    (h : scanBlock b header = .error rest) : rest <:+ header :=
  scanStatements_error_suffix (List.suffix_refl _) (fun _ hs => suffix_of_mem_laterStatements hs) h

theorem close_suffix {b : Block} {header : List Char} {marks : Landmarks}
    (h : scanBlock b header = .ok marks) : marks.close <:+ header :=
  (isLater_of_scanBlock h).1

/-- The second branch of a block is ahead of its header, and so is its end. -/
theorem alternate_suffix {b : Block} {header : List Char} {marks : Landmarks}
    (h : scanBlock b header = .ok marks) : marks.alternate.getD marks.close <:+ header := by
  cases halternate : marks.alternate with
  | none => exact close_suffix h
  | some ahead =>
      obtain ⟨s, hs, hl⟩ := (scanBlock_landmarks h).2.2 ahead halternate
      exact (readLeading_suffix hl).trans (suffix_of_mem_laterStatements hs)

namespace Reader

variable {α : Type} {r : Reader α} {v : View ω} {mode : Mode} {start t : List Char}
  {p q : Progress} {e : Error} {x : α}

theorem ahead_of_ok (h : r p = .ok x q) : r.ahead p = q.rest := by
  rw [ahead, h]

theorem ahead_of_error (h : r p = .error e q) : r.ahead p = q.rest := by
  rw [ahead, h]

variable (v mode p)

theorem param_ahead : (param v mode).ahead p = (readParam p.rest).2 := by
  unfold ahead
  rw [param_eq]
  cases v.value mode (readParam p.rest).1 <;> rfl

theorem values_suffix {reads : List (List Char × List Char)} {p : Progress} (hp : p.rest <:+ t)
    (hreads : ∀ read ∈ reads, read.2 <:+ t) : (values v mode reads).ahead p <:+ t := by
  induction reads generalizing p with
  | nil => exact hp
  | cons read more ih =>
      obtain ⟨text, rest⟩ := read
      obtain ⟨hrest, hmore⟩ := List.forall_mem_cons.1 hreads
      have hvalue := evaluate_eq v mode { p with rest } text
      have hgo : goTo rest p = .ok () { p with rest } := rfl
      unfold ahead
      rw [values, bind_of_ok hgo]
      cases hx : v.value mode text with
      | error e =>
          rw [hx] at hvalue
          rw [bind_of_error hvalue]
          exact hrest
      | ok x =>
          rw [hx] at hvalue
          rw [bind_of_ok hvalue]
          have hlater := @ih ⟨rest, some (Expr.evaluate v.names text)⟩ hrest hmore
          cases hxs : values v mode more ⟨rest, some (Expr.evaluate v.names text)⟩ with
          | error e q =>
              rw [bind_of_error hxs]
              rwa [ahead_of_error hxs] at hlater
          | ok xs q =>
              rw [bind_of_ok hxs]
              rwa [ahead_of_ok hxs] at hlater

theorem arguments_suffix : (arguments v mode).ahead p <:+ p.rest := by
  rw [ahead, arguments_eq_values]
  exact values_suffix v mode (List.suffix_refl _) (argumentTexts_suffix p.rest)

theorem param_suffix : (param v mode).ahead p <:+ p.rest := by
  rw [param_ahead]
  exact readParam_suffix p.rest

theorem conditional_suffix : (conditional v mode).ahead p <:+ p.rest := by
  have hparam := param_suffix v mode p
  rw [ahead, conditional_eq]
  by_cases hp : isTerminated p.rest = true
  · simpa only [if_pos hp] using List.suffix_refl p.rest
  rw [if_neg hp]
  cases hguard : param v mode p with
  | error e q => rwa [ahead_of_error hguard] at hparam
  | ok guard q =>
      rw [ahead_of_ok hguard] at hparam
      dsimp only
      cases hscan : scanBlock .conditional q.rest with
      | error rest => exact (scanBlock_error_suffix hscan).trans hparam
      | ok marks =>
          cases mode with
          | validate => exact hparam
          | execute =>
              cases Number.isTrue guard with
              | true =>
                  dsimp only
                  cases marks.alternate <;> exact hparam
              | false => exact (alternate_suffix hscan).trans hparam

theorem loop_suffix (start : List Char) : (loop v mode start).ahead p <:+ p.rest := by
  have hparam := param_suffix v mode p
  rw [ahead, loop_eq]
  by_cases hp : isTerminated p.rest = true
  · simpa only [if_pos hp] using List.suffix_refl p.rest
  rw [if_neg hp]
  cases hguard : param v mode p with
  | error e q => rwa [ahead_of_error hguard] at hparam
  | ok guard q =>
      rw [ahead_of_ok hguard] at hparam
      dsimp only
      cases hscan : scanBlock .loop q.rest with
      | error rest => exact (scanBlock_error_suffix hscan).trans hparam
      | ok marks =>
          cases mode with
          | validate => exact hparam
          | execute =>
              cases Number.isTrue guard with
              | true => exact hparam
              | false => exact (close_suffix hscan).trans hparam

theorem definition_suffix : definition.ahead p <:+ p.rest := by
  have hname := readWord_suffix p.rest
  rw [ahead, definition_eq]
  by_cases hp : isTerminated p.rest = true
  · simpa only [if_pos hp] using List.suffix_refl p.rest
  rw [if_neg hp]
  dsimp only
  by_cases hbad : (String.ofList (readWord p.rest).1).isEmpty ||
      !isTerminated (readWord p.rest).2
  · rw [if_pos hbad]
    exact hname
  rw [if_neg hbad]
  cases hscan : scanBlock .definition (readWord p.rest).2 with
  | error rest => exact (scanBlock_error_suffix hscan).trans hname
  | ok marks =>
      have hclose := (close_suffix hscan).trans hname
      dsimp only
      cases (bodyBetween (readWord p.rest).2 marks.closing).isEmpty <;> exact hclose

/-- Whatever becomes of a statement, it is read up to a place further on. -/
theorem statement_suffix (start : List Char) (k : Keyword) :
    (statement v mode start k).ahead p <:+ p.rest := by
  have hword := readWord_suffix p.rest
  have hself := List.suffix_refl p.rest
  -- the headers of blocks, which end where a scan does, are treated above
  cases k with
  | set =>
      change ahead (assignment v mode) p <:+ p.rest
      have hparam := param_suffix v mode { p with rest := (readWord p.rest).2 }
      unfold ahead at hparam
      rw [ahead, assignment_eq]
      grind [List.IsSuffix.trans]
  | call =>
      change ahead (nativeCall v mode) p <:+ p.rest
      have hargs := arguments_suffix v mode { p with rest := (readWord p.rest).2 }
      unfold ahead at hargs
      rw [ahead, nativeCall_eq]
      grind [List.IsSuffix.trans]
  | goto =>
      change ahead (subroutineCall v mode) p <:+ p.rest
      have hargs := arguments_suffix v mode { p with rest := (readWord p.rest).2 }
      unfold ahead at hargs
      rw [ahead, subroutineCall_eq]
      grind [List.IsSuffix.trans]
  | var | exportVar | pop =>
      simp only [ahead, statement, declaration_eq]
      grind
  | ifBlock => exact conditional_suffix v mode p
  | whileBlock => exact loop_suffix v mode p start
  | define => exact definition_suffix p
  | returnValue =>
      change ahead (result v mode) p <:+ p.rest
      have hparam := param_suffix v mode p
      unfold ahead at hparam
      rw [ahead, result_eq]
      grind [List.IsSuffix.trans]
  | exit | elseBranch | fi | done | endDefine => exact hself

end Reader

/-! ## Stations

The stations list where the cursor is throughout a run, in the script and in each text that is
entered from it. A property of all stations is one of the whole run and not of its end only. -/

/-- A place where the cursor of a frame stands: the text of the frame, and how many bytes of it are
ahead. -/
structure Station where
  text : List Char
  left : Nat

def SlipsBehind (text close : List Char) : Prop :=
  ∃ s marks c rest, s <:+ text ∧ HasBranches s marks ∧ marks.close = close ∧ close = c :: rest ∧
    1 < c.utf8Size

namespace Station

def offset (st : Station) : Nat :=
  Text.byteSize st.text - st.left

def OnBoundary (st : Station) : Prop :=
  st.left ≤ Text.byteSize st.text ∧ Text.IsBoundary (Text.utf8 st.text) st.offset

/-- The cursor stands one byte inside a character behind a conditional. -/
def Slips (st : Station) : Prop :=
  ∃ close, SlipsBehind st.text close ∧ st.left + 1 = Text.byteSize close

theorem onBoundary_of_suffix {text s : List Char} (h : s <:+ text) :
    OnBoundary ⟨text, Text.byteSize s⟩ :=
  ⟨Text.byteSize_le_of_suffix h, Text.isBoundary_of_suffix h⟩

end Station

def Point.left : Point → Nat
  | .before s => Text.byteSize s
  | .inside s => Text.byteSize s - 1

/-- The stations of a frame that is entered, given those from a statement on. -/
def enterStations (stations : List Char → Frame ω → Machine ω σ → List Station) (f : Frame ω)
    (m : Machine ω σ) : List Station :=
  ⟨f.rest, Text.byteSize f.rest⟩ ::
    match skipGap f.rest with
    | [] => [⟨f.rest, 0⟩]
    | rest => stations f.rest { f with rest } m

/-- The stations of a run over a text, those of the frames that it enters included: before each look
at the jumps and behind it, where a statement was read, and where the run ends. -/
def stations (host : Host ω σ) :
    (steps depth : Nat) → List Char → Frame ω → Machine ω σ → List Station
  | 0, _, text, f, _ => [⟨text, Text.byteSize f.rest⟩]
  | steps + 1, depth, text, f, m =>
    let inner := enterStations (stations host steps (depth + 1))
    let jumped :=
      if f.mode.observesTermination && m.world.stopping then [] else [⟨text, f.takeJump.2.left⟩]
    let read :=
      match request host f m with
      | .error _ => []
      | .ok (a, g, n) =>
        ⟨text, Text.byteSize g.rest⟩ ::
          match a with
          | .invoke _ body args =>
            if host.maxDepth ≤ depth then []
            else inner { rest := body.toList, params := some args } { n with lastReturn := none }
          | .define _ body =>
            inner { rest := body.toList, mode := .validate, outer := some (g.chain n.world) } n
          | _ => []
    let later :=
      match step host (run host steps (depth + 1)) depth f m with
      | .next f m => stations host steps depth text f m
      | .stop o => [⟨text, o.left⟩]
    ⟨text, Text.byteSize f.rest⟩ :: (jumped ++ read ++ later)

/-! ## Where a step stops

A frame is within its text, or it has slipped. A step keeps this. The only jump that can lead
elsewhere is the one over a second branch, and then the next step ends the run. -/

/-- The point is where the text goes on from some character on, or it is where a running frame slips.
-/
def Point.Within (mode : Mode) (text : List Char) : Point → Prop
  | .before s => s <:+ text
  | .inside close => mode = .execute ∧ SlipsBehind text close

/-- The frame is where the text goes on, and its jumps lead to such points. -/
def Frame.Within (text : List Char) (f : Frame ω) : Prop :=
  f.Meets (· <:+ text) (Point.Within f.mode text)

theorem Frame.within_of_suffix {text : List Char} {f : Frame ω} (h : f.rest <:+ text)
    (hjumps : f.jumps = []) : f.Within text := by
  refine ⟨h, ?_⟩
  rw [hjumps]
  exact List.forall_mem_nil _

theorem within_of_comesTo {mode : Mode} {text s : List Char}
    (h : ComesTo (· <:+ text) (Point.Within mode text) s) : s <:+ text :=
  h.elim id id

/-- The jump over a second branch leads to where the text goes on, or it slips. -/
theorem leadsOn_within (mode : Mode) (text : List Char) :
    LeadsOn mode (· <:+ text) (Point.Within mode text) where
  later hs hu := (suffix_of_mem_laterStatements hu).trans (within_of_comesTo hs)
  back hs _ := (skipGap_suffix _).trans (within_of_comesTo hs)
  across {s marks} hmode hs hbranches := by
    cases hclose : marks.close with
    | nil => exact List.nil_suffix
    | cons c rest =>
        have hsuffix := hbranches.close_suffix.trans (within_of_comesTo hs)
        rw [hclose] at hsuffix
        rw [oneByteOn]
        split
        · exact (List.suffix_cons c rest).trans hsuffix
        · rename_i hsize
          have hpos := c.utf8Size_pos
          cases mode with
          | validate => cases hmode
          | execute =>
              exact ⟨rfl, s, marks, c, rest, within_of_comesTo hs, hbranches, hclose, rfl, by omega⟩

section

variable {host : Host ω σ} {callee : Frame ω → Machine ω σ → Outcome ω σ} {depth : Nat}
  {text : List Char} {f f' : Frame ω} {m m' : Machine ω σ} {o : Outcome ω σ}

theorem Frame.Within.takeJump (hf : f.Within text) : f.takeJump.2.Within f.mode text := by
  rcases Frame.Meets.takeJump hf with ⟨hpoint, hrest⟩ | ⟨j, -, -, hpoint, htarget⟩
  · rw [hpoint]
    exact hrest
  · rw [hpoint]
    exact htarget

theorem Frame.Within.of_step (hf : f.Within text)
    (h : step host callee depth f m = .next f' m') : f'.Within text := by
  unfold Frame.Within
  rw [mode_of_step h]
  exact meets_of_step (leadsOn_within f.mode text) hf h

/-- How many bytes are ahead where the run stops: an end of the text, or a part of it behind a jump
that slips, and then the run ends as it does at an empty statement. -/
def Outcome.StopsWithin (text : List Char) (mode : Mode) (o : Outcome ω σ) : Prop :=
  (∃ s, s <:+ text ∧ o.left = Text.byteSize s) ∨
    mode = .execute ∧ (∃ close, SlipsBehind text close ∧ o.left = Text.byteSize close - 1) ∧
      o.ending = .failed .emptyStatement

theorem left_of_request_error (hf : f.Within text) (h : request host f m = .error o) :
    o.StopsWithin text f.mode := by
  have hpoint := hf.takeJump
  unfold request at h
  split at h
  · -- the host asked to stop, and no jump was taken
    cases h
    exact .inl ⟨f.rest, hf.1, rfl⟩
  rcases hjump : f.takeJump with ⟨start, point⟩
  rw [hjump] at h hpoint
  cases point with
  | inside close =>
      cases h
      exact .inr ⟨hpoint.1, ⟨close, hpoint.2, rfl⟩, rfl⟩
  | before rest =>
      have hrest : skipGap rest <:+ text := (skipGap_suffix rest).trans hpoint
      dsimp only at h
      split at h
      · rename_i hl
        cases h
        exact .inl ⟨_, (readLeading_suffix hl).trans hrest, rfl⟩
      · rename_i hl
        cases h
        exact .inl ⟨_, (readLeading_suffix hl).trans hrest, rfl⟩
      · rename_i k ahead hl
        split at h
        · rename_i e p hread
          cases h
          have hp := Reader.statement_suffix (start.view host m) start.mode ⟨ahead, m.retained⟩
            (skipGap rest) k
          rw [Reader.ahead_of_error hread] at hp
          exact .inl ⟨_, hp.trans ((readLeading_suffix hl).trans hrest), rfl⟩
        · cases h

/-- A statement that was read, was read in the text. -/
theorem rest_of_request {a : Action} (hf : f.Within text) (h : request host f m = .ok (a, f', m')) :
    f'.rest <:+ text ∧ ∀ sort names, a = .declare sort names → ∀ read ∈ names, read.2 <:+ text := by
  obtain ⟨s, k, rest, retained, hpoint, hl, hread, -⟩ := reading_of_request h
  have hs := hf.takeJump
  rw [hpoint] at hs
  have hrest : rest <:+ text := (readLeading_suffix hl).trans ((skipGap_suffix s).trans hs)
  have hahead := Reader.statement_suffix (f.view host m) f.mode ⟨rest, m.retained⟩ (skipGap s) k
  rw [Reader.ahead_of_ok hread] at hahead
  refine ⟨hahead.trans hrest, ?_⟩
  rintro sort names rfl read hmem
  have hasks := asks_of_statement hread
  cases hasks with
  | declare _ _ => exact (readList_suffix readWord_suffix _ read hmem).trans hrest
  | effect _ _ _ heffect => cases heffect

theorem left_of_finishStatement (h : f.finishStatement m = .stop o) :
    o.left = Text.byteSize f.rest := by
  unfold Frame.finishStatement at h
  split at h
  · cases h
  · cases h
    rfl

theorem left_of_declare {sort : Declaration} {names : List (List Char × List Char)}
    (hf : f.rest <:+ text) (hnames : ∀ read ∈ names, read.2 <:+ text)
    (h : declare host sort f m names = .stop o) : ∃ s, s <:+ text ∧ o.left = Text.byteSize s := by
  induction names generalizing f m with
  | nil => exact ⟨_, hf, left_of_finishStatement h⟩
  | cons read more ih =>
      obtain ⟨word, rest⟩ := read
      obtain ⟨hrest, hmore⟩ := List.forall_mem_cons.1 hnames
      unfold declare at h
      dsimp only at h
      split at h
      · cases h
        exact ⟨rest, hrest, rfl⟩
      split at h
      · rename_i a world _
        exact @ih { toActivation := a, rest, jumps := f.jumps } { m with world } hrest hmore h
      · cases h
        exact ⟨rest, hrest, rfl⟩

theorem left_of_perform {a : Action} (hf : f.rest <:+ text)
    (hnames : ∀ sort names, a = .declare sort names → ∀ read ∈ names, read.2 <:+ text)
    (h : perform host callee depth f m a = .stop o) :
    ∃ s, s <:+ text ∧ o.left = Text.byteSize s := by
  have stop {ending : Ending} {n : Machine ω σ} (hstop : f.stop n ending = .stop o) :
      ∃ s, s <:+ text ∧ o.left = Text.byteSize s := by
    cases hstop
    exact ⟨f.rest, hf, rfl⟩
  cases a with
  | pass => exact ⟨_, hf, left_of_finishStatement h⟩
  | jump j => exact ⟨f.rest, hf, (left_of_finishStatement h :)⟩
  | assign name x => exact ⟨f.rest, hf, (left_of_finishStatement h :)⟩
  | call name args =>
      simp only [perform] at h
      split at h
      · exact ⟨_, hf, left_of_finishStatement h⟩
      · exact stop h
  | invoke name body args =>
      simp only [perform] at h
      split at h
      · exact ⟨_, hf, left_of_finishStatement h⟩
      · exact stop h
  | define name body =>
      simp only [perform] at h
      split at h
      · exact ⟨_, hf, left_of_finishStatement h⟩
      · exact stop h
  | declare sort names => exact left_of_declare hf (hnames sort names rfl) h
  | finish result => cases result <;> exact stop h

theorem left_of_step (hf : f.Within text) (h : step host callee depth f m = .stop o) :
    o.StopsWithin text f.mode := by
  rw [step_eq] at h
  cases hreq : request host f m with
  | error o' =>
      rw [hreq] at h
      cases h
      exact left_of_request_error hf hreq
  | ok asked =>
      obtain ⟨a, g, n⟩ := asked
      rw [hreq] at h
      obtain ⟨hrest, hnames⟩ := rest_of_request hf hreq
      exact .inl (left_of_perform hrest hnames h)

end

/-! ## The stations of a run

The induction is over the number of steps and goes into subroutines and checks. A frame that slipped
fails, and so do its callers, so the ending of the run shows it. -/

/-- A station is on a boundary, or the cursor slipped in a running frame, which ends there. -/
def Station.Holds (mode : Mode) (ending : Ending) (st : Station) : Prop :=
  st.OnBoundary ∨ mode = .execute ∧ st.Slips ∧ ending = .failed .emptyStatement

section

variable {host : Host ω σ} {callee : Frame ω → Machine ω σ → Outcome ω σ} {depth : Nat}
  {text : List Char} {f f' : Frame ω} {m m' : Machine ω σ} {o : Outcome ω σ}

theorem SlipsBehind.slips {close : List Char} (h : SlipsBehind text close) :
    Station.Slips ⟨text, Text.byteSize close - 1⟩ := by
  refine ⟨close, h, ?_⟩
  obtain ⟨-, -, c, rest, -, -, -, rfl, -⟩ := h
  exact Nat.sub_add_cancel (Nat.le_trans c.utf8Size_pos (Nat.le_add_right _ _))

theorem Outcome.StopsWithin.holds {mode : Mode} (h : o.StopsWithin text mode) :
    Station.Holds mode o.ending ⟨text, o.left⟩ := by
  rcases h with ⟨s, hs, hleft⟩ | ⟨hmode, ⟨close, hclose, hleft⟩, hending⟩
  · rw [hleft]
    exact .inl (Station.onBoundary_of_suffix hs)
  · rw [hleft]
    exact .inr ⟨hmode, hclose.slips, hending⟩

def HoldsAll (stations : List Char → Frame ω → Machine ω σ → List Station)
    (callee : Frame ω → Machine ω σ → Outcome ω σ) : Prop :=
  ∀ (text : List Char) (f : Frame ω) (m : Machine ω σ), f.Within text →
    ∀ st ∈ stations text f m, st.Holds f.mode (callee f m).ending

theorem Station.Holds.of_suffix {mode : Mode} {ending : Ending} {s : List Char} (h : s <:+ text) :
    Station.Holds mode ending ⟨text, Text.byteSize s⟩ :=
  .inl (Station.onBoundary_of_suffix h)

/-- A check does not slip. -/
theorem Station.Holds.onBoundary {ending : Ending} {st : Station} (h : st.Holds .validate ending) :
    st.OnBoundary :=
  h.resolve_right fun hslip => Mode.noConfusion hslip.1

theorem HoldsAll.enter {stations : List Char → Frame ω → Machine ω σ → List Station}
    (h : HoldsAll stations callee) (hjumps : f.jumps = []) :
    ∀ st ∈ enterStations stations f m, st.Holds f.mode (enter callee f m).ending := by
  unfold enterStations Script.enter
  refine List.forall_mem_cons.2 ⟨.of_suffix (List.suffix_refl _), ?_⟩
  cases hgap : skipGap f.rest with
  | nil => exact List.forall_mem_singleton.2 (.of_suffix (s := []) List.nil_suffix)
  | cons c rest =>
      exact h f.rest { f with rest := c :: rest } m
        (Frame.within_of_suffix (hgap ▸ skipGap_suffix f.rest) hjumps)

/-- A caller fails as its subroutine did. -/
theorem perform_invoke_of_failed {name body : String} {args : List Float} {e : Error}
    (hdepth : ¬ host.maxDepth ≤ depth)
    (h : (Script.enter callee { rest := body.toList, params := some args }
      { m with lastReturn := none }).ending = .failed e) :
    ∃ o, perform host callee depth f m (.invoke name body args) = .stop o ∧ o.ending = .failed e := by
  rw [perform_invoke_eq, if_neg hdepth, resume_of_not_finished _ (by rw [h]; exact Ending.noConfusion)]
  exact ⟨_, rfl, h⟩

theorem execute_of_invoke {name body : String} {args : List Float}
    (h : request host f m = .ok (.invoke name body args, f', m')) : f.mode = .execute := by
  obtain ⟨s, k, rest, retained, -, -, hread, -⟩ := reading_of_request h
  cases asks_of_statement hread with
  | effect _ _ hmode _ =>
      cases hf : f.mode with
      | execute => rfl
      | validate =>
          rw [hf] at hmode
          cases hmode

theorem run_stations (host : Host ω σ) (steps depth : Nat) :
    HoldsAll (stations host steps depth) (run host steps depth) := by
  induction steps generalizing depth with
  | zero =>
      intro text f m hf
      exact List.forall_mem_singleton.2 (.of_suffix hf.1)
  | succ steps ih =>
      intro text f m hf
      -- subroutines and checks of bodies run with one step less, at the next depth
      have hinner := ih (depth + 1)
      rw [run, stations]
      refine List.forall_mem_cons.2 ⟨.of_suffix hf.1, ?_⟩
      rw [List.forall_mem_append, List.forall_mem_append]
      refine ⟨⟨?_, ?_⟩, ?_⟩
      · -- behind the jump
        split
        · exact List.forall_mem_nil _
        · rename_i hopen
          refine List.forall_mem_singleton.2 ?_
          have hpoint := hf.takeJump
          cases hjump : f.takeJump.2 with
          | before s =>
              rw [hjump] at hpoint
              exact .of_suffix hpoint
          | inside close =>
              rw [hjump] at hpoint
              rw [step_of_inside hopen hjump]
              exact .inr ⟨hpoint.1, hpoint.2.slips, rfl⟩
      · -- the statement
        cases hreq : request host f m with
        | error o => exact List.forall_mem_nil _
        | ok asked =>
            obtain ⟨a, g, n⟩ := asked
            refine List.forall_mem_cons.2 ⟨.of_suffix (rest_of_request hf hreq).1, ?_⟩
            rw [step_eq, hreq]
            cases a with
            | invoke name body args =>
                dsimp only
                split
                · exact List.forall_mem_nil _
                rename_i hdepth
                intro st hst
                -- a slip in the subroutine fails it, and the caller with it
                refine (hinner.enter rfl st hst).imp_right ?_
                rintro ⟨-, hslip, hending⟩
                obtain ⟨o, ho, hend⟩ := perform_invoke_of_failed hdepth hending
                rw [ho]
                exact ⟨execute_of_invoke hreq, hslip, hend⟩
            | define name body =>
                intro st hst
                exact .inl (hinner.enter rfl st hst).onBoundary
            | _ => exact List.forall_mem_nil _
      · -- what comes after it
        cases hstep : step host (run host steps (depth + 1)) depth f m with
        | next f' m' =>
            rw [← mode_of_step hstep]
            exact ih depth text f' m' (hf.of_step hstep)
        | stop o => exact List.forall_mem_singleton.2 (left_of_step hf hstep).holds

/-- The place where a run stops is one of the stations. -/
theorem mem_stations (host : Host ω σ) (steps depth : Nat) (text : List Char) (f : Frame ω)
    (m : Machine ω σ) :
    ⟨text, (run host steps depth f m).left⟩ ∈ stations host steps depth text f m := by
  induction steps generalizing f m with
  | zero => exact .head _
  | succ steps ih =>
      rw [run, stations]
      refine .tail _ (List.mem_append_right _ ?_)
      cases hstep : step host (run host steps (depth + 1)) depth f m with
      | next f' m' => exact ih f' m'
      | stop o => exact .head _

theorem mem_enterStations (host : Host ω σ) (steps depth : Nat) (f : Frame ω) (m : Machine ω σ) :
    ⟨f.rest, (enter (run host steps depth) f m).left⟩ ∈
      enterStations (stations host steps depth) f m := by
  unfold enterStations enter
  cases skipGap f.rest with
  | nil => exact .tail _ (.head _)
  | cons c rest => exact .tail _ (mem_stations ..)

end

namespace Interpreter

/-- The stations of a run of a script. -/
def stations (i : Interpreter ω σ) (steps : Nat) (script : String) (params : Option (List Float)) :
    List Station :=
  enterStations (Script.stations i.host steps 0) { rest := script.toList, params } i.begun

def checkStations (i : Interpreter ω σ) (script : String) (chain : Option (Chain ω)) :
    List Station :=
  enterStations (Script.stations i.host (script.toList.length + 1) 0)
    { rest := script.toList, mode := .validate, outer := chain } { i.machine with lastReturn := none }

/-- The cursor stays on character boundaries, in every frame of a run and of a check and to its end,
but for one case: a jump over the second branch of a conditional leads inside the character that
stands where the terminator is due. Then the run ends with the error of an empty statement. No check
comes to such a place. -/
theorem stations_onBoundary (i : Interpreter ω σ) (script : String) :
    (∀ steps params,
      (∃ st ∈ i.stations steps script params, st.text = script.toList ∧
        (i.evaluate steps script params).2.lastPosition = st.offset) ∧
      ∀ st ∈ i.stations steps script params, st.OnBoundary ∨
        st.Slips ∧ (i.evaluate steps script params).1 = .failed .emptyStatement) ∧
    ∀ chain,
      (∃ st ∈ i.checkStations script chain, st.text = script.toList ∧
        (i.validate script chain).2.lastPosition = st.offset) ∧
      ∀ st ∈ i.checkStations script chain, st.OnBoundary := by
  refine ⟨fun steps params => ⟨?_, fun st hst => ?_⟩, fun chain => ⟨?_, fun st hst => ?_⟩⟩
  · exact ⟨_, mem_enterStations .., rfl, rfl⟩
  · exact ((run_stations i.host steps 0).enter rfl st hst).imp_right And.right
  · exact ⟨_, mem_enterStations .., rfl, rfl⟩
  · exact ((run_stations i.host _ 0).enter rfl st hst).onBoundary

/-- A character of two bytes stands where `;` is due, and the run stops between its bytes. -/
theorem evaluate_not_isBoundary :
    let script := "if 1; else; fi \u00e9;"
    let after := (Command.interpreter.evaluate 10 script none).2
    after.lastPosition = 16 ∧
      ¬ Text.IsBoundary (Text.utf8 script.toList) after.lastPosition := by
  decide +kernel

end Interpreter

end NumScript.Script
