import NumScript.Proofs.Script.Terminators

set_option autoImplicit false

/-! # Texts that are built as they should be

A statement is well formed if its operands end with a terminator, the names that it declares are
there and the block that it opens is closed; for a subroutine there must be a body, too
(`WellFormed`). A text is sound if there is a statement in it, all its statements are well formed,
and the bodies of its subroutines are sound texts of their own (`Sound`). The statements of a text
are those after its terminators, however its blocks are nested: wherever a run may jump to, it is
one of these.

A body is part of the text it is defined in, so its statements occur in both. Since it ends with a
terminator, its statements are read in the same way in the longer text (`Good.append`).
-/

namespace NumScript.Script

/-! ## Landmarks

The search for the end of a block returns places ahead of it, and each of them is the start of a
later statement or what follows its first word. This is all that is used of a successful search. -/

theorem scanStatements_landmarks {block : Block} {depth : Nat} {alternate : Option (List Char)}
    {here : List Char} {statements : List (List Char)} {marks : Landmarks}
    (h : scanStatements block depth alternate here statements = .ok marks) :
    marks.closing ∈ statements ∧
      readLeading marks.closing = (.keyword block.closer, marks.close) ∧
      ∀ ahead, marks.alternate = some ahead → alternate = some ahead ∨
        ∃ s ∈ statements, readLeading s = (.keyword .elseBranch, ahead) := by
  induction statements generalizing depth alternate here with
  | nil => cases h
  | cons s more ih =>
      -- what holds of the statements after `s` holds of all
      have later {depth : Nat} {here : List Char}
          (h : scanStatements block depth alternate here more = .ok marks) :
          marks.closing ∈ s :: more ∧
            readLeading marks.closing = (.keyword block.closer, marks.close) ∧
            ∀ ahead, marks.alternate = some ahead → alternate = some ahead ∨
              ∃ t ∈ s :: more, readLeading t = (.keyword .elseBranch, ahead) := by
        obtain ⟨hmem, hclose, halt⟩ := ih h
        refine ⟨.tail _ hmem, hclose, fun ahead ha => ?_⟩
        rcases halt ahead ha with h | ⟨t, ht, h⟩
        · exact .inl h
        · exact .inr ⟨t, .tail _ ht, h⟩
      -- only a closer at depth zero ends the search, and only an `else` sets the second branch
      rw [scanStatements] at h
      rcases hs : readLeading s with ⟨leading, ahead⟩
      rw [hs] at h
      cases leading with
      | nothing => exact later h
      | unknown word => exact later h
      | keyword k =>
          dsimp only at h
          split at h
          · exact later h
          split at h
          · rename_i hk
            cases depth with
            | zero =>
                cases h
                exact ⟨.head _, by rw [hs, hk], fun _ ha => .inl ha⟩
            | succ outer => exact later h
          split at h
          · rename_i helse
            obtain ⟨hmem, hclose, halt⟩ := ih h
            refine ⟨.tail _ hmem, hclose, fun ahead' ha => .inr ?_⟩
            rcases halt ahead' ha with h | ⟨t, ht, h⟩
            · cases h
              exact ⟨s, .head _, by rw [hs, helse.2.1]⟩
            · exact ⟨t, .tail _ ht, h⟩
          · exact later h

/-- The closing statement of a block is a later statement, and so is its second branch. -/
theorem scanBlock_landmarks {block : Block} {header : List Char} {marks : Landmarks}
    (h : scanBlock block header = .ok marks) :
    marks.closing ∈ laterStatements header ∧
      readLeading marks.closing = (.keyword block.closer, marks.close) ∧
      ∀ ahead, marks.alternate = some ahead →
        ∃ s ∈ laterStatements header, readLeading s = (.keyword .elseBranch, ahead) := by
  obtain ⟨hmem, hclose, halt⟩ := scanStatements_landmarks h
  refine ⟨hmem, hclose, fun ahead ha => ?_⟩
  rcases halt ahead ha with h | h
  · simp at h
  · exact h

def Landmarks.append (marks : Landmarks) (t : List Char) : Landmarks where
  close := marks.close ++ t
  alternate := marks.alternate.map (· ++ t)
  closing := marks.closing ++ t

theorem IsClosed.readLeading_append {s rest : List Char} {leading : Leading} (hs : IsClosed s)
    (t : List Char) (h : readLeading s = (leading, rest)) :
    readLeading (s ++ t) = (leading, rest ++ t) := by
  refine NumScript.Script.readLeading_append t h ?_
  rintro rfl
  unfold IsClosed at hs
  rw [← laterStatements_readLeading h] at hs
  cases hs

/-- A block that is closed in a text is closed at the same place in any longer text. -/
theorem scanStatements_append {block : Block} {depth : Nat} {alternate : Option (List Char)}
    {s : List Char} (hs : s = [] ∨ IsClosed s) {here : List Char} {marks : Landmarks}
    (h : scanStatements block depth alternate here (laterStatements s) = .ok marks)
    (t here' : List Char) (more : List (List Char)) :
    scanStatements block depth (alternate.map (· ++ t)) here'
      ((laterStatements s).map (· ++ t) ++ more) = .ok (marks.append t) := by
  -- along the statements of the shorter text, each of which the search meets in the longer one,
  -- too
  induction s using laterStatements_induction generalizing depth alternate here here' with
  | last s hlast =>
      rw [hlast] at h
      cases h
  | more s r hr ih =>
      have hclosed : r = [] ∨ IsClosed r := by
        rcases hs with rfl | hs
        · cases hr
        · exact hs.of_mem (by rw [hr]; exact .head _)
      rw [hr] at h ⊢
      rcases hclosed with rfl | hclosed
      · cases h
      · -- the first word of a closed statement is the same in the longer text
        rw [List.map_cons, List.cons_append]
        rw [scanStatements] at h ⊢
        rcases hl : readLeading r with ⟨leading, ahead⟩
        rw [hclosed.readLeading_append t hl]
        rw [hl] at h
        have ih {depth : Nat} {alternate : Option (List Char)} {here here' : List Char}
            (h : scanStatements block depth alternate here (laterStatements r) = .ok marks) :=
          @ih depth alternate (.inr hclosed) here h here'
        cases leading with
        | nothing => exact ih h
        | unknown word => exact ih h
        | keyword k =>
            dsimp only at h ⊢
            split at h
            · rename_i hk
              rw [if_pos hk]
              exact ih h
            rename_i hopen
            rw [if_neg hopen]
            split at h
            · rename_i hk
              rw [if_pos hk]
              cases depth with
              | zero =>
                  cases h
                  rfl
              | succ outer => exact ih h
            rename_i hclose
            rw [if_neg hclose]
            -- a second branch is known in the longer text if it is in the shorter one
            have halt : alternate.map (· ++ t) = none ↔ alternate = none := by simp
            split at h
            · rename_i helse
              obtain ⟨hblock, hk, hdepth, hnone⟩ := helse
              rw [if_pos ⟨hblock, hk, hdepth, halt.2 hnone⟩]
              exact @ih _ (some ahead) _ _ h
            · rename_i helse
              rw [if_neg fun ⟨hblock, hk, hdepth, hnone⟩ =>
                helse ⟨hblock, hk, hdepth, halt.1 hnone⟩]
              exact ih h

theorem scanBlock_append {block : Block} {header : List Char} (hheader : IsClosed header)
    {marks : Landmarks} (h : scanBlock block header = .ok marks) (t : List Char) :
    scanBlock block (header ++ t) = .ok (marks.append t) := by
  unfold scanBlock at h ⊢
  rw [hheader.laterStatements_append]
  exact scanStatements_append (.inr hheader) h t _ _

/-! ## Well-formed statements

`Sound` is recursive in the bodies. A body is a text of its own, for which the keywords around it
mean nothing, and it is checked as such wherever the definition stands. -/

/-- A statement is well formed, or there is nothing but a gap. -/
inductive WellFormed (s : List Char) : Prop where
  | last : skipGap s = [] → WellFormed s
  | statement {k : Keyword} {rest next : List Char} : readLeading s = (.keyword k, rest) →
      operandsEnd? rest k = some (';' :: next) →
      (∀ sort : Declaration, k = sort.keyword → ∀ read ∈ readNames rest, read.1 ≠ []) →
      (∀ b : Block, k = b.opener → ∃ marks, scanBlock b (';' :: next) = .ok marks ∧
        (b = .definition → bodyBetween (';' :: next) marks.closing ≠ [])) →
      WellFormed s

def Defines (s body : List Char) : Prop :=
  ∃ rest marks, readLeading s = (.keyword .define, rest) ∧
    scanBlock .definition (readWord rest).2 = .ok marks ∧
    bodyBetween (readWord rest).2 marks.closing = body

/-- There is a statement, all statements are well formed, and all bodies are sound. -/
inductive Sound : List Char → Prop where
  | intro {text : List Char} : skipGap text ≠ [] →
      (∀ s ∈ text :: laterStatements text, WellFormed s) →
      (∀ s ∈ text :: laterStatements text, ∀ body, Defines s body → Sound body) → Sound text

def Good (s : List Char) : Prop :=
  WellFormed s ∧ ∀ body, Defines s body → Sound body

theorem Sound.good {text s : List Char} (h : Sound text) (hs : s ∈ text :: laterStatements text) :
    Good s := by
  obtain ⟨_, hwell, hbody⟩ := h
  exact ⟨hwell s hs, hbody s hs⟩

theorem sound_of_good {text : List Char} (h : skipGap text ≠ [])
    (hgood : ∀ s ∈ text :: laterStatements text, Good s) : Sound text :=
  .intro h (fun s hs => (hgood s hs).1) fun s hs => (hgood s hs).2

theorem WellFormed.of_skipGap {s s' : List Char} (h : skipGap s = skipGap s') (hs : WellFormed s) :
    WellFormed s' := by
  have hl : readLeading s = readLeading s' := by
    rw [← readLeading_skipGap s, h, readLeading_skipGap]
  cases hs with
  | last hnil => exact .last (h ▸ hnil)
  | statement hk hend hnames hblock => exact .statement (hl ▸ hk) hend hnames hblock

theorem Good.of_skipGap {s s' : List Char} (h : skipGap s = skipGap s') (hs : Good s) :
    Good s' := by
  refine ⟨hs.1.of_skipGap h, fun body hbody => hs.2 body ?_⟩
  obtain ⟨rest, marks, hl, hscan, rfl⟩ := hbody
  refine ⟨rest, marks, ?_, hscan, rfl⟩
  rw [← readLeading_skipGap s, h, readLeading_skipGap, hl]

/-! ## Well-formed statements in longer texts

A body is read twice: as a part of the text that defines it, and alone when the subroutine runs. The
two readings agree because a body ends with a terminator, behind which no reader looks while it is
inside the body. -/

/-- The body of a subroutine is the same in a longer text. -/
theorem bodyBetween_append {next t : List Char} {marks : Landmarks} (hclosed : IsClosed (';' :: next))
    (h : scanBlock .definition (';' :: next) = .ok marks) :
    bodyBetween (';' :: next ++ t) (marks.closing ++ t) = bodyBetween (';' :: next) marks.closing := by
  have hnext : IsClosed next := by
    obtain ⟨hmem, hclose, _⟩ := scanBlock_landmarks h
    rcases hclosed.of_mem (by rw [laterStatements_terminator]; exact .head _) with rfl | hnext
    · -- the closing statement would be empty
      rw [laterStatements_terminator] at hmem
      rcases List.mem_singleton.1 hmem with hnil
      rw [hnil] at hclose
      cases hclose
    · exact hnext
  rw [List.cons_append, bodyBetween_terminator, bodyBetween_terminator,
    skipGap_append t hnext.skipGap_ne_nil, List.length_append, List.length_append,
    Nat.add_sub_add_right, List.take_append_of_le_length (Nat.sub_le _ _)]

theorem WellFormed.append {s : List Char} (hs : WellFormed s) (hclosed : IsClosed s)
    (t : List Char) : WellFormed (s ++ t) := by
  cases hs with
  | last hnil => exact absurd hnil hclosed.skipGap_ne_nil
  | @statement k rest next hl hend hnames hblock =>
      have hheader : IsClosed (';' :: next) := by
        unfold IsClosed at hclosed ⊢
        rw [laterStatements_operandsEnd hend, laterStatements_readLeading hl]
        exact hclosed
      have hl' := hclosed.readLeading_append t hl
      have hend' := operandsEnd?_append t hend (List.cons_ne_nil _ _)
      refine .statement hl' hend' ?_ ?_
      · rintro sort rfl read hread
        have hlist : endOfList rest (readNames rest) ≠ [] := by
          rw [← operandsEnd?_declaration hend]
          exact List.cons_ne_nil _ _
        rw [readNames_append t rest hlist] at hread
        obtain ⟨shorter, hshorter, rfl⟩ := List.mem_map.1 hread
        exact hnames sort rfl shorter hshorter
      · intro b hb
        obtain ⟨marks, hscan, hbody⟩ := hblock b hb
        refine ⟨marks.append t, scanBlock_append hheader hscan t, ?_⟩
        rintro rfl
        show bodyBetween (';' :: next ++ t) (marks.closing ++ t) ≠ []
        rw [bodyBetween_append hheader hscan]
        exact hbody rfl

theorem Defines.of_append {s t body : List Char} (hs : WellFormed s) (hclosed : IsClosed s)
    (h : Defines (s ++ t) body) : Defines s body := by
  cases hs with
  | last hnil => exact absurd hnil hclosed.skipGap_ne_nil
  | @statement k rest next hl hend _ hblock =>
      obtain ⟨rest', marks', hl', hscan', rfl⟩ := h
      rw [hclosed.readLeading_append t hl] at hl'
      cases hl'
      have hheader : IsClosed (';' :: next) := by
        unfold IsClosed at hclosed ⊢
        rw [laterStatements_operandsEnd hend, laterStatements_readLeading hl]
        exact hclosed
      have hword := operandsEnd?_define hend
      obtain ⟨marks, hscan, _⟩ := hblock .definition rfl
      rw [readWord_append t (by rw [hword]; exact List.cons_ne_nil _ _), hword] at hscan' ⊢
      dsimp only at hscan' ⊢
      rw [scanBlock_append hheader hscan t] at hscan'
      cases hscan'
      refine ⟨rest, marks, hl, by rw [hword]; exact hscan, ?_⟩
      rw [hword]
      exact (bodyBetween_append hheader hscan).symm

/-- The statements of a text that ends with a terminator are good in any longer text, too. -/
theorem Good.append {s : List Char} (hs : Good s) (hclosed : IsClosed s) (t : List Char) :
    Good (s ++ t) :=
  ⟨hs.1.append hclosed t, fun body hbody => hs.2 body (.of_append hs.1 hclosed hbody)⟩

end NumScript.Script
