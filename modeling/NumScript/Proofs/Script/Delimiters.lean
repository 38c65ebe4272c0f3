import Mathlib.Logic.Relation
import NumScript.Proofs.Script.Alike
import NumScript.Proofs.Script.Boundaries

set_option autoImplicit false

/-! # Where statements end

Two things decide where a statement ends. The readers of operands stop at terminators and
separators, and cut comments out on their way. The search for the end of a block goes from one
terminator to the next, over comments. Each has its own way through comments, and they agree: a
terminator is a `;` outside of the comments of the script, parameters that are read as long as
separators follow end at the next one, and whatever is read, nothing goes past it
(`endsTogether_of_not_inComment`).
-/

namespace NumScript.Script

/-! ## Comments

Whether a place is inside a comment depends on all of the text before it, back to the last newline.
It is a property of the script and of the place, without any reader. -/

/-- Whether the place behind `passed` is inside a comment, given whether the one before it is. -/
def endsInComment (inComment : Bool) : List Char → Bool
  | [] => inComment
  | c :: passed => endsInComment (if inComment then c != '\n' else c == '#') passed

theorem endsInComment_append (inComment : Bool) (before passed : List Char) :
    endsInComment inComment (before ++ passed) =
      endsInComment (endsInComment inComment before) passed := by
  induction before generalizing inComment with
  | nil => rfl
  | cons c before ih => exact ih _

/-- The place behind this beginning of a script is inside a comment. -/
def InComment (before : List Char) : Prop :=
  endsInComment false before = true

instance (before : List Char) : Decidable (InComment before) :=
  inferInstanceAs (Decidable (_ = _))

/-- From a place outside of comments on, the comments are those of the text ahead. -/
theorem inComment_append {before : List Char} (h : ¬ InComment before) (passed : List Char) :
    InComment (before ++ passed) ↔ InComment passed := by
  have hbefore : endsInComment false before = false := Bool.eq_false_iff.2 h
  unfold InComment
  rw [endsInComment_append, hbefore]

/-! ## Terminators

The search is brought to this notion. It starts outside of comments, and what it finds from there on
are the terminators outside of comments. -/

/-- A statement starts behind each `;` outside of comments. -/
theorem mem_statementsFrom_iff {inComment : Bool} {text rest : List Char} :
    rest ∈ statementsFrom inComment text ↔
      ∃ passed, text = passed ++ ';' :: rest ∧ endsInComment inComment passed = false := by
  induction text generalizing inComment with
  | nil => simp [statementsFrom]
  | cons c text ih =>
      -- behind the first character the place is as the scan has it, too
      have hcons : (∃ passed, c :: text = passed ++ ';' :: rest ∧
            endsInComment inComment passed = false) ↔
          (inComment = false ∧ c = ';' ∧ rest = text) ∨
            rest ∈ statementsFrom (if inComment then c != '\n' else c == '#') text := by
        rw [ih]
        constructor
        · rintro ⟨_ | ⟨d, passed⟩, htext, hend⟩
          · obtain ⟨hc, hrest⟩ := List.cons.inj htext
            exact .inl ⟨hend, hc, hrest.symm⟩
          · obtain ⟨rfl, hrest⟩ := List.cons.inj htext
            exact .inr ⟨passed, hrest, hend⟩
        · rintro (⟨hin, rfl, rfl⟩ | ⟨passed, rfl, hend⟩)
          · exact ⟨[], rfl, hin⟩
          · exact ⟨c :: passed, rfl, hend⟩
      rw [hcons, statementsFrom]
      cases inComment with
      | true => simp
      | false =>
          by_cases hc : c = ';'
          · simp [hc]
          · simp [hc]

theorem mem_laterStatements_iff (passed rest : List Char) :
    rest ∈ laterStatements (passed ++ ';' :: rest) ↔ ¬ InComment passed := by
  rw [laterStatements, mem_statementsFrom_iff, InComment, Bool.not_eq_true]
  constructor
  · rintro ⟨passed', htext, hend⟩
    rwa [List.append_cancel_right htext]
  · exact fun hend => ⟨passed, rfl, hend⟩

def nextTerminator? (text : List Char) : Option (List Char) :=
  (laterStatements text).head?.map (';' :: ·)

/-- The later statements of a text are the one behind the next terminator and those after it. -/
theorem laterStatements_eq_nextTerminator? (text : List Char) :
    laterStatements text =
      match nextTerminator? text with
      | none => []
      | some t => t.tail :: laterStatements t.tail := by
  unfold nextTerminator?
  rcases statementsFrom_cases false text with h | ⟨t, -, h⟩
  · rw [laterStatements, h]
    rfl
  · rw [laterStatements, h]
    rfl

theorem nextTerminator?_terminator (rest : List Char) :
    nextTerminator? (';' :: rest) = some (';' :: rest) :=
  rfl

theorem laterStatements_of_nextTerminator? {text rest : List Char}
    (h : nextTerminator? text = some (';' :: rest)) :
    laterStatements text = rest :: laterStatements rest := by
  rw [laterStatements_eq_nextTerminator?, h]
  rfl

theorem exists_of_nextTerminator? {text t : List Char} (h : nextTerminator? text = some t) :
    ∃ passed rest, t = ';' :: rest ∧ text = passed ++ ';' :: rest ∧ ¬ InComment passed := by
  obtain ⟨rest, hrest, rfl⟩ := Option.map_eq_some_iff.1 h
  obtain ⟨passed, htext, hend⟩ := mem_statementsFrom_iff.1 (List.mem_of_head? hrest)
  exact ⟨passed, rest, rfl, htext, Bool.eq_false_iff.1 hend⟩

theorem nextTerminator?_suffix {text t : List Char} (h : nextTerminator? text = some t) :
    t <:+ text := by
  obtain ⟨passed, rest, rfl, rfl, -⟩ := exists_of_nextTerminator? h
  exact List.suffix_append passed _

/-- The next terminator is the first `;` outside of comments. -/
theorem nextTerminator?_eq_some_iff (passed rest : List Char) :
    nextTerminator? (passed ++ ';' :: rest) = some (';' :: rest) ↔
      ¬ InComment passed ∧ ∀ p q, passed = p ++ ';' :: q → InComment p := by
  constructor
  · intro h
    have hlater := laterStatements_of_nextTerminator? h
    refine ⟨(mem_laterStatements_iff passed rest).1 (by rw [hlater]; exact .head _), ?_⟩
    rintro p q rfl
    by_contra hp
    have hmem := (mem_laterStatements_iff p (q ++ ';' :: rest)).2 hp
    rw [List.append_assoc, List.cons_append] at hlater
    rw [hlater] at hmem
    -- what is behind an earlier terminator is longer
    have hlong : rest.length < (q ++ ';' :: rest).length := by
      rw [List.length_append, List.length_cons]
      omega
    rcases List.mem_cons.1 hmem with heq | hmem
    · rw [heq] at hlong
      exact absurd hlong (Nat.lt_irrefl _)
    · exact absurd (suffix_of_mem_laterStatements hmem).length_le (Nat.not_le.2 hlong)
  · rintro ⟨hpassed, hfirst⟩
    have hmem := (mem_laterStatements_iff passed rest).2 hpassed
    cases hnext : nextTerminator? (passed ++ ';' :: rest) with
    | none =>
        rw [laterStatements_eq_nextTerminator?, hnext] at hmem
        cases hmem
    | some t =>
        obtain ⟨p, r, rfl, htext, hp⟩ := exists_of_nextTerminator? hnext
        rw [laterStatements_of_nextTerminator? hnext] at hmem
        rcases List.mem_cons.1 hmem with rfl | hmem
        · rfl
        · -- otherwise the next terminator stands before this one, outside of comments
          obtain ⟨q, rfl, -⟩ := mem_statementsFrom_iff.1 hmem
          have hassoc : p ++ ';' :: (q ++ ';' :: rest) = (p ++ ';' :: q) ++ ';' :: rest := by simp
          rw [hassoc] at htext
          exact absurd (hfirst p q (List.append_cancel_right htext)) hp

/-! ## Operands

And so are the readers. Since each of them passes no terminator, what is ahead behind it has the
same next terminator, and a list of parameters stops there because nothing else stops it. -/

/-- One reading: a word, a parameter, or a separator. -/
inductive Reads : List Char → List Char → Prop where
  | word (text : List Char) : Reads text (readWord text).2
  | param (text : List Char) : Reads text (readParam text).2
  | separator {text rest : List Char} : afterSeparator? text = some rest → Reads text rest

theorem Reads.laterStatements_eq {text ahead : List Char} (h : Reads text ahead) :
    laterStatements ahead = laterStatements text := by
  cases h with
  | word => exact laterStatements_readWord text
  | param => exact laterStatements_readParam text
  | separator h => rw [afterSeparator?_eq_some_iff.1 h, laterStatements_separator]

theorem Reads.suffix {text ahead : List Char} (h : Reads text ahead) : ahead <:+ text := by
  cases h with
  | word => exact readWord_suffix text
  | param => exact readParam_suffix text
  | separator h =>
      rw [afterSeparator?_eq_some_iff.1 h]
      exact List.suffix_cons _ _

section

variable {text ahead : List Char} (h : Relation.ReflTransGen Reads text ahead)

include h

/-- Whatever is read, the next terminator is still ahead, and it is the next one. -/
theorem nextTerminator?_of_reads : nextTerminator? ahead = nextTerminator? text := by
  induction h with
  | refl => rfl
  | tail _ hread ih =>
      unfold nextTerminator? at ih ⊢
      rw [hread.laterStatements_eq, ih]

theorem suffix_of_reads : ahead <:+ text := by
  induction h with
  | refl => exact List.suffix_refl _
  | tail _ hread ih => exact hread.suffix.trans ih

/-- No reading goes past the next terminator. -/
theorem nextTerminator?_suffix_of_reads : (nextTerminator? text).getD [] <:+ ahead := by
  rw [← nextTerminator?_of_reads h]
  cases hnext : nextTerminator? ahead with
  | none => exact List.nil_suffix
  | some t => exact nextTerminator?_suffix hnext

end

/-- The items of a list are read with the separators between them. -/
theorem reads_of_mem_readList {read : List Char → List Char × List Char}
    {hread : ∀ text, (read text).2.length ≤ text.length}
    (hreads : ∀ text, Reads text (read text).2) (text : List Char) :
    ∀ item ∈ readList read hread text, Relation.ReflTransGen Reads text item.2 := by
  induction text using readList.induct read hread with
  | case1 text rest hsep ih =>
      rw [readList_of_separator hsep]
      refine List.forall_mem_cons.2 ⟨.single (hreads text), fun item hitem => ?_⟩
      exact .head (hreads text) (.head (.separator hsep) (ih item hitem))
  | case2 text hsep =>
      rw [readList_of_last hsep]
      exact List.forall_mem_singleton.2 (.single (hreads text))

/-- A list of parameters ends where there is no separator: at a terminator, or at the end. -/
theorem endOfList_readParams_cases (start text : List Char) :
    endOfList start (readParams text) = [] ∨
      ∃ rest, endOfList start (readParams text) = ';' :: rest := by
  unfold readParams
  induction text using readList.induct readParam length_readParam_le generalizing start with
  | case1 text rest hsep ih =>
      rw [readList_of_separator hsep, endOfList_cons]
      exact ih _
  | case2 text hsep =>
      rw [readList_of_last hsep, endOfList_cons]
      rcases readParamFrom_ahead .gap text with hnil | ⟨c, rest, hcons, rfl | rfl⟩
      · exact .inl hnil
      · exact .inr ⟨rest, hcons⟩
      · rw [readParam, hcons] at hsep
        cases hsep

/-- Parameters that are read as long as separators follow end at the next terminator, or else at the
end of the text. -/
theorem endOfList_readParams (start text : List Char) :
    endOfList start (readParams text) = (nextTerminator? text).getD [] := by
  have hlater : laterStatements (endOfList start (readParams text)) = laterStatements text :=
    laterStatements_endOfList laterStatements_readParam start text
  unfold nextTerminator?
  rw [← hlater]
  rcases endOfList_readParams_cases start text with hnil | ⟨rest, hcons⟩
  · rw [hnil]
    rfl
  · rw [hcons]
    rfl

/-! ## Scripts

The two parts meet at a place of the script. For one inside a comment nothing is said: readers and
search would both take the rest of the comment for statements, but neither of them ever starts
there. -/

/-- Reading operands from `text` on, which is what is ahead behind `before`, and searching for the end
of a block from there come to the same terminators. -/
structure EndsTogether (before text : List Char) : Prop where
  /-- The next terminator is the first `;` that is in no comment of the script. -/
  next : ∀ {passed rest : List Char}, text = passed ++ ';' :: rest →
    (nextTerminator? text = some (';' :: rest) ↔ ¬ InComment (before ++ passed) ∧
      ∀ p q, passed = p ++ ';' :: q → InComment (before ++ p))
  /-- The search goes on behind the next terminator, and from there in the same way. -/
  hops : laterStatements text =
    match nextTerminator? text with
    | none => []
    | some t => t.tail :: laterStatements t.tail
  /-- The search looks at what is behind a `;` just if that is in no comment. -/
  searched : ∀ {passed rest : List Char}, text = passed ++ ';' :: rest →
    (rest ∈ laterStatements text ↔ ¬ InComment (before ++ passed))
  /-- Parameters are read up to the next terminator, or to the end of the text. -/
  params : endOfList text (readParams text) = (nextTerminator? text).getD []
  /-- Names are read up to there at most. -/
  names : ∀ item ∈ readNames text, (nextTerminator? text).getD [] <:+ item.2
  /-- So is everything else, in whatever order words, parameters and separators are read. -/
  within : ∀ {ahead : List Char}, Relation.ReflTransGen Reads text ahead →
    (nextTerminator? text).getD [] <:+ ahead ∧ ahead <:+ text
  /-- Where a reading comes to a `;`, that is in no comment. -/
  stops : ∀ {passed rest : List Char}, text = passed ++ ';' :: rest →
    Relation.ReflTransGen Reads text (';' :: rest) → ¬ InComment (before ++ passed)

/-- From every place outside of comments on, readers and search agree on where statements end. -/
theorem endsTogether_of_not_inComment {before : List Char} (h : ¬ InComment before)
    (text : List Char) : EndsTogether before text where
  next := by
    rintro passed rest rfl
    rw [nextTerminator?_eq_some_iff, inComment_append h]
    simp only [inComment_append h]
  hops := laterStatements_eq_nextTerminator? text
  searched := by
    rintro passed rest rfl
    rw [mem_laterStatements_iff, inComment_append h]
  params := endOfList_readParams text text
  names := fun item hitem =>
    nextTerminator?_suffix_of_reads (reads_of_mem_readList Reads.word text item hitem)
  within := fun hreads => ⟨nextTerminator?_suffix_of_reads hreads, suffix_of_reads hreads⟩
  stops := by
    rintro passed rest rfl hreads
    have hnext := (nextTerminator?_of_reads hreads).symm.trans (nextTerminator?_terminator rest)
    rw [inComment_append h]
    exact ((nextTerminator?_eq_some_iff passed rest).1 hnext).1

/-- The arguments of a call with comments before, between and behind them. -/
theorem endsTogether_of_not_inComment_call :
    let before := "call f # ;\n".toList
    let text := "1 # a; b,\n, 2 # c\n; # d;\n;".toList
    ¬ InComment before ∧ EndsTogether before text ∧
      endOfList text (readParams text) = "; # d;\n;".toList := by
  intro before text
  have hbefore : ¬ InComment before := by decide
  have hends := endsTogether_of_not_inComment hbefore text
  exact ⟨hbefore, hends, hends.params.trans (by decide)⟩

end NumScript.Script
