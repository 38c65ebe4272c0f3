import NumScript.Proofs.Script.Alike

set_option autoImplicit false

/-! # The parameters of a statement

Which parts of a text are read as parameters depends on the word that their statement starts with,
and so does where each of them starts (`paramStarts`). The rest of a statement is words, and words
do not see how a gap starts. So two texts that are alike are read alike if the parameters in them
are spread alike (`ReadAlike`). In texts that are strictly alike they are (`Alike.readAlike`).

A comment behind a keyword or a name is passed as any other gap, and only inside a parameter can it
make a difference. By listing where the parameters start, conditions on comments can be asked for
there and nowhere else. -/

namespace NumScript.Script

/-! ## Where parameters start

The starts are given as the texts ahead of them, as all places are. Arguments are a list, and each
start but the first is behind a separator. -/

def argumentStarts (rest : List Char) : List (List Char) :=
  if isTerminated rest then []
  else rest :: (readParams rest).filterMap fun read => afterSeparator? read.2

/-- The texts from each parameter of a statement on, given what follows its keyword. -/
def paramStarts (rest : List Char) : Keyword → List (List Char)
  | .set => [(readWord rest).2]
  | .call | .goto => argumentStarts (readWord rest).2
  | .ifBlock | .whileBlock | .returnValue => [rest]
  | _ => []

theorem readParams_eq_map (rest : List Char) :
    readParams rest =
      (rest :: (readParams rest).filterMap fun read => afterSeparator? read.2).map readParam := by
  unfold readParams
  induction rest using readList.induct readParam length_readParam_le with
  | case1 rest next hsep ih =>
      rw [readList_of_separator hsep, List.filterMap_cons, hsep, List.map_cons]
      exact congrArg _ ih
  | case2 rest hsep =>
      rw [readList_of_last hsep, List.filterMap_cons, hsep]
      rfl

theorem argumentTexts_eq_map (rest : List Char) :
    argumentTexts rest = (argumentStarts rest).map readParam := by
  unfold argumentTexts argumentStarts
  split
  · rfl
  · exact readParams_eq_map rest

/-! ## Relations that reading keeps

To compare where the parameters of two texts start it is enough to compare what is left after one
word and after one parameter. -/

/-- What is left of two related texts after a word, or after a parameter and a separator, is related
again, and the same terminators are next. -/
structure KeptByReading (R : List Char → List Char → Prop) : Prop where
  word : ∀ {s s'}, R s s' → R (readWord s).2 (readWord s').2
  isTerminated : ∀ {s s'}, R s s' → isTerminated (readWord s).2 = isTerminated (readWord s').2
  separator : ∀ {s s'}, R s s' →
    Option.Rel R (afterSeparator? (readParam s).2) (afterSeparator? (readParam s').2)

namespace KeptByReading

variable {R : List Char → List Char → Prop} (hR : KeptByReading R) {s s' : List Char} (h : R s s')

include hR h

theorem filterMap_readParams :
    List.Forall₂ R ((readParams s).filterMap fun read => afterSeparator? read.2)
      ((readParams s').filterMap fun read => afterSeparator? read.2) := by
  unfold readParams
  -- the recursion of the first list; a separator follows in both texts or in neither
  induction s using readList.induct readParam length_readParam_le generalizing s' with
  | case1 s next hsep ih =>
      have hnext := hR.separator h
      rw [hsep] at hnext
      generalize hsep' : afterSeparator? (readParam s').2 = after' at hnext
      cases hnext with
      | some hnext =>
          rw [readList_of_separator hsep, readList_of_separator hsep', List.filterMap_cons, hsep,
            List.filterMap_cons, hsep']
          exact .cons hnext (ih hnext)
  | case2 s hsep =>
      have hnext := hR.separator h
      rw [hsep] at hnext
      generalize hsep' : afterSeparator? (readParam s').2 = after' at hnext
      cases hnext with
      | none =>
          rw [readList_of_last hsep, readList_of_last hsep', List.filterMap_cons, hsep,
            List.filterMap_cons, hsep']
          exact .nil

theorem argumentStarts :
    List.Forall₂ R (argumentStarts (readWord s).2) (argumentStarts (readWord s').2) := by
  unfold Script.argumentStarts
  rw [hR.isTerminated h]
  split
  · exact .nil
  · exact .cons (hR.word h) (hR.filterMap_readParams (hR.word h))

theorem paramStarts (k : Keyword) : List.Forall₂ R (paramStarts s k) (paramStarts s' k) := by
  cases k with
  | set => exact .cons (hR.word h) .nil
  | call | goto => exact hR.argumentStarts h
  | ifBlock | whileBlock | returnValue => exact .cons h .nil
  | _ => exact .nil

end KeptByReading

theorem eq_map_of_forall₂ {α β : Type} {g : α → β} {l : List α} {l' : List β}
    (h : List.Forall₂ (fun a b => b = g a) l l') : l' = l.map g := by
  have heq : List.Forall₂ Eq (l.map g) l' :=
    List.forall₂_map_left_iff.2 (h.imp fun _ _ hb => hb.symm)
  rw [List.forall₂_eq_eq_eq] at heq
  exact heq.symm

theorem IsClosed.ne_nil {s : List Char} (h : IsClosed s) : s ≠ [] := by
  rintro rfl
  cases h

/-- Reading does not look behind a terminator. -/
theorem keptByReading_append (t : List Char) :
    KeptByReading fun s s' => IsClosed s ∧ s' = s ++ t where
  word := by
    rintro s _ ⟨hs, rfl⟩
    have hword : IsClosed (readWord s).2 := by rwa [IsClosed, laterStatements_readWord]
    rw [readWord_append t hword.ne_nil]
    exact ⟨hword, rfl⟩
  isTerminated := by
    rintro s _ ⟨hs, rfl⟩
    have hword : IsClosed (readWord s).2 := by rwa [IsClosed, laterStatements_readWord]
    rw [readWord_append t hword.ne_nil, isTerminated_append t hword.ne_nil]
  separator := by
    rintro s _ ⟨hs, rfl⟩
    have hparam : IsClosed (readParam s).2 := by rwa [IsClosed, laterStatements_readParam]
    rw [readParam_append t hparam.ne_nil]
    dsimp only
    rw [afterSeparator?_append t hparam.ne_nil]
    cases hsep : afterSeparator? (readParam s).2 with
    | none => exact .none
    | some next =>
        rw [afterSeparator?_eq_some_iff.1 hsep, IsClosed, laterStatements_separator] at hparam
        exact .some ⟨hparam, rfl⟩

theorem paramStarts_append {s : List Char} (hs : IsClosed s) (t : List Char) (k : Keyword) :
    paramStarts (s ++ t) k = (paramStarts s k).map (· ++ t) :=
  eq_map_of_forall₂ (((keptByReading_append t).paramStarts ⟨hs, rfl⟩ k).imp fun _ _ h => h.2)

/-! ## Statements that are read alike

The two texts start with the same word, so they have as many parameters, and these are compared one
by one. What the parameters are worth is not compared here: texts that are spread alike have the
same value, or are both wrong. -/

def SameParams (starts starts' : List (List Char)) : Prop :=
  List.Forall₂ (fun p p' => Expr.Spread none (readParam p).1 (readParam p').1) starts starts'

/-- The statements that two texts start with have parameters that are spread alike. -/
def ReadAlike (s s' : List Char) : Prop :=
  ∀ k rest, readLeading s = (.keyword k, rest) →
    SameParams (paramStarts rest k) (paramStarts (readLeading s').2 k)

theorem ReadAlike.skipGap {s s' : List Char} (h : ReadAlike s s') :
    ReadAlike (skipGap s) (skipGap s') := by
  intro k rest hread
  rw [readLeading_skipGap] at hread
  rw [readLeading_skipGap]
  exact h k rest hread

theorem SameParams.map_fst {starts starts' : List (List Char)} (h : SameParams starts starts') :
    List.Forall₂ (Expr.Spread none) ((starts.map readParam).map Prod.fst)
      ((starts'.map readParam).map Prod.fst) := by
  rw [List.map_map, List.map_map, List.forall₂_map_left_iff, List.forall₂_map_right_iff]
  exact h

/-! ## Texts that are strictly alike

Being strictly alike is kept by reading a word and by reading a parameter, and at the start of a
parameter it makes the parameters spread alike. So nothing has to be asked for of single statements.
-/

namespace Alike

variable {strict : Bool} {s s' : List Char}

/-- In front of a character that is no gap, both texts are at their end or at the same character. -/
theorem cases_of_skipGap (h : Alike strict none s s') (hs : Script.skipGap s = s)
    (hs' : Script.skipGap s' = s') :
    (s = [] ∧ s' = []) ∨
      ∃ c r r', s = c :: r ∧ s' = c :: r' ∧ c ≠ '#' ∧ Alike strict none r r' := by
  cases h with
  | nil ht ht' => exact .inl ⟨hs.symm.trans ht, hs'.symm.trans ht'⟩
  | @cons _ _ _ r r' c ht ht' _ hr =>
      exact .inr ⟨c, r, r', hs.symm.trans ht, hs'.symm.trans ht', (visible_of_skipGap ht).2,
        hr.weaken⟩

theorem isTerminated_eq (h : Alike strict none s s') (hs : Script.skipGap s = s)
    (hs' : Script.skipGap s' = s') : isTerminated s = isTerminated s' := by
  rcases h.cases_of_skipGap hs hs' with ⟨rfl, rfl⟩ | ⟨c, r, r', rfl, rfl, -⟩
  · rfl
  · by_cases hc : c = ';'
    · rw [hc]
      rfl
    · simp [isTerminated, afterTerminator?, hc]

theorem afterSeparator (h : Alike strict none s s') (hs : Script.skipGap s = s)
    (hs' : Script.skipGap s' = s') :
    Option.Rel (Alike strict none) (afterSeparator? s) (afterSeparator? s') := by
  rcases h.cases_of_skipGap hs hs' with ⟨rfl, rfl⟩ | ⟨c, r, r', rfl, rfl, -, hr⟩
  · exact .none
  · by_cases hc : c = ','
    · rw [hc]
      exact .some hr
    · simp [afterSeparator?, hc]

theorem keptByReading (strict : Bool) : KeptByReading (Alike strict none) where
  word h := h.readWord.2
  isTerminated h := h.readWord.2.isTerminated_eq (skipGap_skipGap _) (skipGap_skipGap _)
  separator h := h.readParam.afterSeparator (skipGap_readParam _) (skipGap_readParam _)

theorem readAlike (h : Alike true none s s') : ReadAlike s s' := by
  intro k rest hread
  have hrest : (Script.readWord s).2 = rest := by
    rw [readLeading_eq] at hread
    exact congrArg Prod.snd hread
  rw [readLeading_eq, ← hrest]
  refine ((keptByReading true).paramStarts h.readWord.2 k).imp fun p p' hp => ?_
  exact hp.skipGap.spreadAlike.readParam

end Alike

end NumScript.Script
