import NumScript.Proofs.Script.Parameters
import NumScript.Proofs.Script.Shape

set_option autoImplicit false

/-! # Statements of two texts that are alike

The statements of two texts that are alike correspond one to one: *twins* are what follows the same
terminator in each. Places that correspond (`Site`) are followed by the same twins. From there the
readers read the same, as far as a run can tell: the same words and values, errors of the same code,
and places that correspond again (`statement_twins`).

For the values the parameters have to be spread alike, wherever a run may come to a statement
(`TextTwins`). These are the start of the text, the places behind terminators, and one place more: a
jump over a second branch leads one character behind the closing keyword, whatever stands there.
Texts of subroutines are cut out of both texts, so a relation between texts is needed that passes on
to them (`Rewriting`).

## Why terminators tell statements apart

A place cannot be known by its position, as the two texts have different lengths before it, nor by
what is ahead of it, as the same piece may stand in a text twice. But the numbers of terminators
that are still ahead agree in both texts, and in one text no two statements have the same number. So
jumps that wait at twins are due at the same time.
-/

namespace NumScript.Script

variable {ω : Type}

/-! ## Places that correspond

Being alike is not enough for two places to correspond. From two such places the same must follow up
to the end, because a loop goes back and a block looks ahead: the later statements are twins of the
same pairs. -/

/-- What follows each terminator of one text, with what follows the same terminator of the other. -/
def twins (t t' : List Char) : List (List Char × List Char) :=
  (laterStatements t).zip (laterStatements t')

@[simp] theorem twins_terminator (r r' : List Char) :
    twins (';' :: r) (';' :: r') = (r, r') :: twins r r' :=
  rfl

@[simp] theorem twins_skipGap (t t' : List Char) : twins (skipGap t) (skipGap t') = twins t t' := by
  simp [twins]

theorem twins_readWord (t t' : List Char) : twins (readWord t).2 (readWord t').2 = twins t t' := by
  simp [twins, laterStatements_readWord]

theorem twins_readParam (t t' : List Char) :
    twins (readParam t).2 (readParam t').2 = twins t t' := by
  simp [twins, laterStatements_readParam]

theorem twins_cons_subset {c : Char} (hc : c ≠ '#') (r r' : List Char) :
    twins r r' ⊆ twins (c :: r) (c :: r') := by
  by_cases hsemi : c = ';'
  · rw [hsemi, twins_terminator]
    exact List.subset_cons_self _ _
  · rw [twins, twins, laterStatements_cons_of_ne r hsemi hc, laterStatements_cons_of_ne r' hsemi hc]
    exact List.Subset.refl _

/-- The statements after twins are twins. -/
theorem twins_subset_of_mem {t t' u u' : List Char} (h : (u, u') ∈ twins t t') :
    twins u u' ⊆ twins t t' := by
  induction t using laterStatements_induction generalizing t' with
  | last t ht =>
      rw [twins, ht] at h
      cases h
  | more t r ht ih =>
      rcases statementsFrom_cases false t' with ht' | ⟨r', -, ht'⟩
      · rw [twins, show laterStatements t' = [] from ht', List.zip_nil_right] at h
        cases h
      · have htwins : twins t t' = (r, r') :: twins r r' := by
          rw [twins, ht, show laterStatements t' = r' :: laterStatements r' from ht']
          rfl
        rw [htwins] at h ⊢
        refine List.Subset.trans ?_ (List.subset_cons_self _ _)
        rcases List.mem_cons.1 h with heq | h
        · cases heq
          exact List.Subset.refl _
        · exact ih h

/-- The statements of a text are told apart by how many follow. -/
theorem eq_of_length_laterStatements {t u v : List Char} (hu : u ∈ laterStatements t)
    (hv : v ∈ laterStatements t) (hlen : (laterStatements u).length = (laterStatements v).length) :
    u = v := by
  have hlt {t u : List Char} (hu : u ∈ laterStatements t) :
      (laterStatements u).length < (laterStatements t).length := by
    induction t using laterStatements_induction with
    | last t ht =>
        rw [ht] at hu
        cases hu
    | more t r ht ih =>
        rw [ht, List.length_cons]
        rw [ht] at hu
        rcases List.mem_cons.1 hu with rfl | hu
        · exact Nat.lt_succ_self _
        · exact Nat.lt_succ_of_lt (ih hu)
  induction t using laterStatements_induction with
  | last t ht =>
      rw [ht] at hu
      cases hu
  | more t r ht ih =>
      rw [ht] at hu hv
      rcases List.mem_cons.1 hu with rfl | hu <;> rcases List.mem_cons.1 hv with rfl | hv
      · rfl
      · exact absurd hlen (Nat.ne_of_gt (hlt hv))
      · exact absurd hlen (Nat.ne_of_lt (hlt hu))
      · exact ih hu hv

theorem Alike.twins_alike {strict : Bool} {last : Option Char} {t t' u u' : List Char}
    (h : Alike strict last t t') (hu : (u, u') ∈ twins t t') : Alike strict none u u' :=
  (List.forall₂_iff_zip.1 h.laterStatements).2 hu

theorem Alike.length_laterStatements {strict : Bool} {last : Option Char} {t t' : List Char}
    (h : Alike strict last t t') :
    (Script.laterStatements t).length = (Script.laterStatements t').length :=
  h.laterStatements.length_eq

/-- Statements are the same exactly where their twins are. -/
theorem Alike.twins_inj {t t' u u' v v' : List Char} (h : Alike false none t t')
    (hu : (u, u') ∈ twins t t') (hv : (v, v') ∈ twins t t') : u = v ↔ u' = v' := by
  have hlenu := (h.twins_alike hu).length_laterStatements
  have hlenv := (h.twins_alike hv).length_laterStatements
  obtain ⟨hmem, hmem'⟩ := List.of_mem_zip hu
  obtain ⟨hmemv, hmemv'⟩ := List.of_mem_zip hv
  constructor
  · rintro rfl
    exact eq_of_length_laterStatements hmem' hmemv' (hlenu.symm.trans hlenv)
  · rintro rfl
    exact eq_of_length_laterStatements hmem hmemv (hlenu.trans hlenv.symm)

/-- Places of two texts that correspond: what is ahead is alike, and the same twins follow. -/
structure Site (T T' s s' : List Char) : Prop where
  alike : Alike false none s s'
  twins : twins s s' ⊆ twins T T'

/-- The same before a character that is no gap. -/
structure Ahead (T T' s s' : List Char) : Prop extends Site T T' s s' where
  left : skipGap s = s
  right : skipGap s' = s'

section

variable {T T' s s' : List Char}

theorem Site.of_alike (h : Alike false none T T') : Site T T' T T' :=
  ⟨h, List.Subset.refl _⟩

theorem Site.of_mem {u u' : List Char} (h : Alike false none T T') (hu : (u, u') ∈ Script.twins T T') :
    Site T T' u u' :=
  ⟨h.twins_alike hu, twins_subset_of_mem hu⟩

theorem Site.skipGap (h : Site T T' s s') : Ahead T T' (skipGap s) (skipGap s') where
  alike := h.alike.skipGap
  twins := by
    rw [twins_skipGap]
    exact h.twins
  left := skipGap_skipGap s
  right := skipGap_skipGap s'

theorem Site.readWord (h : Site T T' s s') :
    (readWord s).1 = (readWord s').1 ∧ Ahead T T' (readWord s).2 (readWord s').2 := by
  refine ⟨h.alike.readWord.1, ⟨h.alike.readWord.2, ?_⟩, skipGap_readWord s, skipGap_readWord s'⟩
  rw [twins_readWord]
  exact h.twins

theorem Site.readParam (h : Site T T' s s') : Ahead T T' (readParam s).2 (readParam s').2 := by
  refine ⟨⟨h.alike.readParam, ?_⟩, skipGap_readParam s, skipGap_readParam s'⟩
  rw [twins_readParam]
  exact h.twins

/-- Both texts are at their end, or at the same character. -/
theorem Ahead.cases (h : Ahead T T' s s') :
    (s = [] ∧ s' = []) ∨ ∃ c r r', s = c :: r ∧ s' = c :: r' ∧ Site T T' r r' ∧
      (c = ';' → (r, r') ∈ Script.twins T T') := by
  have htwins := h.twins
  rcases h.alike.cases_of_skipGap h.left h.right with hnil | ⟨c, r, r', rfl, rfl, hc, hr⟩
  · exact .inl hnil
  · refine .inr ⟨c, r, r', rfl, rfl, ⟨hr, ?_⟩, ?_⟩
    · exact List.Subset.trans (twins_cons_subset hc r r') htwins
    · rintro rfl
      exact htwins (.head _)

theorem Ahead.eq_nil_iff (h : Ahead T T' s s') : s = [] ↔ s' = [] := by
  rcases h.cases with ⟨rfl, rfl⟩ | ⟨c, r, r', rfl, rfl, -⟩ <;> simp

theorem Ahead.afterTerminator (h : Ahead T T' s s') :
    Option.Rel (fun u u' => (u, u') ∈ Script.twins T T') (afterTerminator? s)
      (afterTerminator? s') := by
  rcases h.cases with ⟨rfl, rfl⟩ | ⟨c, r, r', rfl, rfl, -, hsemi⟩
  · exact .none
  · by_cases hc : c = ';'
    · rw [hc]
      exact .some (hsemi hc)
    · simp [afterTerminator?, hc]

theorem Ahead.afterSeparator (h : Ahead T T' s s') :
    Option.Rel (Site T T') (afterSeparator? s) (afterSeparator? s') := by
  rcases h.cases with ⟨rfl, rfl⟩ | ⟨c, r, r', rfl, rfl, hsite, -⟩
  · exact .none
  · by_cases hc : c = ','
    · rw [hc]
      exact .some hsite
    · simp [afterSeparator?, hc]

theorem Ahead.isTerminated_eq (h : Ahead T T' s s') : isTerminated s = isTerminated s' :=
  h.alike.isTerminated_eq h.left h.right

inductive PointTwins (T T' : List Char) : Point → Point → Prop
  | before {s s' : List Char} : Site T T' s s' → ReadAlike s s' →
      PointTwins T T' (.before s) (.before s')
  | inside (s s' : List Char) : PointTwins T T' (.inside s) (.inside s')

theorem readAlike_nil : ReadAlike [] [] := by
  intro k rest hread
  cases hread

theorem Ahead.oneByteOn (h : Ahead T T' s s')
    (hread : ∀ {c r r'}, s = c :: r → s' = c :: r' → ReadAlike r r') :
    PointTwins T T' (oneByteOn s) (oneByteOn s') := by
  rcases h.cases with ⟨rfl, rfl⟩ | ⟨c, r, r', rfl, rfl, hsite, -⟩
  · exact .before h.toSite readAlike_nil
  · unfold Script.oneByteOn
    dsimp only
    split
    · exact .before hsite (hread rfl rfl)
    · exact .inside _ _

end

/-! ## Lists

Lists of parameters and of names go on while separators follow, in both texts or in neither. The
items are compared by any relation, equality for names and being spread alike for parameters. -/

def ReadsTwins (T T' : List Char) (same : List Char → List Char → Prop) :
    List (List Char × List Char) → List (List Char × List Char) → Prop :=
  List.Forall₂ fun read read' => same read.1 read'.1 ∧ Ahead T T' read.2 read'.2

section

variable {T T' s s' : List Char}

theorem readList_twins {same : List Char → List Char → Prop}
    {read : List Char → List Char × List Char}
    {hlen : ∀ text, (read text).2.length ≤ text.length}
    (hread : ∀ {s s'}, Site T T' s s' →
      same (read s).1 (read s').1 ∧ Ahead T T' (read s).2 (read s').2)
    (h : Site T T' s s') : ReadsTwins T T' same (readList read hlen s) (readList read hlen s') := by
  -- the recursion of the first list; a separator follows in both texts or in neither
  induction s using readList.induct read hlen generalizing s' with
  | case1 s rest hsep ih =>
      have hahead := (hread h).2.afterSeparator
      rw [hsep] at hahead
      generalize hsep' : afterSeparator? (read s').2 = after' at hahead
      cases hahead with
      | some hsite =>
          rw [readList_of_separator hsep, readList_of_separator hsep']
          exact .cons (hread h) (ih hsite)
  | case2 s hsep =>
      have hahead := (hread h).2.afterSeparator
      rw [hsep] at hahead
      generalize hsep' : afterSeparator? (read s').2 = after' at hahead
      cases hahead with
      | none =>
          rw [readList_of_last hsep, readList_of_last hsep']
          exact .cons (hread h) .nil

theorem readNames_twins (h : Site T T' s s') :
    ReadsTwins T T' Eq (readNames s) (readNames s') :=
  readList_twins Site.readWord h

theorem argumentTexts_twins (h : Ahead T T' s s') :
    ReadsTwins T T' (fun _ _ => True) (argumentTexts s) (argumentTexts s') := by
  unfold argumentTexts
  rw [h.isTerminated_eq]
  split
  · exact .nil
  · exact readList_twins (fun hsite => ⟨trivial, hsite.readParam⟩) h.toSite

theorem endOfList_twins {same : List Char → List Char → Prop}
    {reads reads' : List (List Char × List Char)} (h : ReadsTwins T T' same reads reads')
    (hs : Ahead T T' s s') : Ahead T T' (endOfList s reads) (endOfList s' reads') := by
  induction h generalizing s s' with
  | nil => exact hs
  | cons hread _ ih => exact ih hread.2

end

/-! ## Blocks

The search for the end of a block counts keywords, and these are the first words of twins. So both
searches come to an end at twins, or neither does. -/

structure LandmarksTwins (T T' header header' : List Char) (marks marks' : Landmarks) : Prop where
  close : Ahead T T' marks.close marks'.close
  alternate : Option.Rel (Ahead T T') marks.alternate marks'.alternate
  closing : (marks.closing, marks'.closing) ∈ twins header header'

/-- Both blocks are closed, at places that correspond, or neither is. -/
inductive ScanTwins (T T' header header' : List Char) :
    Except (List Char) Landmarks → Except (List Char) Landmarks → Prop
  | ok {marks marks' : Landmarks} : LandmarksTwins T T' header header' marks marks' →
      ScanTwins T T' header header' (.ok marks) (.ok marks')
  | error (here here' : List Char) : ScanTwins T T' header header' (.error here) (.error here')

section

variable {T T' header header' : List Char}

theorem scanStatements_twins (hsite : ∀ {u u'}, (u, u') ∈ twins header header' → Site T T' u u')
    (block : Block) {l l' : List (List Char)}
    (h : List.Forall₂ (fun u u' => (u, u') ∈ twins header header') l l') (depth : Nat)
    {alternate alternate' : Option (List Char)}
    (halt : Option.Rel (Ahead T T') alternate alternate') (here here' : List Char) :
    ScanTwins T T' header header' (scanStatements block depth alternate here l)
      (scanStatements block depth alternate' here' l') := by
  -- both scans find the same words, so they are at the same depth and have both passed an `else`
  -- or neither
  induction h generalizing depth alternate alternate' here here' with
  | nil => exact .error here here'
  | @cons u u' l l' hu _ ih =>
      obtain ⟨hword, hahead⟩ := (hsite hu).readWord
      have hnone : alternate = none ↔ alternate' = none := by
        cases halt <;> simp
      unfold scanStatements
      rw [readLeading_eq, readLeading_eq, hword]
      cases Leading.ofWord (readWord u').1 with
      | nothing => exact ih depth halt _ _
      | unknown word => exact ih depth halt _ _
      | keyword k =>
          dsimp only
          split
          · exact ih (depth + 1) halt _ _
          split
          · cases depth with
            | zero => exact .ok ⟨hahead, halt, hu⟩
            | succ outer => exact ih outer halt _ _
          simp only [hnone]
          split
          · exact ih depth (.some hahead) _ _
          · exact ih depth halt _ _

theorem scanBlock_twins (h : Ahead T T' header header') (block : Block) :
    ScanTwins T T' header header' (scanBlock block header) (scanBlock block header') := by
  refine scanStatements_twins (fun hu => ?_) block ?_ 0 .none header header'
  · exact ⟨h.alike.twins_alike hu, List.Subset.trans (twins_subset_of_mem hu) h.twins⟩
  · exact List.forall₂_iff_zip.2 ⟨h.alike.length_laterStatements, id⟩

end

/-! ## Texts of subroutines

The body of a subroutine is cut out between two places that correspond. Whether the two bodies are
texts in which a run does the same cannot be seen from the places alone. A `Rewriting` is a relation
between texts that answers this once for all bodies. -/

/-- Texts in which a run does the same. -/
structure TextTwins (T T' : List Char) : Prop where
  alike : Alike false none T T'
  first : ReadAlike T T'
  later : ∀ {u u'}, (u, u') ∈ twins T T' → ReadAlike u u'
  /-- One character behind the closing keyword of a conditional. -/
  behindFi : ∀ {u u' c r r'}, (u, u') ∈ twins T T' → readLeading u = (.keyword .fi, c :: r) →
    readLeading u' = (.keyword .fi, c :: r') → ReadAlike r r'

theorem Alike.textTwins {T T' : List Char} (h : Alike true none T T') : TextTwins T T' where
  alike := h.of_strict
  first := h.readAlike
  later hu := (h.twins_alike hu).readAlike
  behindFi {u u' c r r'} hu hl hl' := by
    have hahead := (h.twins_alike hu).readWord.2
    have hskip := skipGap_readWord u
    have hskip' := skipGap_readWord u'
    rw [readLeading_eq] at hl hl'
    rw [congrArg Prod.snd hl] at hahead hskip
    rw [congrArg Prod.snd hl'] at hahead hskip'
    rcases hahead.cases_of_skipGap hskip hskip' with ⟨hnil, -⟩ | ⟨_, _, _, heq, heq', -, hr⟩
    · cases hnil
    · cases heq
      cases heq'
      exact hr.readAlike

/-- A relation between such texts, which passes on to the texts of subroutines that are cut out of
them. -/
structure Rewriting (R : List Char → List Char → Prop) : Prop where
  texts : ∀ {T T'}, R T T' → TextTwins T T'
  body : ∀ {T T' w w' z z'}, R T T' → (w, w') ∈ twins T T' → (z, z') ∈ (w, w') :: twins w w' →
    R (bodyBetween (';' :: w) z) (bodyBetween (';' :: w') z')

theorem skipGap_bodyBetween (w z : List Char) :
    skipGap (bodyBetween (';' :: w) z) = bodyBetween (';' :: w) z := by
  rw [bodyBetween_terminator]
  generalize (skipGap w).length - z.length = n
  cases h : skipGap w with
  | nil => rw [List.take_nil]; rfl
  | cons c r =>
      cases n with
      | zero => rfl
      | succ n =>
          obtain ⟨hblank, hhash⟩ := visible_of_skipGap h
          exact skipGap_cons_of_visible hblank hhash _

theorem Alike.isEmpty_bodyBetween {w w' z z' : List Char}
    (h : Alike false none (bodyBetween (';' :: w) z) (bodyBetween (';' :: w') z')) :
    (bodyBetween (';' :: w) z).isEmpty = (bodyBetween (';' :: w') z').isEmpty := by
  cases h with
  | nil ht ht' =>
      rw [skipGap_bodyBetween] at ht ht'
      rw [ht, ht']
  | cons ht ht' _ _ =>
      rw [skipGap_bodyBetween] at ht ht'
      rw [ht, ht']
      rfl

/-- The texts of a subroutine that is defined in both texts. -/
theorem Rewriting.bodyBetween {R : List Char → List Char → Prop} (hR : Rewriting R)
    {T T' header header' z z' : List Char} (hT : R T T') (h : Ahead T T' header header')
    (hterm : isTerminated header' = true) (hz : (z, z') ∈ twins header header') :
    R (bodyBetween header z) (bodyBetween header' z') ∧
      (bodyBetween header z).isEmpty = (bodyBetween header' z').isEmpty := by
  obtain ⟨w', rfl⟩ := exists_of_isTerminated hterm
  rcases h.cases with ⟨-, hnil⟩ | ⟨c, w, r', rfl, heq, -, hmem⟩
  · cases hnil
  · cases heq
    have hbody := hR.body hT (hmem rfl) hz
    exact ⟨hbody, (hR.texts hbody).alike.isEmpty_bodyBetween⟩

/-! ## Statements

`R` says how the texts of the subroutines that are there compare, name by name, and `Q` how the two
texts compare that the statements stand in. -/

/-- What the statements of two runs see: the same, but for the texts of subroutines. -/
structure View.Twin (R : String → List Char → List Char → Prop) (v v' : View ω) : Prop where
  chain : v.chain = v'.chain
  cells : v.cells = v'.cells
  lastReturn : v.lastReturn = v'.lastReturn
  isNative : v.isNative = v'.isNative
  body : ∀ name, Option.Rel (fun b b' : String => R name b.toList b'.toList) (v.body? name)
    (v'.body? name)

structure JumpTwins (T T' : List Char) (j j' : Jump) : Prop where
  trigger : Option.Rel (fun u u' => (u, u') ∈ twins T T') j.trigger j'.trigger
  target : PointTwins T T' j.target j'.target

/-- Actions that are the same, but for places in the text and texts of subroutines. -/
inductive ActionTwins (R : String → List Char → List Char → Prop)
    (Q : List Char → List Char → Prop) (T T' : List Char) : Action → Action → Prop
  | pass : ActionTwins R Q T T' .pass .pass
  | assign (name : String) (x : Float) : ActionTwins R Q T T' (.assign name x) (.assign name x)
  | call (name : String) (args : List Float) :
      ActionTwins R Q T T' (.call name args) (.call name args)
  | invoke (name : String) {body body' : String} (args : List Float) :
      R name body.toList body'.toList →
      ActionTwins R Q T T' (.invoke name body args) (.invoke name body' args)
  | declare (sort : Declaration) {reads reads' : List (List Char × List Char)} :
      ReadsTwins T T' Eq reads reads' →
      ActionTwins R Q T T' (.declare sort reads) (.declare sort reads')
  | jump {j j' : Jump} : JumpTwins T T' j j' → ActionTwins R Q T T' (.jump j) (.jump j')
  | define (name : String) {body body' : String} : Q body.toList body'.toList →
      ActionTwins R Q T T' (.define name body) (.define name body')
  | finish (result : Option Float) : ActionTwins R Q T T' (.finish result) (.finish result)

/-- The same value, or errors of the same code. -/
inductive Agree {α : Type} : Except Error α → Except Error α → Prop
  | ok (a : α) : Agree (.ok a) (.ok a)
  | error {e e' : Error} : e.code = e'.code → Agree (.error e) (.error e')

/-- The same for readers, which also leave places that correspond. -/
inductive ReadTwins (T T' : List Char) {α : Type} (same : α → α → Prop) :
    EStateM.Result Error Progress α → EStateM.Result Error Progress α → Prop
  | ok {a a' : α} {p p' : Progress} : same a a' → Ahead T T' p.rest p'.rest →
      ReadTwins T T' same (.ok a p) (.ok a' p')
  | error {e e' : Error} (p p' : Progress) : e.code = e'.code →
      ReadTwins T T' same (.error e p) (.error e' p')

section

variable {R : String → List Char → List Char → Prop} {Q : List Char → List Char → Prop}
  {v v' : View ω} (h : v.Twin R v')

include h

theorem View.Twin.names_eq : v.names = v'.names := by
  unfold View.names
  rw [h.chain, h.cells, h.lastReturn]

theorem View.Twin.value (mode : Mode) {last : Option Char} {t t' : List Char}
    (ht : Expr.Spread last t t') : Agree (v.value mode t) (v'.value mode t') := by
  unfold View.value
  rw [← h.names_eq]
  rcases Expr.evaluate_spread v.names ht with heq | ⟨e, e', he, he', heq, heq'⟩
  · rw [heq]
    cases Expr.evaluate v.names t' with
    | ok x => exact .ok x
    | error cause =>
        dsimp only
        split
        · exact .ok _
        · exact .error rfl
  · -- both expressions are wrong: the causes may differ, the code does not
    rw [heq, heq']
    simp only [he, he', false_and, if_false]
    exact .error rfl

theorem View.Twin.values (mode : Mode) {texts texts' : List (List Char)}
    (ht : List.Forall₂ (Expr.Spread none) texts texts') (retained retained' : Expr.Retained) :
    Agree (v.values mode retained texts).1 (v'.values mode retained' texts').1 := by
  induction ht generalizing retained retained' with
  | nil => exact .ok []
  | @cons t t' texts texts' ht _ ih =>
      unfold View.values
      have hvalue := h.value mode ht
      have hmore := ih (some (Expr.evaluate v.names t)) (some (Expr.evaluate v'.names t'))
      dsimp only
      generalize v.value mode t = r at hvalue ⊢
      generalize v'.value mode t' = r' at hvalue ⊢
      cases hvalue with
      | error he => exact .error he
      | ok x =>
          dsimp only
          generalize v.values mode (some (Expr.evaluate v.names t)) texts = r at hmore ⊢
          generalize v'.values mode (some (Expr.evaluate v'.names t')) texts' = r' at hmore ⊢
          obtain ⟨xs, retained⟩ := r
          obtain ⟨xs', retained'⟩ := r'
          cases hmore with
          | ok xs => exact .ok (x :: xs)
          | error he => exact .error he

variable {T T' start start' rest rest' : List Char} (mode : Mode)
  (retained retained' : Expr.Retained)

theorem View.Twin.param (hrest : Site T T' rest rest') (hparam : SameParams [rest] [rest']) :
    ReadTwins T T' Eq (Reader.param v mode ⟨rest, retained⟩)
      (Reader.param v' mode ⟨rest', retained'⟩) := by
  rw [Reader.param_eq, Reader.param_eq]
  have hahead := hrest.readParam
  have hvalue := h.value mode (List.forall₂_cons.1 hparam).1
  dsimp only
  generalize v.value mode (readParam rest).1 = r at hvalue ⊢
  generalize v'.value mode (readParam rest').1 = r' at hvalue ⊢
  cases hvalue with
  | ok x => exact .ok rfl hahead
  | error he => exact .error _ _ he

theorem View.Twin.arguments (hrest : Ahead T T' rest rest')
    (hargs : SameParams (argumentStarts rest) (argumentStarts rest')) :
    ReadTwins T T' Eq (Reader.arguments v mode ⟨rest, retained⟩)
      (Reader.arguments v' mode ⟨rest', retained'⟩) := by
  obtain ⟨ahead, heq⟩ := Reader.arguments_eq v mode ⟨rest, retained⟩
  obtain ⟨ahead', heq'⟩ := Reader.arguments_eq v' mode ⟨rest', retained'⟩
  have hreads := argumentTexts_twins hrest
  have htexts := hargs.map_fst
  rw [← argumentTexts_eq_map, ← argumentTexts_eq_map] at htexts
  have hvalues := h.values mode htexts retained retained'
  rw [heq, heq']
  dsimp only
  generalize v.values mode retained ((argumentTexts rest).map Prod.fst) = r at hvalues ⊢
  generalize v'.values mode retained' ((argumentTexts rest').map Prod.fst) = r' at hvalues ⊢
  obtain ⟨xs, retained⟩ := r
  obtain ⟨xs', retained'⟩ := r'
  cases hvalues with
  | ok xs => exact .ok rfl (endOfList_twins hreads hrest)
  | error he => exact .error _ _ he

theorem assignment_twins (hrest : Ahead T T' rest rest')
    (hparams : SameParams (paramStarts rest .set) (paramStarts rest' .set)) :
    ReadTwins T T' (ActionTwins R Q T T') (Reader.assignment v mode ⟨rest, retained⟩)
      (Reader.assignment v' mode ⟨rest', retained'⟩) := by
  rw [Reader.assignment_eq, Reader.assignment_eq]
  obtain ⟨hword, hahead⟩ := hrest.readWord
  have hreadonly : v.isReadonly = v'.isReadonly := by
    unfold View.isReadonly
    rw [h.chain]
  dsimp only
  rw [hrest.isTerminated_eq, hword, h.chain, hreadonly]
  split
  · exact .error _ _ rfl
  split
  · exact .error _ _ rfl
  have hread := h.param mode retained retained' hahead.toSite hparams
  generalize Reader.param v mode _ = r at hread ⊢
  generalize Reader.param v' mode _ = r' at hread ⊢
  cases hread with
  | error _ _ he => exact .error _ _ he
  | ok hx hahead =>
      cases hx
      dsimp only
      split
      · exact .ok .pass hahead
      split
      · exact .error _ _ rfl
      · exact .ok (.assign _ _) hahead

theorem nativeCall_twins (hrest : Ahead T T' rest rest')
    (hparams : SameParams (paramStarts rest .call) (paramStarts rest' .call)) :
    ReadTwins T T' (ActionTwins R Q T T') (Reader.nativeCall v mode ⟨rest, retained⟩)
      (Reader.nativeCall v' mode ⟨rest', retained'⟩) := by
  rw [Reader.nativeCall_eq, Reader.nativeCall_eq]
  obtain ⟨hword, hahead⟩ := hrest.readWord
  dsimp only
  rw [hrest.isTerminated_eq, hword, h.isNative]
  split
  · exact .error _ _ rfl
  split
  · exact .error _ _ rfl
  have hread := h.arguments mode retained retained' hahead hparams
  generalize Reader.arguments v mode _ = r at hread ⊢
  generalize Reader.arguments v' mode _ = r' at hread ⊢
  cases hread with
  | error _ _ he => exact .error _ _ he
  | ok hx hahead =>
      cases hx
      refine .ok ?_ hahead
      split
      · exact .call _ _
      · exact .pass

theorem subroutineCall_twins (hrest : Ahead T T' rest rest')
    (hparams : SameParams (paramStarts rest .goto) (paramStarts rest' .goto)) :
    ReadTwins T T' (ActionTwins R Q T T') (Reader.subroutineCall v mode ⟨rest, retained⟩)
      (Reader.subroutineCall v' mode ⟨rest', retained'⟩) := by
  rw [Reader.subroutineCall_eq, Reader.subroutineCall_eq]
  obtain ⟨hword, hahead⟩ := hrest.readWord
  have hread := h.arguments mode retained retained' hahead hparams
  dsimp only
  rw [hrest.isTerminated_eq, hword]
  generalize Reader.arguments v mode _ = r at hread ⊢
  generalize Reader.arguments v' mode _ = r' at hread ⊢
  split
  · exact .error _ _ rfl
  split
  · have hbody := h.body (String.ofList (readWord rest').1)
    generalize v.body? _ = b at hbody ⊢
    generalize v'.body? _ = b' at hbody ⊢
    cases hbody with
    | none => exact .error _ _ rfl
    | some hbody =>
        cases hread with
        | error _ _ he => exact .error _ _ he
        | ok hx hahead =>
            cases hx
            exact .ok (.invoke _ _ hbody) hahead
  · cases hread with
    | error _ _ he => exact .error _ _ he
    | ok _ hahead => exact .ok .pass hahead

theorem conditional_twins (hT : TextTwins T T') (hrest : Ahead T T' rest rest')
    (hparams : SameParams (paramStarts rest .ifBlock) (paramStarts rest' .ifBlock)) :
    ReadTwins T T' (ActionTwins R Q T T') (Reader.conditional v mode ⟨rest, retained⟩)
      (Reader.conditional v' mode ⟨rest', retained'⟩) := by
  rw [Reader.conditional_eq, Reader.conditional_eq]
  have hread := h.param mode retained retained' hrest.toSite hparams
  dsimp only
  rw [hrest.isTerminated_eq]
  split
  · exact .error _ _ rfl
  generalize Reader.param v mode _ = r at hread ⊢
  generalize Reader.param v' mode _ = r' at hread ⊢
  cases hread with
  | error _ _ he => exact .error _ _ he
  | @ok _ _ p p' hx hahead =>
      cases hx
      have hscan := scanBlock_twins hahead .conditional
      dsimp only
      generalize hmarks : scanBlock .conditional p.rest = r at hscan ⊢
      generalize hmarks' : scanBlock .conditional p'.rest = r' at hscan ⊢
      cases hscan with
      | error => exact .error _ _ rfl
      | @ok marks marks' htwins =>
          have hclose := htwins.close
          have halt := htwins.alternate
          -- the jump over the second branch leads to the same place behind both closing keywords
          have hpast : PointTwins T T' (oneByteOn marks.close) (oneByteOn marks'.close) := by
            have hfi := (scanBlock_landmarks hmarks).2.1
            have hfi' := (scanBlock_landmarks hmarks').2.1
            refine hclose.oneByteOn fun heq heq' => ?_
            rw [heq] at hfi
            rw [heq'] at hfi'
            exact hT.behindFi (hahead.twins htwins.closing) hfi hfi'
          dsimp only
          generalize marks.alternate = alternate at halt ⊢
          generalize marks'.alternate = alternate' at halt ⊢
          split
          · exact .ok .pass hahead
          split
          · cases halt with
            | none => exact .ok .pass hahead
            | some halt => exact .ok (.jump ⟨halt.afterTerminator, hpast⟩) hahead
          · cases halt with
            | none => exact .ok .pass hclose
            | some halt => exact .ok .pass halt

theorem loop_twins (hstart : Site T T' start start') (hagain : ReadAlike start start')
    (hrest : Ahead T T' rest rest')
    (hparams : SameParams (paramStarts rest .whileBlock) (paramStarts rest' .whileBlock)) :
    ReadTwins T T' (ActionTwins R Q T T') (Reader.loop v mode start ⟨rest, retained⟩)
      (Reader.loop v' mode start' ⟨rest', retained'⟩) := by
  rw [Reader.loop_eq, Reader.loop_eq]
  have hread := h.param mode retained retained' hrest.toSite hparams
  dsimp only
  rw [hrest.isTerminated_eq]
  split
  · exact .error _ _ rfl
  generalize Reader.param v mode _ = r at hread ⊢
  generalize Reader.param v' mode _ = r' at hread ⊢
  cases hread with
  | error _ _ he => exact .error _ _ he
  | @ok _ _ p p' hx hahead =>
      cases hx
      have hscan := scanBlock_twins hahead .loop
      dsimp only
      generalize scanBlock .loop p.rest = r at hscan ⊢
      generalize scanBlock .loop p'.rest = r' at hscan ⊢
      cases hscan with
      | error => exact .error _ _ rfl
      | ok hmarks =>
          dsimp only
          split
          · exact .ok .pass hahead
          split
          · exact .ok (.jump ⟨hmarks.close.afterTerminator, .before hstart hagain⟩) hahead
          · exact .ok .pass hmarks.close

theorem result_twins (hrest : Ahead T T' rest rest')
    (hparams : SameParams (paramStarts rest .returnValue) (paramStarts rest' .returnValue)) :
    ReadTwins T T' (ActionTwins R Q T T') (Reader.result v mode ⟨rest, retained⟩)
      (Reader.result v' mode ⟨rest', retained'⟩) := by
  rw [Reader.result_eq, Reader.result_eq]
  have hread := h.param mode retained retained' hrest.toSite hparams
  dsimp only
  rw [hrest.isTerminated_eq]
  split
  · exact .error _ _ rfl
  generalize Reader.param v mode _ = r at hread ⊢
  generalize Reader.param v' mode _ = r' at hread ⊢
  cases hread with
  | error _ _ he => exact .error _ _ he
  | ok hx hahead =>
      cases hx
      refine .ok ?_ hahead
      split
      · exact .finish _
      · exact .pass

omit h in
theorem definition_twins (hQ : Rewriting Q) (hT : Q T T') (hrest : Ahead T T' rest rest') :
    ReadTwins T T' (ActionTwins R Q T T') (Reader.definition ⟨rest, retained⟩)
      (Reader.definition ⟨rest', retained'⟩) := by
  rw [Reader.definition_eq, Reader.definition_eq]
  obtain ⟨hword, hahead⟩ := hrest.readWord
  have hscan := scanBlock_twins hahead .definition
  dsimp only
  rw [hrest.isTerminated_eq, hword, hahead.isTerminated_eq]
  generalize (readWord rest).2 = header at hahead hscan ⊢
  generalize (readWord rest').2 = header' at hahead hscan ⊢
  split
  · exact .error _ _ rfl
  split
  · exact .error _ _ rfl
  rename_i hheader
  generalize scanBlock .definition header = r at hscan ⊢
  generalize scanBlock .definition header' = r' at hscan ⊢
  cases hscan with
  | error => exact .error _ _ rfl
  | @ok marks marks' hmarks =>
      have hterm : isTerminated header' = true := by
        rw [Bool.or_eq_true, not_or] at hheader
        simpa using hheader.2
      have hbody := hQ.bodyBetween hT hahead hterm hmarks.closing
      dsimp only
      rw [hbody.2]
      split
      · exact .error _ _ rfl
      · refine .ok (.define _ ?_) hmarks.close
        rw [String.toList_ofList, String.toList_ofList]
        exact hbody.1

/-- From places that correspond two runs read the same. -/
theorem statement_twins (hQ : Rewriting Q) (hT : Q T T') (hstart : Site T T' start start')
    (hagain : ReadAlike start start') (hrest : Ahead T T' rest rest') (k : Keyword)
    (hparams : SameParams (paramStarts rest k) (paramStarts rest' k)) :
    ReadTwins T T' (ActionTwins R Q T T') (Reader.statement v mode start k ⟨rest, retained⟩)
      (Reader.statement v' mode start' k ⟨rest', retained'⟩) := by
  cases k with
  | set => exact assignment_twins h mode retained retained' hrest hparams
  | call => exact nativeCall_twins h mode retained retained' hrest hparams
  | goto => exact subroutineCall_twins h mode retained retained' hrest hparams
  | var | exportVar | pop =>
      simp only [Reader.statement, Reader.declaration_eq]
      rw [hrest.isTerminated_eq]
      split
      · exact .error _ _ rfl
      · exact .ok (.declare _ (readNames_twins hrest.toSite)) hrest
  | ifBlock => exact conditional_twins h mode retained retained' (hQ.texts hT) hrest hparams
  | whileBlock => exact loop_twins h mode retained retained' hstart hagain hrest hparams
  | define => exact definition_twins retained retained' hQ hT hrest
  | returnValue => exact result_twins h mode retained retained' hrest hparams
  | exit =>
      refine .ok ?_ hrest
      split
      · exact .finish none
      · exact .pass
  | elseBranch | fi | done | endDefine => exact .ok .pass hrest

end

end NumScript.Script
