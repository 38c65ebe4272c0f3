import Mathlib.Logic.Relation
import NumScript.Proofs.Script.Soundness

set_option autoImplicit false

/-! # How blocks are nested

Nothing reads the blocks of a text as a whole. The closer of a block is looked for among the later
statements, past all blocks of another sort, and closers that belong to no block are passed over. So
a text that was validated need not be nested properly (`ProperlyNested`): a `fi` may stand alone, and
a conditional may end in the middle of a loop.

What a validation does check is that every block is closed, each sort on its own
(`Interpreter.openBlocks_of_validate`): a closing keyword ends the innermost open block of its own
sort, if there is one, and at the end of the text no block is open. The same holds of the body of
each subroutine in the text, for which the keywords outside it count for nothing. So a validated text
is nested properly just if none of its closing keywords and of its `else`s is out of place
(`Interpreter.properlyNested_iff_of_validate`).
-/

namespace NumScript.Script

variable {ω σ : Type}

/-! ## Keywords of blocks

A text is seen as the list of the keywords that its statements start with. Both notions of nesting
are folds over this list, with the blocks that are open as their state. -/

namespace Keyword

def opens? : Keyword → Option Block
  | ifBlock => some .conditional
  | whileBlock => some .loop
  | define => some .definition
  | _ => none

def closes? : Keyword → Option Block
  | fi => some .conditional
  | done => some .loop
  | endDefine => some .definition
  | _ => none

theorem opens?_eq_some_iff {k : Keyword} {b : Block} : k.opens? = some b ↔ k = b.opener := by
  cases k <;> cases b <;> decide

theorem closes?_eq_some_iff {k : Keyword} {b : Block} : k.closes? = some b ↔ k = b.closer := by
  cases k <;> cases b <;> decide

end Keyword

def leadingKeyword? (statement : List Char) : Option Keyword :=
  match (readLeading statement).1 with
  | .keyword k => some k
  | _ => none

def leadingKeywords (text : List Char) : List Keyword :=
  (text :: laterStatements text).filterMap leadingKeyword?

/-- The blocks that are open after one more keyword of a properly nested text, the innermost first,
if the keyword has a place there. -/
def nest (blocks : List Block) (k : Keyword) : Option (List Block) :=
  match k.opens?, k.closes? with
  | some b, _ => some (b :: blocks)
  | none, some b => if blocks.head? = some b then some blocks.tail else none
  | none, none => if k = .elseBranch ∧ blocks.head? ≠ some .conditional then none else some blocks

/-- Every closing keyword closes the innermost open block, every `else` belongs to it, and no block
is left open. -/
def ProperlyNested (ks : List Keyword) : Prop :=
  ks.foldlM nest [] = some []

instance (ks : List Keyword) : Decidable (ProperlyNested ks) :=
  inferInstanceAs (Decidable (_ = _))

/-- The blocks that are open after one more keyword, the innermost first, if a closing keyword
closes the innermost block of its own sort and does nothing where there is none. -/
def pairOff (blocks : List Block) (k : Keyword) : List Block :=
  match k.opens?, k.closes? with
  | some b, _ => b :: blocks
  | none, some b => blocks.erase b
  | none, none => blocks

/-- The blocks that are open at the end, each sort paired on its own. -/
def openBlocks (ks : List Keyword) : List Block :=
  ks.foldl pairOff []

/-! ## The two notions

Both go through the keywords with the blocks that are open. They part where a keyword has no place
among these: the first notion gives up there, the second pairs the keyword off as well as it can. So
nested properly are just the keywords that are all in place and leave no block open when they are
paired off (`properlyNested_iff`). -/

/-- A closing keyword has a place where the innermost open block is of its sort, an `else` where this
is a conditional, and the other keywords have one everywhere. -/
def HasPlace (blocks : List Block) (k : Keyword) : Prop :=
  (∀ b ∈ k.closes?, blocks.head? = some b) ∧
    (k = .elseBranch → blocks.head? = some .conditional)

theorem nest_eq_some_iff {blocks blocks' : List Block} {k : Keyword} :
    nest blocks k = some blocks' ↔ HasPlace blocks k ∧ pairOff blocks k = blocks' := by
  unfold nest pairOff HasPlace
  cases hopens : k.opens? with
  | some b =>
      obtain rfl := Keyword.opens?_eq_some_iff.1 hopens
      have hcloses : b.opener.closes? = none := by cases b <;> rfl
      have helse : b.opener ≠ .elseBranch := by cases b <;> decide
      simp [hcloses, helse]
  | none =>
      cases hcloses : k.closes? with
      | some b =>
          have helse : k ≠ .elseBranch := by
            rintro rfl
            cases hcloses
          by_cases hhead : blocks.head? = some b
          · obtain ⟨below, rfl⟩ := List.head?_eq_some_iff.1 hhead
            simp [helse]
          · simp [hhead]
      | none =>
          by_cases hplace : k = .elseBranch ∧ blocks.head? ≠ some .conditional
          · simp [hplace]
          · have helse : k = .elseBranch → blocks.head? = some .conditional := by
              intro hk
              exact Decidable.not_not.1 fun hhead => hplace ⟨hk, hhead⟩
            simp only [if_neg hplace, Option.some.injEq]
            constructor
            · rintro rfl
              exact ⟨⟨fun b hb => absurd hb (Option.not_mem_none b), helse⟩, rfl⟩
            · exact fun h => h.2

theorem foldlM_nest_eq_some_iff {ks : List Keyword} {blocks blocks' : List Block} :
    ks.foldlM nest blocks = some blocks' ↔
      (∀ before k after, ks = before ++ k :: after → HasPlace (before.foldl pairOff blocks) k) ∧
        ks.foldl pairOff blocks = blocks' := by
  induction ks generalizing blocks with
  | nil => simp
  | cons k ks ih =>
      rw [List.foldlM_cons, Option.bind_eq_bind, Option.bind_eq_some_iff, List.foldl_cons]
      constructor
      · rintro ⟨next, hnext, hrest⟩
        obtain ⟨hplace, rfl⟩ := nest_eq_some_iff.1 hnext
        obtain ⟨hplaces, hend⟩ := ih.1 hrest
        refine ⟨?_, hend⟩
        rintro (_ | ⟨d, before⟩) l after heq
        · obtain ⟨rfl, rfl⟩ := List.cons.inj heq
          exact hplace
        · obtain ⟨rfl, hrest⟩ := List.cons.inj heq
          exact hplaces before l after hrest
      · rintro ⟨hplaces, hend⟩
        refine ⟨_, nest_eq_some_iff.2 ⟨hplaces [] k ks rfl, rfl⟩, ih.2 ⟨?_, hend⟩⟩
        rintro before l after rfl
        exact hplaces (k :: before) l after rfl

def EachInPlace (ks : List Keyword) : Prop :=
  ∀ before k after, ks = before ++ k :: after → HasPlace (openBlocks before) k

theorem properlyNested_iff {ks : List Keyword} :
    ProperlyNested ks ↔ EachInPlace ks ∧ openBlocks ks = [] :=
  foldlM_nest_eq_some_iff

/-! ## Counting the open blocks of one sort

The sorts do not interfere in the second notion. So the open blocks of one sort are counted without
the others, and a closer that each opener finds behind it brings the count back to zero. -/

/-- Among the keywords is the closer of a block, inside which `depth` more blocks of the same sort
are open. -/
def FindsCloser (b : Block) : Nat → List Keyword → Prop
  | _, [] => False
  | depth, k :: ks =>
    if k = b.opener then FindsCloser b (depth + 1) ks
    else if k = b.closer then depth = 0 ∨ FindsCloser b (depth - 1) ks
    else FindsCloser b depth ks

/-- Every opener of this sort has a closer behind it. -/
def EachClosed (b : Block) : List Keyword → Prop
  | [] => True
  | k :: ks => (k = b.opener → FindsCloser b 0 ks) ∧ EachClosed b ks

theorem count_pairOff_opener (b : Block) (blocks : List Block) :
    (pairOff blocks b.opener).count b = blocks.count b + 1 := by
  rw [pairOff, Keyword.opens?_eq_some_iff.2 rfl]
  exact List.count_cons_self

theorem count_pairOff_closer (b : Block) (blocks : List Block) :
    (pairOff blocks b.closer).count b = blocks.count b - 1 := by
  have hopens : b.closer.opens? = none := by
    cases b <;> rfl
  rw [pairOff, hopens, Keyword.closes?_eq_some_iff.2 rfl]
  exact List.count_erase_self

theorem count_pairOff_of_ne {b : Block} {k : Keyword} (hopener : k ≠ b.opener)
    (hcloser : k ≠ b.closer) (blocks : List Block) :
    (pairOff blocks k).count b = blocks.count b := by
  unfold pairOff
  split
  · rename_i b' _ hk
    refine List.count_cons_of_ne ?_
    rintro rfl
    exact hopener (Keyword.opens?_eq_some_iff.1 hk)
  · rename_i b' _ hk
    refine List.count_erase_of_ne ?_
    rintro rfl
    exact hcloser (Keyword.closes?_eq_some_iff.1 hk)
  · rfl

/-- If the blocks that are open now are closed by the keywords ahead, and so is each block that is
opened there, none is open at the end. -/
theorem count_foldl_pairOff {b : Block} {ks : List Keyword} (hks : EachClosed b ks)
    {blocks : List Block} (h : ∀ depth, blocks.count b = depth + 1 → FindsCloser b depth ks) :
    (ks.foldl pairOff blocks).count b = 0 := by
  -- with `depth` blocks of the sort open, the outermost is closed by the keywords ahead
  induction ks generalizing blocks with
  | nil =>
      cases hcount : blocks.count b with
      | zero => exact hcount
      | succ depth => exact (h depth hcount).elim
  | cons k ks ih =>
      obtain ⟨hk, hks⟩ := hks
      refine ih hks fun depth hdepth => ?_
      by_cases hopener : k = b.opener
      · subst hopener
        rw [count_pairOff_opener, Nat.add_right_cancel_iff] at hdepth
        cases depth with
        | zero => exact hk rfl
        | succ outer =>
            have hcloses := h outer hdepth
            rwa [FindsCloser, if_pos rfl] at hcloses
      by_cases hcloser : k = b.closer
      · subst hcloser
        rw [count_pairOff_closer] at hdepth
        have hcloses := h (depth + 1) (by omega)
        rw [FindsCloser, if_neg hopener, if_pos rfl] at hcloses
        exact hcloses.resolve_left (Nat.succ_ne_zero depth)
      · rw [count_pairOff_of_ne hopener hcloser] at hdepth
        have hcloses := h depth hdepth
        rwa [FindsCloser, if_neg hopener, if_neg hcloser] at hcloses

theorem openBlocks_eq_nil {ks : List Keyword} (h : ∀ b, EachClosed b ks) : openBlocks ks = [] := by
  refine List.eq_nil_iff_forall_not_mem.2 fun b => List.count_eq_zero.1 ?_
  refine count_foldl_pairOff (h b) fun depth hdepth => ?_
  rw [List.count_nil] at hdepth
  omega

/-! ## The keywords of a sound text

A block that is closed in a text, as the search finds it, has its closer among the keywords behind
its opener. -/

theorem leadingKeyword?_of_readLeading {s ahead : List Char} {k : Keyword}
    (h : readLeading s = (.keyword k, ahead)) : leadingKeyword? s = some k := by
  rw [leadingKeyword?, h]

/-- A scan that finds the end of a block finds its closer among the keywords. -/
theorem findsCloser_of_scanStatements {b : Block} {depth : Nat} {alternate : Option (List Char)}
    {here : List Char} {statements : List (List Char)} {marks : Landmarks}
    (h : scanStatements b depth alternate here statements = .ok marks) :
    FindsCloser b depth (statements.filterMap leadingKeyword?) := by
  -- the search counts the same keywords, with the same depth
  induction statements generalizing depth alternate here with
  | nil => cases h
  | cons s more ih =>
      rw [scanStatements] at h
      rw [List.filterMap_cons, leadingKeyword?]
      rcases hs : readLeading s with ⟨leading, ahead⟩
      rw [hs] at h
      cases leading with
      | nothing => exact ih h
      | unknown word => exact ih h
      | keyword k =>
          dsimp only at h ⊢
          rw [FindsCloser]
          split at h
          · rename_i hopener
            rw [if_pos hopener]
            exact ih h
          rename_i hopener
          rw [if_neg hopener]
          split at h
          · rename_i hcloser
            rw [if_pos hcloser]
            cases depth with
            | zero => exact .inl rfl
            | succ outer => exact .inr (ih h)
          rename_i hcloser
          rw [if_neg hcloser]
          split at h
          · exact ih h
          · exact ih h

theorem WellFormed.findsCloser {s : List Char} (hs : WellFormed s) {b : Block}
    (hb : leadingKeyword? s = some b.opener) :
    FindsCloser b 0 ((laterStatements s).filterMap leadingKeyword?) := by
  cases hs with
  | last hnil =>
      rw [leadingKeyword?, ← readLeading_skipGap, hnil] at hb
      cases hb
  | statement hl hend _ hblock =>
      rw [leadingKeyword?_of_readLeading hl] at hb
      obtain rfl := Option.some.inj hb
      obtain ⟨marks, hscan, _⟩ := hblock b rfl
      have hcloses := findsCloser_of_scanStatements hscan
      rwa [laterStatements_terminator, ← laterStatements_of_operandsEnd hl hend] at hcloses

theorem eachClosed_of_wellFormed {text : List Char} (b : Block)
    (h : ∀ s ∈ text :: laterStatements text, WellFormed s) :
    EachClosed b (leadingKeywords text) := by
  -- a statement without a keyword leaves the keywords behind it as they are
  have first {s : List Char} (hs : WellFormed s)
      (hlater : EachClosed b ((laterStatements s).filterMap leadingKeyword?)) :
      EachClosed b (leadingKeywords s) := by
    rw [leadingKeywords, List.filterMap_cons]
    cases hk : leadingKeyword? s with
    | none => exact hlater
    | some k => exact ⟨fun hopener => hs.findsCloser (hopener ▸ hk), hlater⟩
  induction text using laterStatements_induction with
  | last s hlast =>
      refine first (h s (.head _)) ?_
      rw [hlast]
      exact True.intro
  | more s r hr ih =>
      refine first (h s (.head _)) ?_
      rw [hr] at h ⊢
      exact ih fun t ht => h t (.tail _ ht)

theorem Sound.openBlocks {text : List Char} (h : Sound text) :
    openBlocks (leadingKeywords text) = [] :=
  openBlocks_eq_nil fun b => eachClosed_of_wellFormed b fun _ hs => (h.good hs).1


/-! ## The main statement

It is stated for the script and for each body in it, and says where proper nesting would need more.
-/

def definedBody? (statement : List Char) : Option (List Char) :=
  match readLeading statement with
  | (.keyword .define, rest) =>
    match scanBlock .definition (readWord rest).2 with
    | .ok marks => some (bodyBetween (readWord rest).2 marks.closing)
    | .error _ => none
  | _ => none

theorem defines_of_definedBody? {s body : List Char} (h : definedBody? s = some body) :
    Defines s body := by
  unfold definedBody? at h
  split at h
  · rename_i rest hl
    split at h
    · rename_i marks hscan
      exact ⟨rest, marks, hl, hscan, Option.some.inj h⟩
    · cases h
  · cases h

def HasBody (text body : List Char) : Prop :=
  body ∈ (text :: laterStatements text).filterMap definedBody?

instance (text body : List Char) : Decidable (HasBody text body) :=
  inferInstanceAs (Decidable (_ ∈ _))

theorem Sound.of_hasBody {text body : List Char} (h : Sound text)
    (hbody : Relation.ReflTransGen HasBody text body) : Sound body := by
  induction hbody with
  | refl => exact h
  | tail _ hstep ih =>
      obtain ⟨s, hs, hdef⟩ := List.mem_filterMap.1 hstep
      exact (ih.good hs).2 _ (defines_of_definedBody? hdef)

theorem Interpreter.sound_of_validate (i : Interpreter ω σ) (script : String)
    (chain : Option (Chain ω)) (h : (i.validate script chain).1 = .finished) :
    Sound script.toList :=
  @VisitsAll.sound _ _ _ (run_visitsAll i.host (script.toList.length + 1) 0)
    { rest := script.toList, mode := .validate, outer := chain } _ rfl rfl h

/-- In a script that was validated, against any names, every block is closed, each sort on its own;
and so it is in the body of every subroutine of the script, and in those of their subroutines. -/
theorem Interpreter.openBlocks_of_validate (i : Interpreter ω σ) (script : String)
    (chain : Option (Chain ω)) (h : (i.validate script chain).1 = .finished) {text : List Char}
    (htext : Relation.ReflTransGen HasBody script.toList text) :
    openBlocks (leadingKeywords text) = [] :=
  ((i.sound_of_validate script chain h).of_hasBody htext).openBlocks

/-- The main statement at a script with a loop in a branch, and for the body of its subroutine. -/
theorem Interpreter.openBlocks_of_validate_branches :
    let script := "define f; if 1; exit; fi; end; if 0; while 1; done; else; goto f; fi;"
    (Command.interpreter.validate script none).1 = .finished ∧
      leadingKeywords script.toList = [.define, .ifBlock, .exit, .fi, .endDefine, .ifBlock,
        .whileBlock, .done, .elseBranch, .goto, .fi] ∧
      openBlocks (leadingKeywords script.toList) = [] ∧
      HasBody script.toList "if 1; exit; fi;".toList ∧
      openBlocks (leadingKeywords "if 1; exit; fi;".toList) = [] := by
  intro script
  have hvalid : (Command.interpreter.validate script none).1 = .finished := by decide +kernel
  have hbody : HasBody script.toList "if 1; exit; fi;".toList := by decide +kernel
  exact ⟨hvalid, by decide +kernel, Interpreter.openBlocks_of_validate _ script none hvalid .refl,
    hbody, Interpreter.openBlocks_of_validate _ script none hvalid (.single hbody)⟩

/-- All that such a text may lack of proper nesting is that a keyword is out of place. -/
theorem Interpreter.properlyNested_iff_of_validate (i : Interpreter ω σ) (script : String)
    (chain : Option (Chain ω)) (h : (i.validate script chain).1 = .finished) {text : List Char}
    (htext : Relation.ReflTransGen HasBody script.toList text) :
    ProperlyNested (leadingKeywords text) ↔ EachInPlace (leadingKeywords text) :=
  properlyNested_iff.trans
    (and_iff_left ((i.sound_of_validate script chain h).of_hasBody htext).openBlocks)

/-- A script can be validated though it is not properly nested: a closing keyword without a block,
an `else` without a conditional, and a conditional that ends in the middle of a loop. -/
theorem Interpreter.exists_validate_not_properlyNested :
    ((Command.interpreter.validate "fi;" none).1 = .finished ∧
        ¬ ProperlyNested (leadingKeywords "fi;".toList)) ∧
      ((Command.interpreter.validate "else;" none).1 = .finished ∧
        ¬ ProperlyNested (leadingKeywords "else;".toList)) ∧
      ((Command.interpreter.validate "if 1; while 1; fi; done;" none).1 = .finished ∧
        ¬ ProperlyNested (leadingKeywords "if 1; while 1; fi; done;".toList)) := by
  refine ⟨⟨?_, ?_⟩, ⟨?_, ?_⟩, ?_, ?_⟩
  all_goals decide +kernel

end NumScript.Script
