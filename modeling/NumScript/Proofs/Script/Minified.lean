import NumScript.Proofs.Script.Rewriting

set_option autoImplicit false

/-! # Minified scripts do the same

In a script of ASCII characters without comments and vertical tabs the minifier drops blanks only,
and it keeps one blank where two characters would run into one token. So it changes nothing but gaps
(`rewriter_minify`), and the minified script does the same (`Interpreter.evaluate_minify`). The text
of a subroutine that is cut out of the script is minified then. One that is cut out of a subroutine
that was there before is not, since that one was not minified.
-/

namespace NumScript.Script

variable {ω σ : Type}

/-- An ASCII character other than `#` and the vertical tab. -/
def isPlainChar (c : Char) : Bool :=
  c.toNat < 128 && c != '#' && c != '\x0b'

def IsPlain (t : List Char) : Prop :=
  ∀ c ∈ t, isPlainChar c = true

/-! ## Plain texts

The minifier drops more than the readers skip. On plain texts both have the same blanks, and there
are no comments, so the pass of the minifier has two states only. -/

/-- Among these characters the spaces are the blanks. -/
theorem isSpace_eq_isBlank {c : Char} (hascii : c.toNat < 128) (htab : c ≠ '\x0b') :
    Text.isSpace c = Text.isBlank c := by
  have htable : ∀ n : Fin 128, n.val ≠ 11 →
      Text.isSpace (Char.ofNat n) = Text.isBlank (Char.ofNat n) := by decide
  have heq : Char.ofNat c.toNat = c := Char.ofNat_toNat c
  have hne : c.toNat ≠ 11 := by
    intro h
    rw [h] at heq
    exact htab heq.symm
  have h := htable ⟨c.toNat, hascii⟩ hne
  rwa [heq] at h

theorem IsPlain.of_isInfix {t u : List Char} (h : IsPlain t) (hu : u <:+: t) : IsPlain u :=
  fun c hc => h c (hu.subset hc)

theorem IsPlain.head {c : Char} {t : List Char} (h : IsPlain (c :: t)) :
    c.toNat < 128 ∧ c ≠ '#' ∧ c ≠ '\x0b' := by
  have hc := h c (.head _)
  simp only [isPlainChar, Bool.and_eq_true, decide_eq_true_eq, bne_iff_ne] at hc
  exact ⟨hc.1.1, hc.1.2, hc.2⟩

theorem IsPlain.tail {c : Char} {t : List Char} (h : IsPlain (c :: t)) : IsPlain t :=
  fun d hd => h d (.tail _ hd)

theorem minifyAfter_of_blank {c : Char} {t : List Char} (h : IsPlain (c :: t))
    (hblank : Text.isBlank c = true) (last : Option Char) {gap : Gap} (hgap : gap ≠ .comment) :
    minifyAfter last gap (c :: t) = minifyAfter last .open t :=
  minifyAfter_of_space h.head.2.1 (Text.isSpace_of_isBlank hblank) last hgap t

theorem minifyAfter_of_visible {c : Char} {t : List Char} (h : IsPlain (c :: t))
    (hblank : Text.isBlank c = false) (last : Option Char) {gap : Gap} (hgap : gap ≠ .comment) :
    minifyAfter last gap (c :: t) =
      if gap = .open ∧ last.any (needsSpace · c) then ' ' :: c :: minifyAfter (some c) .closed t
      else c :: minifyAfter (some c) .closed t := by
  obtain ⟨hascii, hhash, htab⟩ := h.head
  have hspace : Text.isSpace c = false := by rw [isSpace_eq_isBlank hascii htab, hblank]
  exact minifyAfter_of_not_space hhash hspace last hgap t

/-- At the start no blank is kept. -/
theorem minifyAfter_none_of_visible {c : Char} {t : List Char} (h : IsPlain (c :: t))
    (hblank : Text.isBlank c = false) {gap : Gap} (hgap : gap ≠ .comment) :
    minifyAfter none gap (c :: t) = c :: minifyAfter (some c) .closed t := by
  rw [minifyAfter_of_visible h hblank none hgap]
  simp

/-! ## A minified text is alike

A blank is kept exactly where the relation asks for a gap. The induction is the one of the minifier.
-/

theorem alike_minifyAfter {t : List Char} (h : IsPlain t) (last : Option Char) :
    Alike true last t (minifyAfter last .closed t) ∧
      ∀ b, Text.isBlank b = true → Alike true last (b :: t) (minifyAfter last .open t) := by
  -- an open gap is one that a blank `b` stands for
  induction t generalizing last with
  | nil => exact ⟨.nil rfl rfl, fun b hb => .nil (skipGap_cons_blank hb []) rfl⟩
  | cons c t ih =>
      have hhash := h.head.2.1
      obtain ⟨hclosed, hopen⟩ := ih h.tail last
      cases hblank : Text.isBlank c with
      | true =>
          rw [minifyAfter_of_blank h hblank last (by decide),
            minifyAfter_of_blank h hblank last (by decide)]
          refine ⟨hopen c hblank, fun b hb => (hopen c hblank).of_gap_left ?_ ?_⟩
          · exact skipGap_cons_blank hb _
          · rw [lead_of_blank hb, lead_of_blank hblank]
      | false =>
          have hnext := (ih h.tail (some c)).1
          constructor
          · rw [minifyAfter_of_visible h hblank last (by decide), if_neg (by simp)]
            exact hnext.cons_visible hblank hhash
          · intro b hb
            have hleft : skipGap (b :: c :: t) = c :: t := by
              rw [skipGap_cons_blank hb, skipGap_cons_of_visible hblank hhash]
            rw [minifyAfter_of_visible h hblank last (by decide)]
            split
            · -- one blank is kept
              refine .cons hleft (skipGap_cons_of_visible hblank hhash _) (.inl ?_) hnext
              rw [lead_of_blank hb]
              rfl
            · rename_i hneeds
              refine .cons hleft (skipGap_cons_of_visible hblank hhash _) (.inr ?_) hnext
              rintro d rfl
              simpa using hneeds

/-! ## Statements of a minified text

No space is kept beside a terminator. So a text is minified statement by statement, and a body of a
minified text is a minified body. -/

theorem needsSpace_terminator (c : Char) :
    needsSpace ';' c = false ∧ needsSpace c ';' = false := by
  have hword : isMinifyWord ';' = false := by decide
  have hoperator : isMinifyOperator ';' = false := by decide
  simp [needsSpace, hword, hoperator]

/-- Where no blank would be kept before the first character, a text is minified as at its start. -/
theorem minifyAfter_eq_minify {t : List Char} (h : IsPlain t) {last : Option Char}
    (hlast : ∀ c, last.any (needsSpace · c) = false) {gap : Gap} (hgap : gap ≠ .comment) :
    minifyAfter last gap t = minify t := by
  induction t generalizing last gap with
  | nil => cases gap <;> rfl
  | cons c t ih =>
      rw [minify]
      cases hblank : Text.isBlank c with
      | true =>
          rw [minifyAfter_of_blank h hblank last hgap,
            minifyAfter_of_blank h hblank none (by decide), ih h.tail hlast (by decide),
            ih h.tail (fun _ => rfl) (by decide)]
      | false =>
          rw [minifyAfter_of_visible h hblank last hgap,
            minifyAfter_none_of_visible h hblank (by decide), hlast]
          simp

theorem minify_cons_blank {c : Char} {t : List Char} (h : IsPlain (c :: t))
    (hblank : Text.isBlank c = true) : minify (c :: t) = minify t := by
  rw [minify, minifyAfter_of_blank h hblank none (by decide)]
  exact minifyAfter_eq_minify h.tail (fun _ => rfl) (by decide)

theorem minifyAfter_terminator {t : List Char} (h : IsPlain (';' :: t)) (last : Option Char)
    {gap : Gap} (hgap : gap ≠ .comment) : minifyAfter last gap (';' :: t) = ';' :: minify t := by
  have hafter : minifyAfter (some ';') .closed t = minify t :=
    minifyAfter_eq_minify h.tail (fun c => by simpa using (needsSpace_terminator c).1)
      (by decide)
  have hbefore : last.any (needsSpace · ';') = false := by
    cases last with
    | none => rfl
    | some b => exact (needsSpace_terminator b).2
  rw [minifyAfter_of_visible h (by decide) last hgap, hbefore, hafter]
  simp

theorem laterStatements_minifyAfter {t : List Char} (h : IsPlain t) (last : Option Char) {gap : Gap}
    (hgap : gap ≠ .comment) :
    laterStatements (minifyAfter last gap t) = (laterStatements t).map minify := by
  induction t generalizing last gap with
  | nil => cases gap <;> rfl
  | cons c t ih =>
      have hhash := h.head.2.1
      by_cases hsemi : c = ';'
      · subst hsemi
        rw [minifyAfter_terminator h last hgap, laterStatements_terminator,
          laterStatements_terminator, List.map_cons, minify, ih h.tail none (by decide)]
      rw [laterStatements_cons_of_ne t hsemi hhash]
      cases hblank : Text.isBlank c with
      | true =>
          rw [minifyAfter_of_blank h hblank last hgap]
          exact ih h.tail last (by decide)
      | false =>
          have hnext := ih h.tail (some c) (by decide : Gap.closed ≠ .comment)
          rw [minifyAfter_of_visible h hblank last hgap]
          rw [← hnext]
          split <;> exact laterStatements_cons_of_ne _ hsemi hhash

theorem minifyAfter_append {x t : List Char} (h : IsPlain (x ++ t)) (hx : IsClosed x)
    (last : Option Char) {gap : Gap} (hgap : gap ≠ .comment) :
    minifyAfter last gap (x ++ t) = minifyAfter last gap x ++ minify t := by
  induction x generalizing last gap with
  | nil => cases hx
  | cons c x ih =>
      have hplain : IsPlain (c :: x) := h.of_isInfix (List.prefix_append _ t).isInfix
      have hhash := h.head.2.1
      rw [List.cons_append] at h ⊢
      by_cases hsemi : c = ';'
      · subst hsemi
        rw [minifyAfter_terminator h last hgap, minifyAfter_terminator hplain last hgap,
          List.cons_append]
        rcases List.mem_cons.1 hx with hnil | hx
        · rw [← hnil]
          rfl
        · exact congrArg _ (ih h.tail hx none (by decide))
      have hx : IsClosed x := by
        rwa [IsClosed, laterStatements_cons_of_ne x hsemi hhash] at hx
      cases hblank : Text.isBlank c with
      | true =>
          rw [minifyAfter_of_blank h hblank last hgap,
            minifyAfter_of_blank hplain hblank last hgap]
          exact ih h.tail hx last (by decide)
      | false =>
          rw [minifyAfter_of_visible h hblank last hgap,
            minifyAfter_of_visible hplain hblank last hgap, ih h.tail hx (some c) (by decide)]
          split <;> rfl

theorem skipGap_minify {t : List Char} (h : IsPlain t) :
    skipGap (minify t) = minify (skipGap t) := by
  induction t with
  | nil => rfl
  | cons c t ih =>
      have hhash := h.head.2.1
      cases hblank : Text.isBlank c with
      | true => rw [minify_cons_blank h hblank, skipGap_cons_blank hblank, ih h.tail]
      | false =>
          rw [skipGap_cons_of_visible hblank hhash, minify,
            minifyAfter_none_of_visible h hblank (by decide)]
          exact skipGap_cons_of_visible hblank hhash _

theorem rewriter_minify : Rewriter IsPlain minify where
  texts h := (alike_minifyAfter h none).1.textTwins
  laterStatements h := laterStatements_minifyAfter h none (by decide)
  append h hx := minifyAfter_append h hx none (by decide)
  skipGap h := skipGap_minify h
  map_nil := rfl
  nil _ hc := absurd hc List.not_mem_nil
  of_mem h hu := h.of_isInfix (isInfix_of_mem_laterStatements hu)
  of_append h _ := h.of_isInfix (List.prefix_append _ _).isInfix
  of_skipGap h := h.of_isInfix (skipGapFrom_suffix false _).isInfix

/-! ## Runs

All texts of earlier subroutines are arbitrary here, since the two runs read them alike. Only what
is cut out of the script has to be plain. -/

/-- A plain script and the minified script end alike and leave the same world and the same last
result. They define the same subroutines in the same order. Each text has an origin: one that comes
from the script is a piece of it and is minified in the second run, and one that comes from a
subroutine that was there before is a piece of that and is the same in both. -/
theorem Interpreter.evaluate_minify (i : Interpreter ω σ) (steps : Nat) (script : String)
    (hscript : IsPlain script.toList) (params : Option (List Float)) :
    let o := i.evaluate steps script params
    let o' := i.evaluate steps (String.ofList (minify script.toList)) params
    let w := i.origins steps script params
    o.1.SameCode o'.1 ∧ o.2.machine.world = o'.2.machine.world ∧
      o.2.machine.lastReturn = o'.2.machine.lastReturn ∧
      Tables (Rewrites IsPlain minify script.toList i.machine.functions) i.machine.functions w
        o.2.machine.functions o'.2.machine.functions ∧
      o'.2.machine.functions = w.rewrite (rewriteText minify) o.2.machine.functions := by
  obtain ⟨hending, hmachine⟩ := rewriter_minify.evaluate i steps hscript params
  exact ⟨hending, hmachine.world, hmachine.lastReturn, hmachine.functions,
    hmachine.functions.eq_rewrite (fun _ _ => rfl) Rewrites.eq_rewriteText⟩

def Interpreter.withFunctions (functions : Functions) : Interpreter Unit Unit :=
  .ofWorld { notify := fun _ _ w => w }
    { root := ⟨[("x", Variable.zero .number)]⟩, state := () } functions

/-- The main statement for a script with a loop and a subroutine. -/
theorem Interpreter.evaluate_minify_loop :
    let i := Interpreter.withFunctions {}
    let script := "while  x < 3;\n  set x  x + 1 ;\ndone;  define f; return - x; end; goto f;"
    let minified := "while x<3;set x x+1;done;define f;return-x;end;goto f;"
    IsPlain script.toList ∧ String.ofList (minify script.toList) = minified ∧
      (i.evaluate 20 script none).1.SameCode (i.evaluate 20 minified none).1 ∧
      (i.evaluate 20 script none).2.machine.world =
        (i.evaluate 20 minified none).2.machine.world := by
  intro i script minified
  have hplain : IsPlain script.toList := List.all_eq_true.1 (by decide)
  have hminified : String.ofList (minify script.toList) = minified := by decide +kernel
  obtain ⟨hending, hworld, -⟩ := Interpreter.evaluate_minify i 20 script hplain none
  rw [hminified] at hending hworld
  exact ⟨hplain, hminified, hending, hworld⟩

/-- A text that is cut out of a subroutine that was there before is not minified. -/
theorem Interpreter.evaluate_minify_of_earlier :
    let i := Interpreter.withFunctions ⟨[("g", "define h;  set x 1;  set x 2;  end;")]⟩
    let body := "set x 1;  set x 2;"
    i.machine.functions.find? "h" = none ∧
      (i.evaluate 10 "goto g;" none).2.machine.functions.find? "h" = some body ∧
      (i.evaluate 10 (String.ofList (minify "goto g;".toList)) none).2.machine.functions.find? "h" =
        some body ∧
      String.ofList (minify body.toList) ≠ body := by
  decide +kernel

-- The same piece of text is minified for `k`, which comes from the script, and not for `h`.
example :
    let i := Interpreter.withFunctions ⟨[("g", "define h; set x  1; end;")]⟩
    let script := "define k; set x  1; end; goto g;"
    let minified := String.ofList (minify script.toList)
    let texts (script : String) :=
      ["h", "k"].map (i.evaluate 10 script none).2.machine.functions.find?
    texts script = [some "set x  1;", some "set x  1;"] ∧
      texts minified = [some "set x  1;", some "set x 1;"] := by
  decide +kernel

/-- Where no subroutine was there before, the minified script defines the minified subroutines. -/
theorem Interpreter.functions_evaluate_minify (i : Interpreter ω σ) (steps : Nat) (script : String)
    (hscript : IsPlain script.toList) (params : Option (List Float))
    (hempty : i.machine.functions = {}) :
    (i.evaluate steps (String.ofList (minify script.toList)) params).2.machine.functions =
      (i.evaluate steps script params).2.minifyFunctions.machine.functions := by
  have h := (rewriter_minify.evaluate i steps hscript params).2.functions
  rw [hempty] at h
  refine h.eq_rewrite (g := fun _ body => String.ofList (minify body.toList))
    (fun _ hmem => absurd hmem List.not_mem_nil) fun {o body body'} hbody => ?_
  cases o with
  | script => exact hbody.eq_rewriteText
  | earlier =>
      obtain ⟨-, _, _, hfind, -⟩ := hbody
      cases hfind

end NumScript.Script
