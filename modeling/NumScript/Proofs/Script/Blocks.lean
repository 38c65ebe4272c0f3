import NumScript.Proofs.Script.Lines

set_option autoImplicit false

/-! # The search for the end of a block

The search goes through the lines of a text one by one and only looks at the word that a line starts
with (`IsLine`). A whole block leaves no trace (`passed_block`): one of the sort that is looked for is
counted when it is opened and again when it is closed, and of another sort nothing counts. So from a
header the search finds the very line that ends its block, and of a conditional the line between its
branches (`IsBody`).
-/

namespace NumScript.Script

/-! ## The search, line by line

A search is a state, how many blocks of its sort are open and where the second branch starts, and a
line changes the state. A line that changes nothing is passed. What is passed can be put together,
and from this the passing of whole blocks follows, by induction on how they are nested. -/

/-- A line that starts in this way, whatever follows it. Its first terminator is its last
character. -/
def IsLine (leading : Leading) (line : List Char) : Prop :=
  ∀ text, (readLeading (line ++ text)).1 = leading ∧
    laterStatements (line ++ text) = text :: laterStatements text

def scanFrom (b : Block) (depth : Nat) (alternate : Option (List Char)) (here text : List Char) :
    Except (List Char) Landmarks :=
  scanStatements b depth alternate here (text :: laterStatements text)

theorem scanBlock_terminator (b : Block) (text : List Char) :
    scanBlock b (';' :: text) = scanFrom b 0 none (';' :: text) text :=
  rfl

/-- The line of a keyword, if no terminator stands in its operands. -/
theorem Line.isLine_of_later {k : Keyword} {operands line : List Char} (h : Line k operands line)
    (hlater : ∀ text, laterStatements (operands ++ ';' :: text) = text :: laterStatements text) :
    IsLine (.keyword k) line := by
  intro text
  have hread := h.readLeading text
  refine ⟨by rw [hread], ?_⟩
  rw [← laterStatements_readLeading hread, laterStatements_skipGap, hlater]

/-- The line of a word that takes no operands. -/
theorem Line.isLine_of_gap {k : Keyword} {gap line : List Char} (h : Line k gap line)
    (hgap : IsGap gap) : IsLine (.keyword k) line :=
  h.isLine_of_later fun text => by rw [hgap.laterStatements_append, laterStatements_terminator]

section

variable {b : Block} {leading : Leading} {line : List Char} (hline : IsLine leading line)
  {depth : Nat} {alternate : Option (List Char)} {here : List Char} (text : List Char)

include hline

/-- One line of a search. -/
theorem IsLine.scanFrom :
    scanFrom b depth alternate here (line ++ text) =
      let ahead := (readLeading (line ++ text)).2
      match leading with
      | .keyword k =>
        if k = b.opener then scanFrom b (depth + 1) alternate ahead text
        else if k = b.closer then
          match depth with
          | 0 => .ok { close := ahead, alternate, closing := line ++ text }
          | outer + 1 => scanFrom b outer alternate ahead text
        else if b = .conditional ∧ k = .elseBranch ∧ depth = 0 ∧ alternate = none then
          scanFrom b depth (some ahead) ahead text
        else scanFrom b depth alternate ahead text
      | _ => scanFrom b depth alternate ahead text := by
  obtain ⟨hl, hlater⟩ := hline text
  have hread : readLeading (line ++ text) = (leading, (readLeading (line ++ text)).2) :=
    Prod.ext hl rfl
  rw [NumScript.Script.scanFrom, hlater, scanStatements, hread]
  cases leading <;> rfl

theorem IsLine.scanFrom_open (hk : leading = .keyword b.opener) :
    ∃ here', NumScript.Script.scanFrom b depth alternate here (line ++ text) =
      NumScript.Script.scanFrom b (depth + 1) alternate here' text := by
  subst hk
  exact ⟨_, by rw [hline.scanFrom]; dsimp only; rw [if_pos rfl]⟩

theorem IsLine.scanFrom_close (hk : leading = .keyword b.closer) :
    ∃ here', NumScript.Script.scanFrom b (depth + 1) alternate here (line ++ text) =
      NumScript.Script.scanFrom b depth alternate here' text := by
  subst hk
  have hopen : b.closer ≠ b.opener := by cases b <;> decide
  exact ⟨_, by rw [hline.scanFrom]; dsimp only; rw [if_neg hopen, if_pos rfl]⟩

theorem IsLine.scanFrom_skip (hopen : leading ≠ .keyword b.opener)
    (hclose : leading ≠ .keyword b.closer)
    (helse : ¬ (b = .conditional ∧ leading = .keyword .elseBranch ∧ depth = 0)) :
    ∃ here', NumScript.Script.scanFrom b depth alternate here (line ++ text) =
      NumScript.Script.scanFrom b depth alternate here' text := by
  refine ⟨(readLeading (line ++ text)).2, ?_⟩
  rw [hline.scanFrom]
  cases leading with
  | keyword k =>
      dsimp only
      rw [if_neg fun hk => hopen (by rw [hk]), if_neg fun hk => hclose (by rw [hk]),
        if_neg fun ⟨hb, hk, hdepth, _⟩ => helse ⟨hb, by rw [hk], hdepth⟩]
  | nothing => rfl
  | unknown word => rfl

end

/-- The search goes through these lines without any effect, as long as it is inside of a block of
the given sort if it looks for the end of such a block. -/
def PassedInside (b' : Option Block) (lines : List Char) : Prop :=
  ∀ (b : Block) (depth : Nat) (alternate : Option (List Char)) (here text : List Char),
    (b' = some b → 0 < depth) →
      ∃ here', scanFrom b depth alternate here (lines ++ text) = scanFrom b depth alternate here' text

/-- The search goes through these lines without any effect. -/
def Passed (lines : List Char) : Prop :=
  PassedInside none lines

theorem Passed.inside {lines : List Char} (h : Passed lines) (b' : Option Block) :
    PassedInside b' lines :=
  fun b depth alternate here text _ => h b depth alternate here text fun hnone =>
    (Option.some_ne_none b hnone.symm).elim

theorem PassedInside.append {b' : Option Block} {lines lines' : List Char}
    (h : PassedInside b' lines) (h' : PassedInside b' lines') : PassedInside b' (lines ++ lines') := by
  intro b depth alternate here text hdepth
  obtain ⟨here', hscan⟩ := h b depth alternate here (lines' ++ text) hdepth
  obtain ⟨here'', hscan'⟩ := h' b depth alternate here' text hdepth
  exact ⟨here'', by rw [List.append_assoc, hscan, hscan']⟩

theorem passed_nil : Passed [] :=
  fun _ _ _ here _ _ => ⟨here, rfl⟩

theorem Leading.keyword_ne {k k' : Keyword} (h : k ≠ k') : Leading.keyword k ≠ .keyword k' :=
  fun h' => h (Leading.keyword.inj h')

/-- A line that neither opens nor closes a block nor divides one. -/
theorem IsLine.passed {leading : Leading} {line : List Char} (h : IsLine leading line)
    (hk : ∀ b : Block, leading ≠ .keyword b.opener ∧ leading ≠ .keyword b.closer)
    (helse : leading ≠ .keyword .elseBranch) : Passed line :=
  fun b _ _ _ text _ => h.scanFrom_skip text (hk b).1 (hk b).2 fun ⟨_, h, _⟩ => helse h

/-- The line between the branches of a conditional that the search is inside of. -/
theorem IsLine.passedInside {line : List Char} (h : IsLine (.keyword .elseBranch) line) :
    PassedInside (some .conditional) line := by
  intro b depth alternate here text hdepth
  refine h.scanFrom_skip text (Leading.keyword_ne ?_) (Leading.keyword_ne ?_) ?_
  · cases b <;> decide
  · cases b <;> decide
  · rintro ⟨rfl, _, rfl⟩
    exact absurd (hdepth rfl) (Nat.lt_irrefl 0)

/-- A block with the lines that open and close it. -/
theorem passed_block {b' : Block} {line lines close : List Char}
    (hopen : IsLine (.keyword b'.opener) line) (hlines : PassedInside (some b') lines)
    (hclose : IsLine (.keyword b'.closer) close) : Passed (line ++ (lines ++ close)) := by
  intro b depth alternate here text _
  have hassoc : line ++ (lines ++ close) ++ text = line ++ (lines ++ (close ++ text)) := by simp
  rw [hassoc]
  by_cases hb : b' = b
  · -- the block is counted when it is opened and again when it is closed
    subst hb
    obtain ⟨here₁, h₁⟩ := hopen.scanFrom_open (lines ++ (close ++ text)) rfl
    obtain ⟨here₂, h₂⟩ :=
      hlines b' (depth + 1) alternate here₁ (close ++ text) fun _ => Nat.succ_pos depth
    obtain ⟨here₃, h₃⟩ := hclose.scanFrom_close text rfl
    exact ⟨here₃, by rw [h₁, h₂, h₃]⟩
  · have hsome : some b' = some b → 0 < depth := fun h => absurd (Option.some.inj h) hb
    -- the lines of other sorts of blocks do not count
    have hother : ∀ k ∈ [b'.opener, b'.closer], k ≠ b.opener ∧ k ≠ b.closer ∧ k ≠ .elseBranch := by
      revert hb
      cases b' <;> cases b <;> decide
    have hskip {k : Keyword} (hk : k ∈ [b'.opener, b'.closer]) {line : List Char}
        (h : IsLine (.keyword k) line) (here text : List Char) :
        ∃ here', scanFrom b depth alternate here (line ++ text) =
          scanFrom b depth alternate here' text := by
      obtain ⟨ho, hc, he⟩ := hother k hk
      exact h.scanFrom_skip text (Leading.keyword_ne ho) (Leading.keyword_ne hc)
        fun h => Leading.keyword_ne he h.2.1
    obtain ⟨here₁, h₁⟩ := hskip (.head _) hopen here (lines ++ (close ++ text))
    obtain ⟨here₂, h₂⟩ := hlines b depth alternate here₁ (close ++ text) hsome
    obtain ⟨here₃, h₃⟩ := hskip (.tail _ (.head _)) hclose here₂ text
    exact ⟨here₃, by rw [h₁, h₂, h₃]⟩

/-- A conditional with two branches, with the line between them. -/
theorem passed_branches {line yesText middle noText close : List Char}
    (hopen : IsLine (.keyword .ifBlock) line) (hyes : Passed yesText)
    (hmiddle : IsLine (.keyword .elseBranch) middle) (hno : Passed noText)
    (hclose : IsLine (.keyword .fi) close) :
    Passed (line ++ ((yesText ++ (middle ++ noText)) ++ close)) :=
  @passed_block .conditional _ _ _ hopen
    ((hyes.inside _).append (hmiddle.passedInside.append (hno.inside _))) hclose

/-! ## Bodies

A block is found from its header by passing its body. There are three ends: the line that closes it,
that line after the one between the branches, and no such line. -/

/-- The lines between the header of a block and the line that ends it. Past them the search knows
what is ahead after the line between the branches, if there is one. -/
def IsBody (b : Block) (lines : List Char) (alternate : Option (List Char)) : Prop :=
  ∀ here text, ∃ here', scanFrom b 0 none here (lines ++ text) =
    scanFrom b 0 (alternate.map (· ++ text)) here' text

theorem Passed.isBody {lines : List Char} (h : Passed lines) (b : Block) : IsBody b lines none :=
  fun here text => h b 0 none here text fun hnone => (Option.some_ne_none b hnone.symm).elim

/-- A conditional with two branches is divided by the line between them. -/
theorem isBody_of_branches {yesText gap middle noText : List Char} (hyes : Passed yesText)
    (hgap : IsGap gap) (hmiddle : Line .elseBranch gap middle) (hno : Passed noText) :
    IsBody .conditional (yesText ++ (middle ++ noText)) (some (';' :: noText)) := by
  intro here text
  have hassoc : yesText ++ (middle ++ noText) ++ text = yesText ++ (middle ++ (noText ++ text)) := by
    simp
  -- through the first branch, over its end, through the second branch
  obtain ⟨here₁, h₁⟩ := hyes.isBody .conditional here (middle ++ (noText ++ text))
  have h₂ := @IsLine.scanFrom .conditional _ _ (hmiddle.isLine_of_gap hgap) 0 none here₁
    (noText ++ text)
  dsimp only at h₂
  rw [if_neg (by decide), if_neg (by decide), if_pos ⟨rfl, rfl, rfl, rfl⟩, hmiddle.readLeading,
    hgap.skipGap_terminator] at h₂
  obtain ⟨here₃, h₃⟩ := hno .conditional 0 (some (';' :: (noText ++ text)))
    (';' :: (noText ++ text)) text fun hnone => (Option.some_ne_none _ hnone.symm).elim
  refine ⟨here₃, ?_⟩
  rw [hassoc, h₁]
  exact h₂.trans h₃

section

variable {b : Block} {lines : List Char} {alternate : Option (List Char)}
  (h : IsBody b lines alternate)

include h

/-- From its header on, a block ends with the line that closes it. -/
theorem IsBody.scanBlock_of_close {gap close : List Char} (hgap : IsGap gap)
    (hclose : Line b.closer gap close) (text : List Char) :
    scanBlock b (';' :: (lines ++ (close ++ text))) =
      .ok { close := ';' :: text, alternate := alternate.map (· ++ (close ++ text)),
            closing := close ++ text } := by
  obtain ⟨here', hscan⟩ := h (';' :: (lines ++ (close ++ text))) (close ++ text)
  have hopen : b.closer ≠ b.opener := by cases b <;> decide
  rw [scanBlock_terminator, hscan, (hclose.isLine_of_gap hgap).scanFrom, hclose.readLeading,
    hgap.skipGap_terminator]
  dsimp only
  rw [if_neg hopen, if_pos rfl]

/-- Where the text ends after the body of a block, the search comes to the end of the text. -/
theorem IsBody.scanBlock_of_trail {trail : List Char} (htrail : IsTrail trail) :
    scanBlock b (';' :: (lines ++ trail)) = .error [] := by
  have hskip := htrail.skipGap
  have hlater : laterStatements trail = [] := by
    rw [← laterStatements_skipGap, hskip]
    rfl
  have hread : readLeading trail = (.nothing, []) := by
    rw [← readLeading_skipGap, hskip]
    rfl
  obtain ⟨here', hscan⟩ := h (';' :: (lines ++ trail)) trail
  rw [scanBlock_terminator, hscan, scanFrom, hlater, scanStatements, hread]
  rfl

end

/-- From its header on, a block of a program ends with the line that closes it. -/
theorem scanBlock_of_passed {b : Block} {lines gap close : List Char} (hlines : Passed lines)
    (hgap : IsGap gap) (hclose : Line b.closer gap close) (text : List Char) :
    scanBlock b (';' :: (lines ++ (close ++ text))) =
      .ok { close := ';' :: text, alternate := none, closing := close ++ text } :=
  (hlines.isBody b).scanBlock_of_close hgap hclose text

/-- A conditional with two branches is divided by the line between them. -/
theorem scanBlock_of_branches {yesText gap middle noText gap' close : List Char}
    (hyes : Passed yesText) (hgap : IsGap gap) (hmiddle : Line .elseBranch gap middle)
    (hno : Passed noText) (hgap' : IsGap gap') (hclose : Line .fi gap' close) (text : List Char) :
    scanBlock .conditional (';' :: (yesText ++ (middle ++ (noText ++ (close ++ text))))) =
      .ok { close := ';' :: text, alternate := some (';' :: (noText ++ (close ++ text))),
            closing := close ++ text } := by
  have hscan := (isBody_of_branches hyes hgap hmiddle hno).scanBlock_of_close hgap' hclose text
  rwa [List.append_assoc, List.append_assoc] at hscan

end NumScript.Script
