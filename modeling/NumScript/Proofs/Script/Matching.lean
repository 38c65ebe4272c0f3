import NumScript.Proofs.Script.Blocks

set_option autoImplicit false

/-! # Blocks and what closes them

What the search for the end of a block finds where the statements form a tree: blocks of all three
sorts, one inside another, and conditionals with at most one `else` each (`Statements`). What stands
behind the first word of a statement is a sequence of tokens, and nothing is asked of it but that a
terminator is no token. Between tokens there are gaps wherever one likes, with anything in their
comments, terminators and the words of blocks included. The text of a program is of this kind
(`Written.exists_statements`).

From the `;` of its header on, the search comes to the statement that closes the very block, and of a
conditional it finds the `else` of its own; where the text ends behind the body instead, the block is
reported as unclosed (`Reader.block_of_body`).
-/

namespace NumScript.Script

/-! ## Statements as a tree

The tree is about blocks only. It leaves out what the statements mean, so that scripts with
malformed operands are covered, and it leaves open where the gaps are. -/

def Keyword.ofBlocks : List Keyword :=
  [ifBlock, elseBranch, fi, whileBlock, done, define, endDefine]

/-- Statements one after the other, those of a block inside of it. A statement that is no block has a
word and the tokens behind it, a block the tokens behind the word that opens it. -/
inductive Statements where
  | empty
  | plain (word : String) (operands : List (List Char)) (next : Statements)
  | block (b : Block) (header : List (List Char)) (body next : Statements)
  /-- A conditional with an `else`. -/
  | branches (header : List (List Char)) (first second next : Statements)

def IsToken (token : List Char) : Prop :=
  ∀ c ∈ token, c ≠ ';' ∧ c ≠ '#'

instance (token : List Char) : Decidable (IsToken token) :=
  decidable_of_iff (token.all fun c => c != ';' && c != '#') (by simp [IsToken])

inductive TokensText : List (List Char) → List Char → Prop where
  | nil {gap : List Char} : IsGap gap → TokensText [] gap
  | cons {gap token text : List Char} {tokens : List (List Char)} : IsGap gap → IsToken token →
      TokensText tokens text → TokensText (token :: tokens) (gap ++ (token ++ text))

/-- The texts of statements. A word is followed by something else than a word character. -/
inductive StatementsText : Statements → List Char → Prop where
  | empty : StatementsText .empty []
  | plain {word : String} {tokens : List (List Char)} {next : Statements}
      {before operands text : List Char} :
      IsGap before → IsWord word.toList → (∀ k ∈ Keyword.ofBlocks, word ≠ k.word) →
      TokensText tokens operands → EndsWord operands → StatementsText next text →
      StatementsText (.plain word tokens next)
        (before ++ (word.toList ++ (operands ++ [';'])) ++ text)
  | block {b : Block} {tokens : List (List Char)} {body next : Statements}
      {operands line bodyText gap close text : List Char} :
      TokensText tokens operands → Line b.opener operands line → StatementsText body bodyText →
      IsGap gap → Line b.closer gap close → StatementsText next text →
      StatementsText (.block b tokens body next) (line ++ (bodyText ++ (close ++ text)))
  | branches {tokens : List (List Char)} {first second next : Statements}
      {operands line firstText gap middle secondText gap' close text : List Char} :
      TokensText tokens operands → Line .ifBlock operands line → StatementsText first firstText →
      IsGap gap → Line .elseBranch gap middle → StatementsText second secondText →
      IsGap gap' → Line .fi gap' close → StatementsText next text →
      StatementsText (.branches tokens first second next)
        (line ++ (firstText ++ (middle ++ (secondText ++ (close ++ text)))))

/-- The text between the header of a block and the statement that closes it. If the block is divided,
its second part from the `;` of its `else` on. -/
inductive BodyText : Block → List Char → Option (List Char) → Prop where
  | undivided {b : Block} {s : Statements} {text : List Char} : StatementsText s text →
      BodyText b text none
  | divided {first second : Statements} {firstText gap middle secondText : List Char} :
      StatementsText first firstText → IsGap gap → Line .elseBranch gap middle →
      StatementsText second secondText →
      BodyText .conditional (firstText ++ (middle ++ secondText)) (some (';' :: secondText))

/-! ## Tokens

Whatever is in the comments between two tokens, the first terminator that counts is the one behind
the last token. -/

theorem IsToken.laterStatements_append {token : List Char} (h : IsToken token) (text : List Char) :
    laterStatements (token ++ text) = laterStatements text := by
  induction token with
  | nil => rfl
  | cons c token ih =>
      obtain ⟨hsemi, hhash⟩ := h c (.head _)
      rw [List.cons_append, laterStatements_cons_of_ne _ hsemi hhash, ih fun d hd => h d (.tail _ hd)]

/-- The first terminator behind tokens and gaps is the one after them. -/
theorem TokensText.laterStatements {tokens : List (List Char)} {operands : List Char}
    (h : TokensText tokens operands) (text : List Char) :
    laterStatements (operands ++ ';' :: text) = text :: laterStatements text := by
  induction h with
  | nil hgap => rw [hgap.laterStatements_append, laterStatements_terminator]
  | cons hgap htoken _ ih =>
      rw [List.append_assoc, List.append_assoc, hgap.laterStatements_append,
        htoken.laterStatements_append, ih]

/-! ## The search goes through statements

The induction is on the tree. A block of the sort that is looked for adds one to the depth and takes
it away again, and what is inside of it is passed at the greater depth. -/

theorem Leading.ofWord_ne_keyword {word : String} {k : Keyword} (h : word ≠ k.word) :
    Leading.ofWord word.toList ≠ .keyword k := by
  intro hword
  unfold Leading.ofWord at hword
  split at hword
  · cases hword
  · split at hword
    · rename_i k' hk'
      obtain rfl := Leading.keyword.inj hword
      rw [String.ofList_toList] at hk'
      exact h (Keyword.ofWord?_eq_some_iff.1 hk')
    · cases hword

theorem isLine_of_word {word : String} {before operands : List Char} {tokens : List (List Char)}
    (hbefore : IsGap before) (hword : IsWord word.toList) (htokens : TokensText tokens operands)
    (hends : EndsWord operands) :
    IsLine (.ofWord word.toList) (before ++ (word.toList ++ (operands ++ [';']))) := by
  intro text
  have hassoc : before ++ (word.toList ++ (operands ++ [';'])) ++ text =
      before ++ (word.toList ++ (operands ++ ';' :: text)) := by simp
  have hread := readWord_append_of_isWord hbefore hword (hends.append text)
  rw [hassoc, readLeading_eq, hread]
  refine ⟨rfl, ?_⟩
  rw [← laterStatements_readWord, hread, laterStatements_skipGap, htokens.laterStatements]

/-- The search for the end of a block goes through statements without any effect: their blocks of
its own sort are counted when they are opened and again when they are closed, and no other word
counts. -/
theorem StatementsText.passed {s : Statements} {text : List Char} (h : StatementsText s text) :
    Passed text := by
  induction h with
  | empty => exact passed_nil
  | @plain word tokens next before operands text hbefore hword hplain htokens hends _ ih =>
      have hne (k : Keyword) (hk : k ∈ Keyword.ofBlocks) :
          Leading.ofWord word.toList ≠ .keyword k :=
        Leading.ofWord_ne_keyword (hplain k hk)
      have hpassed : Passed _ := (isLine_of_word hbefore hword htokens hends).passed
        (fun b => ⟨hne _ (by cases b <;> decide), hne _ (by cases b <;> decide)⟩)
        (hne _ (by decide))
      exact hpassed.append ih
  | @block b tokens body next operands line bodyText gap close text htokens hline _ hgap hclose _
      ihb ih =>
      have hblock := passed_block (hline.isLine_of_later htokens.laterStatements) (ihb.inside _)
        (hclose.isLine_of_gap hgap)
      have happend : Passed (_ ++ text) := hblock.append ih
      simpa only [List.append_assoc] using happend
  | @branches tokens first second next operands line firstText gap middle secondText gap' close text
      htokens hline _ hgap hmiddle _ hgap' hclose _ ihf ihs ih =>
      have hblock := passed_branches (hline.isLine_of_later htokens.laterStatements) ihf
        (hmiddle.isLine_of_gap hgap) ihs (hclose.isLine_of_gap hgap')
      have happend : Passed (_ ++ text) := hblock.append ih
      simpa only [List.append_assoc] using happend

theorem BodyText.isBody {b : Block} {body : List Char} {alternate : Option (List Char)}
    (h : BodyText b body alternate) : IsBody b body alternate := by
  cases h with
  | undivided hs => exact hs.passed.isBody b
  | divided hfirst hgap hmiddle hsecond =>
      exact isBody_of_branches hfirst.passed hgap hmiddle hsecond.passed

/-- From the `;` of its header on, a block ends with the statement that closes it. The text goes on
after the closing word and the gap behind it, the `else` that is found is that of the block itself,
and the body ends where the closing statement starts, whatever stands after the block. Where the text
ends behind the body, the block is unclosed. -/
theorem Reader.block_of_body {b : Block} {body : List Char} {alternate : Option (List Char)}
    (h : BodyText b body alternate) (retained : Expr.Retained) :
    (∀ gap close text, IsGap gap → Line b.closer gap close →
      Reader.block b ⟨';' :: (body ++ (close ++ text)), retained⟩ =
        .ok
          { close := ';' :: text, alternate := alternate.map (· ++ (close ++ text)),
            closing := close ++ text }
          ⟨';' :: text, retained⟩) ∧
      ∀ trail, IsTrail trail →
        Reader.block b ⟨';' :: (body ++ trail), retained⟩ = .error b.unclosed ⟨[], retained⟩ := by
  refine ⟨fun gap close text hgap hclose => ?_, fun trail htrail => ?_⟩
  · rw [Reader.block_eq]
    dsimp only
    rw [h.isBody.scanBlock_of_close hgap hclose text]
  · rw [Reader.block_eq]
    dsimp only
    rw [h.isBody.scanBlock_of_trail htrail]

/-- A conditional with a loop in its first part, in which there is another conditional, and with the
words of blocks in comments. -/
theorem Reader.block_of_body_nested :
    let first := " while x; # done; fi;\n if y, z; else; fi; done;".toList
    let middle := "else# else;\n;".toList
    let second := " pop a;".toList
    let close := "\nfi# end\n ;".toList
    let text := "fi;".toList
    let body := first ++ (middle ++ second)
    BodyText .conditional body (some (';' :: second)) ∧
      Reader.block .conditional ⟨';' :: (body ++ (close ++ text)), none⟩ =
        .ok
          { close := ';' :: text, alternate := some (';' :: second ++ (close ++ text)),
            closing := close ++ text }
          ⟨';' :: text, none⟩ ∧
      Reader.block .conditional ⟨';' :: (body ++ " # fi;".toList), none⟩ =
        .error .expectedFi ⟨[], none⟩ := by
  intro first middle second close text body
  have hspace : IsGap " ".toList := .blank rfl .nil
  have hgap : IsGap " # done; fi;\n ".toList :=
    .blank rfl (@IsGap.comment " done; fi;".toList _ (by decide) hspace)
  have hx : TokensText ["x".toList] " x".toList := .cons hspace (by decide) (.nil .nil)
  have hyz : TokensText ["y".toList, ",".toList, "z".toList] " y, z".toList :=
    .cons hspace (by decide)
      (.cons .nil (by decide) (.cons hspace (by decide) (.nil .nil)))
  have ha : TokensText ["a".toList] " a".toList := .cons hspace (by decide) (.nil .nil)
  have hinner : StatementsText (.branches _ .empty .empty .empty) _ :=
    .branches hyz (.intro hgap (by decide)) .empty .nil (.intro hspace (by decide)) .empty .nil
      (.intro hspace (by decide)) .empty
  have hfirst : StatementsText (.block .loop _ _ .empty) first :=
    .block hx (.intro hspace (by decide)) hinner .nil (.intro hspace (by decide)) .empty
  have hsecond : StatementsText (.plain "pop" _ .empty) second :=
    .plain hspace (Keyword.isWord .pop) (by decide) ha (by decide) .empty
  have hmiddle : Line .elseBranch "# else;\n".toList middle := .intro .nil (by decide)
  have hclose : Line .fi "# end\n ".toList close :=
    @Line.intro .fi _ "\n".toList (.blank rfl .nil) (by decide)
  have hbody : BodyText .conditional body (some (';' :: second)) :=
    .divided hfirst (@IsGap.comment " else;".toList _ (by decide) .nil) hmiddle hsecond
  obtain ⟨hclosed, hunclosed⟩ := Reader.block_of_body hbody none
  exact ⟨hbody,
    hclosed _ close text (@IsGap.comment " end".toList _ (by decide) hspace) hclose,
    hunclosed _ (@IsTrail.comment " ".toList " fi;".toList hspace (by decide))⟩

/-! ## Programs

The texts of programs are a special case: their operands fall into tokens, and their lines form a
tree. -/

theorem IsGap.append {gap gap' : List Char} (h : IsGap gap) (h' : IsGap gap') :
    IsGap (gap ++ gap') := by
  induction h with
  | nil => exact h'
  | blank hc _ ih => exact .blank hc ih
  | comment hwords _ ih =>
      have happend := IsGap.comment hwords ih
      simpa only [List.cons_append, List.append_assoc] using happend

theorem TokensText.gap_append {gap text : List Char} {tokens : List (List Char)} (hgap : IsGap gap)
    (h : TokensText tokens text) : TokensText tokens (gap ++ text) := by
  cases h with
  | nil hgap' => exact .nil (hgap.append hgap')
  | cons hgap' htoken h =>
      rw [← List.append_assoc]
      exact .cons (hgap.append hgap') htoken h

theorem TokensText.append {text text' : List Char} {tokens tokens' : List (List Char)}
    (h : TokensText tokens text) (h' : TokensText tokens' text') :
    TokensText (tokens ++ tokens') (text ++ text') := by
  induction h with
  | nil hgap => exact h'.gap_append hgap
  | cons hgap htoken _ ih =>
      rw [List.append_assoc, List.append_assoc]
      exact .cons hgap htoken ih

theorem TokensText.separator {text text' : List Char} {tokens tokens' : List (List Char)}
    (h : TokensText tokens text) (h' : TokensText tokens' text') :
    TokensText (tokens ++ [','] :: tokens') (text ++ ',' :: text') :=
  h.append (.cons .nil (by decide) h')

theorem IsWord.isToken {word : List Char} (h : IsWord word) : IsToken word := by
  intro c hc
  have hchar := h.2 c hc
  constructor <;>
  · rintro rfl
    exact absurd hchar (by decide)

/-- A name between gaps. -/
theorem tokensText_of_name {name : String} {before after : List Char} (hbefore : IsGap before)
    (hname : IsIdentifier name) (hafter : IsGap after) :
    TokensText [name.toList] (before ++ (name.toList ++ after)) :=
  .cons hbefore hname.isWord.isToken (.nil hafter)

theorem ExpressionText.tokensText {e text : List Char} (h : ExpressionText e text) :
    TokensText [e] text := by
  cases h with
  | intro hbefore he hafter =>
      exact .cons hbefore (fun c hc => ⟨(he.2 c hc).1, (he.2 c hc).2.2⟩) (.nil hafter)

theorem ExpressionsText.exists_tokens {es : List (List Char)} {text : List Char}
    (h : ExpressionsText es text) : ∃ tokens, TokensText tokens text := by
  induction h with
  | one h => exact ⟨_, h.tokensText⟩
  | more h _ ih =>
      obtain ⟨_, ih⟩ := ih
      exact ⟨_, h.tokensText.separator ih⟩

theorem NamesText.exists_tokens {first : String} {more : List String} {text : List Char}
    (h : NamesText first more text) : ∃ tokens, TokensText tokens text := by
  induction h with
  | one hbefore hname hafter => exact ⟨_, tokensText_of_name hbefore hname hafter⟩
  | more hbefore hname hafter _ ih =>
      obtain ⟨_, ih⟩ := ih
      have htokens := (tokensText_of_name hbefore hname hafter).separator ih
      rw [List.append_assoc, List.append_assoc] at htokens
      exact ⟨_, htokens⟩

theorem CallText.exists_tokens {name : String} {args : List (List Char)} {text : List Char}
    (h : CallText name args text) : ∃ tokens, TokensText tokens text := by
  cases h with
  | plain hbefore hname hafter => exact ⟨_, tokensText_of_name hbefore hname hafter⟩
  | args hbefore hname hargs _ =>
      obtain ⟨_, htokens⟩ := hargs.exists_tokens
      exact ⟨_, .cons hbefore hname.isWord.isToken htokens⟩

theorem OperandsText.exists_tokens {statement : Simple} {text : List Char}
    (h : OperandsText statement text) : ∃ tokens, TokensText tokens text := by
  cases h with
  | set hbefore hname he _ => exact ⟨_, .cons hbefore hname.isWord.isToken he.tokensText⟩
  | call h => exact h.exists_tokens
  | goto h => exact h.exists_tokens
  | declare h => exact h.exists_tokens
  | result h => exact ⟨_, h.tokensText⟩
  | exit hgap => exact ⟨_, .nil hgap⟩

theorem Keyword.word_ne {k k' : Keyword} (h : k ≠ k') : k.word ≠ k'.word := by
  intro hword
  have hk := Keyword.ofWord?_word k
  rw [hword, Keyword.ofWord?_word] at hk
  exact h (Option.some.inj hk).symm

theorem Simple.keyword_not_mem (statement : Simple) : statement.keyword ∉ Keyword.ofBlocks := by
  cases statement with
  | declare sort _ _ => cases sort <;> simp [keyword, Declaration.keyword, Keyword.ofBlocks]
  | _ => simp [keyword, Keyword.ofBlocks]

/-- The lines of a program are the text of statements. -/
theorem Written.exists_statements {p : Program} {text : List Char} (h : Written p text) :
    ∃ s, StatementsText s text := by
  induction h with
  | empty => exact ⟨_, .empty⟩
  | @simple statement next operands line text hoperands hline _ ih =>
      obtain ⟨tokens, htokens⟩ := hoperands.exists_tokens
      obtain ⟨s, hs⟩ := ih
      have hne : ∀ k ∈ Keyword.ofBlocks, statement.keyword.word ≠ k.word := fun k hk =>
        Keyword.word_ne fun hword => statement.keyword_not_mem (hword ▸ hk)
      cases hline with
      | intro hbefore hends => exact ⟨_, .plain hbefore (Keyword.isWord _) hne htokens hends hs⟩
  | ifThen hguard hline _ hgap hclose _ ihy ih =>
      obtain ⟨_, hy⟩ := ihy
      obtain ⟨_, hs⟩ := ih
      exact ⟨_, @StatementsText.block .conditional _ _ _ _ _ _ _ _ _ hguard.tokensText hline hy hgap
        hclose hs⟩
  | ifElse hguard hline _ hgap hmiddle _ hgap' hclose _ ihy ihn ih =>
      obtain ⟨_, hy⟩ := ihy
      obtain ⟨_, hn⟩ := ihn
      obtain ⟨_, hs⟩ := ih
      exact ⟨_, .branches hguard.tokensText hline hy hgap hmiddle hn hgap' hclose hs⟩
  | loop hguard hline _ hgap hclose _ ihb ih =>
      obtain ⟨_, hb⟩ := ihb
      obtain ⟨_, hs⟩ := ih
      exact ⟨_, @StatementsText.block .loop _ _ _ _ _ _ _ _ _ hguard.tokensText hline hb hgap hclose
        hs⟩
  | define hbefore hname hafter hline _ hgap hclose _ ihb ih =>
      obtain ⟨_, hb⟩ := ihb
      obtain ⟨_, hs⟩ := ih
      exact ⟨_, @StatementsText.block .definition _ _ _ _ _ _ _ _ _
        (tokensText_of_name hbefore hname hafter) hline hb hgap hclose hs⟩

/-- The search goes through the lines of a program without any effect. -/
theorem Written.passed {p : Program} {text : List Char} (h : Written p text) : Passed text := by
  obtain ⟨_, hs⟩ := h.exists_statements
  exact hs.passed

end NumScript.Script
