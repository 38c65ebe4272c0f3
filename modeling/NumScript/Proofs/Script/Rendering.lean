import NumScript.Proofs.Script.Outline
import NumScript.Proofs.Script.Program

set_option autoImplicit false

/-! # The texts of a program

How a program is written: a line for each statement and for each word that ends a block, each with a
terminator, and gaps between the tokens wherever one likes. Gaps are needed only where a word would
go on otherwise. Inside of an expression nothing is added, but it may have blanks of its own.

`Written p text` says that the lines of `text` are those of `p`; `IsScript p text` allows for a gap
at the end, too, where the last comment need not end.
-/

namespace NumScript.Script

/-! ## Tokens

Gaps come in two kinds, since a comment at the end of a text need not end with a newline. An
expression may hold anything but the characters that end a parameter or start a comment. -/

/-- Blanks and comments, each comment with the end of its line. -/
inductive IsGap : List Char → Prop where
  | nil : IsGap []
  | blank {c : Char} {gap : List Char} : Text.isBlank c = true → IsGap gap → IsGap (c :: gap)
  | comment {words gap : List Char} : '\n' ∉ words → IsGap gap →
      IsGap ('#' :: (words ++ '\n' :: gap))

/-- A gap at the end of a text, which may end inside a comment. -/
inductive IsTrail : List Char → Prop where
  | gap {gap : List Char} : IsGap gap → IsTrail gap
  | comment {gap words : List Char} : IsGap gap → '\n' ∉ words →
      IsTrail (gap ++ '#' :: words)

def IsIdentifier (name : String) : Prop :=
  ∃ c rest, name.toList = c :: rest ∧ Expr.isWordStart c = true ∧
    ∀ d ∈ rest, Expr.isWordChar d = true

/-- A text that is not blank and has no character that means something to the script. -/
def IsExpression (text : List Char) : Prop :=
  (∃ c ∈ text, Text.isBlank c = false) ∧ ∀ c ∈ text, c ≠ ';' ∧ c ≠ ',' ∧ c ≠ '#'

instance (text : List Char) : Decidable (IsExpression text) :=
  decidable_of_iff
    ((text.any fun c => !Text.isBlank c) && text.all fun c => c != ';' && c != ',' && c != '#')
    (by simp [IsExpression, and_assoc])

def EndsWord (text : List Char) : Prop :=
  ∀ c ∈ text.head?, Expr.isWordChar c = false

instance (text : List Char) : Decidable (EndsWord text) :=
  decidable_of_iff (text.head?.all fun c => !Expr.isWordChar c)
    (by simp [EndsWord, Option.all_eq_true])

/-! ## Operands

The texts of operands are given together with the gaps around them. An expression stands between
gaps, and the blanks among these that are read with it mean nothing to it. -/

inductive ExpressionText (e : List Char) : List Char → Prop where
  | intro {before after : List Char} : IsGap before → IsExpression e → IsGap after →
      ExpressionText e (before ++ (e ++ after))

inductive ExpressionsText : List (List Char) → List Char → Prop where
  | one {e text : List Char} : ExpressionText e text → ExpressionsText [e] text
  | more {e text more' : List Char} {more : List (List Char)} : ExpressionText e text →
      ExpressionsText more more' → ExpressionsText (e :: more) (text ++ ',' :: more')

inductive NamesText : String → List String → List Char → Prop where
  | one {name : String} {before after : List Char} : IsGap before → IsIdentifier name →
      IsGap after → NamesText name [] (before ++ (name.toList ++ after))
  | more {name next : String} {more : List String} {before after text : List Char} :
      IsGap before → IsIdentifier name → IsGap after → NamesText next more text →
      NamesText name (next :: more) (before ++ (name.toList ++ (after ++ ',' :: text)))

/-- The name of what is called, and its arguments if there are any. -/
inductive CallText (name : String) : List (List Char) → List Char → Prop where
  | plain {before after : List Char} : IsGap before → IsIdentifier name → IsGap after →
      CallText name [] (before ++ (name.toList ++ after))
  | args {args : List (List Char)} {before text : List Char} : IsGap before → IsIdentifier name →
      ExpressionsText args text → EndsWord text →
      CallText name args (before ++ (name.toList ++ text))

inductive OperandsText : Simple → List Char → Prop where
  | set {name : String} {e before text : List Char} : IsGap before → IsIdentifier name →
      ExpressionText e text → EndsWord text →
      OperandsText (.set name e) (before ++ (name.toList ++ text))
  | call {name : String} {args : List (List Char)} {text : List Char} : CallText name args text →
      OperandsText (.call name args) text
  | goto {name : String} {args : List (List Char)} {text : List Char} : CallText name args text →
      OperandsText (.goto name args) text
  | declare {sort : Declaration} {first : String} {more : List String} {text : List Char} :
      NamesText first more text → OperandsText (.declare sort first more) text
  | result {e text : List Char} : ExpressionText e text → OperandsText (.result e) text
  | exit {gap : List Char} : IsGap gap → OperandsText .exit gap

/-! ## Lines

Each line may start with a gap, so comments may stand between any two statements. The lines of a
block are its header, the lines of its program and the line that closes it. -/

/-- A keyword with its operands and the terminator. -/
inductive Line (k : Keyword) (operands : List Char) : List Char → Prop where
  | intro {before : List Char} : IsGap before → EndsWord operands →
      Line k operands (before ++ (k.word.toList ++ (operands ++ [';'])))

def Simple.keyword : Simple → Keyword
  | .set _ _ => .set
  | .call _ _ => .call
  | .goto _ _ => .goto
  | .declare sort _ _ => sort.keyword
  | .result _ => .returnValue
  | .exit => .exit

/-- The lines of a program. -/
inductive Written : Program → List Char → Prop where
  | empty : Written .empty []
  | simple {statement : Simple} {next : Program} {operands line text : List Char} :
      OperandsText statement operands → Line statement.keyword operands line → Written next text →
      Written (.simple statement next) (line ++ text)
  | ifThen {guard operands line gap close yesText text : List Char} {yes next : Program} :
      ExpressionText guard operands → Line .ifBlock operands line → Written yes yesText →
      IsGap gap → Line .fi gap close → Written next text →
      Written (.ifThen guard yes next) (line ++ (yesText ++ (close ++ text)))
  | ifElse {guard operands line gap middle gap' close yesText noText text : List Char}
      {yes no next : Program} :
      ExpressionText guard operands → Line .ifBlock operands line → Written yes yesText →
      IsGap gap → Line .elseBranch gap middle → Written no noText →
      IsGap gap' → Line .fi gap' close → Written next text →
      Written (.ifElse guard yes no next)
        (line ++ (yesText ++ (middle ++ (noText ++ (close ++ text)))))
  | loop {guard operands line gap close bodyText text : List Char} {body next : Program} :
      ExpressionText guard operands → Line .whileBlock operands line → Written body bodyText →
      IsGap gap → Line .done gap close → Written next text →
      Written (.loop guard body next) (line ++ (bodyText ++ (close ++ text)))
  | define {name : String} {before after line gap close bodyText text : List Char}
      {body next : Program} :
      IsGap before → IsIdentifier name → IsGap after →
      Line .define (before ++ (name.toList ++ after)) line → Written body bodyText →
      IsGap gap → Line .endDefine gap close → Written next text →
      Written (.define name body next) (line ++ (bodyText ++ (close ++ text)))

/-- The text of a script is that of a program, with a gap at the end. -/
def IsScript (p : Program) (text : List Char) : Prop :=
  ∃ lines trail, text = lines ++ trail ∧ Written p lines ∧ IsTrail trail

end NumScript.Script
