import NumScript.Script.Error
import NumScript.Script.Reading

set_option autoImplicit false

/-! # Blocks

Blocks are found in the text: the statements after the header are looked at one by one, and openers
of the same sort are counted against closers. The other sorts of blocks are not looked at, so a
closer is matched whatever stands around it. -/

namespace NumScript.Script

inductive Block where
  | conditional
  | loop
  | definition
  deriving DecidableEq

namespace Block

def opener : Block → Keyword
  | conditional => .ifBlock
  | loop => .whileBlock
  | definition => .define

def closer : Block → Keyword
  | conditional => .fi
  | loop => .done
  | definition => .endDefine

def unclosed : Block → Error
  | conditional => .expectedFi
  | loop => .expectedDone
  | definition => .expectedEnd

end Block

/-! ## The search for the closer

The search starts with the statements behind the header and looks at their first words only. It
shares the reader of first words with the run, so the two agree on where a statement starts and what
it starts with. It looks at nothing between a first word and the next terminator, whatever is wrong
there. -/

/-- The places in a block that matter, each as the text ahead of it. -/
structure Landmarks where
  /-- After the closing keyword, where its `;` is due. -/
  close : List Char
  /-- After the first `else` of the block itself; conditionals only. -/
  alternate : Option (List Char)
  /-- The start of the closing statement. -/
  closing : List Char

/-- Looks for the closer among statements, inside `depth` more blocks of the same sort. Without a
closer the result is where the last look went, which is `here` if there was none. -/
def scanStatements (block : Block) (depth : Nat) (alternate : Option (List Char))
    (here : List Char) : List (List Char) → Except (List Char) Landmarks
  | [] => .error here
  | statement :: more =>
    match readLeading statement with
    | (.keyword k, ahead) =>
      if k = block.opener then scanStatements block (depth + 1) alternate ahead more
      else if k = block.closer then
        match depth with
        | 0 => .ok { close := ahead, alternate, closing := statement }
        | outer + 1 => scanStatements block outer alternate ahead more
      else if block = .conditional ∧ k = .elseBranch ∧ depth = 0 ∧ alternate = none then
        scanStatements block depth (some ahead) ahead more
      else scanStatements block depth alternate ahead more
    | (_, ahead) => scanStatements block depth alternate ahead more

/-- The landmarks of a block, from the end of its header on. -/
def scanBlock (block : Block) (header : List Char) : Except (List Char) Landmarks :=
  scanStatements block 0 none header (laterStatements header)

end NumScript.Script
