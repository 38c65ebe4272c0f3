import NumScript.Text.Bytes

set_option autoImplicit false

/-! # Lines and columns

A byte offset into a text as a line and a column, both counted from one, the column in characters.
`Location.ofOffset` reads them off the characters that start before the offset. `LineTable` keeps
the offsets at which the lines start and finds the line by halving, for many look-ups in one text.

Line and column are 32-bit words. A count too large for a word is shown as the largest word; only
the count that is itself the largest word has no successor and wraps to zero. -/

namespace NumScript

/-- A place in a text, both parts counted from one. -/
structure Location where
  line : UInt32
  column : UInt32
  deriving DecidableEq

/-- The ordinal number of what has `n` before it, as a word. -/
def ordinal (n : Nat) : UInt32 :=
  (if n < UInt32.size then UInt32.ofNat n else UInt32.ofNat (UInt32.size - 2)) + 1

/-- The line of a byte offset: one more than the newlines that start before it. -/
def lineOfOffset (source : List Char) (offset : Nat) : UInt32 :=
  ordinal ((Text.startingBefore offset source).count '\n')

/-- The characters after the last newline of a text, last one first. -/
def lastLine (source : List Char) : List Char :=
  source.reverse.takeWhile (· != '\n')

/-- The place of a byte offset. Past the end it is the place of the end. -/
def Location.ofOffset (source : List Char) (offset : Nat) : Location where
  line := lineOfOffset source offset
  column := ordinal (lastLine (Text.startingBefore offset source)).length

/-! ## The table of lines

The table answers the same questions as the scan. It is built once for a text and then each look-up
takes logarithmically many steps; that both agree at every offset is a theorem, not a part of the
definition. -/

/-- The byte offsets at which the lines of a text start, in increasing order. The empty table
belongs to no text. -/
structure LineTable where
  starts : Array Nat

namespace LineTable

def empty : LineTable :=
  ⟨#[]⟩

/-- The offsets after the newlines of a text that starts at `offset`. -/
def startsAfter (offset : Nat) : List Char → List Nat
  | [] => []
  | c :: rest =>
    if c = '\n' then (offset + 1) :: startsAfter (offset + 1) rest
    else startsAfter (offset + c.utf8Size) rest

/-- The table of a text, whose first line starts at zero. -/
def ofSource (source : List Char) : LineTable :=
  ⟨(0 :: startsAfter 0 source).toArray⟩

def size (table : LineTable) : Nat :=
  table.starts.size

/-- How many lines start at or before `offset`, if at least `low` and at most `high` do. -/
def startedWithin (table : LineTable) (offset low high : Nat) : Nat :=
  if low < high then
    let middle := low + (high - low) / 2
    if table.starts.getD middle 0 ≤ offset then table.startedWithin offset (middle + 1) high
    else table.startedWithin offset low middle
  else low
termination_by high - low

def line (table : LineTable) (offset : Nat) : UInt32 :=
  ordinal (table.startedWithin offset 0 table.size - 1)

def location (table : LineTable) (source : List Char) (offset : Nat) : Location :=
  let line := table.line offset
  let start := table.starts.getD (line - 1).toNat 0
  { line
    column := ordinal (Text.startingBefore (offset - start) (Text.dropBytes start source)).length }

/-- Where a line starts, if there is such a line. -/
def start? (table : LineTable) (line : UInt32) : Option Nat :=
  if line = 0 then none else table.starts[(line - 1).toNat]?

end LineTable

end NumScript
