set_option autoImplicit false

/-! # Texts measured in bytes

Positions in a text are counted in the bytes of its UTF-8 form, while the text itself is a list of
characters. These functions cut and measure such a list by bytes. -/

namespace NumScript.Text

/-- How many bytes a text takes. -/
def byteSize : List Char → Nat
  | [] => 0
  | c :: rest => c.utf8Size + byteSize rest

/-- The characters that start before the byte `offset`. One that reaches across it is included. -/
def startingBefore (offset : Nat) : List Char → List Char
  | [] => []
  | c :: rest => if offset = 0 then [] else c :: startingBefore (offset - c.utf8Size) rest

/-- What follows the first `offset` bytes, or nothing when no character ends there. -/
def dropBytes (offset : Nat) : List Char → List Char
  | [] => []
  | c :: rest =>
    if offset = 0 then c :: rest
    else if c.utf8Size ≤ offset then dropBytes (offset - c.utf8Size) rest
    else []

/-! ## The size of a text is additive

Every statement about positions comes down to `byteSize_append`: a place in a text is known by what
is ahead of it, and its position is the size of the text less the size of what is ahead. -/

@[simp] theorem byteSize_nil : byteSize [] = 0 := rfl

@[simp] theorem byteSize_cons (c : Char) (rest : List Char) :
    byteSize (c :: rest) = c.utf8Size + byteSize rest := rfl

@[simp] theorem byteSize_append (left right : List Char) :
    byteSize (left ++ right) = byteSize left + byteSize right := by
  induction left with
  | nil => simp
  | cons c rest ih => simp [ih, Nat.add_assoc]

/-- No character takes less than a byte. -/
theorem length_le_byteSize (text : List Char) : text.length ≤ byteSize text := by
  induction text with
  | nil => exact Nat.le_refl _
  | cons c rest ih =>
    have := c.utf8Size_pos
    simp only [byteSize_cons, List.length_cons]
    omega

end NumScript.Text
