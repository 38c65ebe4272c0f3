import NumScript.Text.Bytes

set_option autoImplicit false

/-! # Texts as bytes

A text is a list of characters here, and its positions are counted in the bytes of its UTF-8 form
(`utf8`). This file says what can be told from the bytes alone: where a character starts, and where a
line ends. A character starts at its first byte and at no other (`exists_utf8EncodeChar`), and only a
newline has the byte of a newline (`newline_not_mem`). So the characters that start before a byte,
and the newlines among them, are found by counting bytes (`countP_isFirst_take`,
`count_newline_take`).
-/

namespace NumScript.Text

def utf8 (text : List Char) : List UInt8 :=
  text.flatMap String.utf8EncodeChar

def newline : UInt8 := 10

/-- A character starts with this byte. -/
def isFirst (b : UInt8) : Bool :=
  decide b.IsUTF8FirstByte

/-- A character starts at this offset, or the text ends there. -/
def IsBoundary (bytes : List UInt8) (offset : Nat) : Prop :=
  offset = bytes.length ∨ bytes[offset]?.any isFirst = true

instance (bytes : List UInt8) (offset : Nat) : Decidable (IsBoundary bytes offset) :=
  inferInstanceAs (Decidable (_ ∨ _))

@[simp] theorem utf8_nil : utf8 [] = [] := rfl

@[simp] theorem utf8_cons (c : Char) (rest : List Char) :
    utf8 (c :: rest) = String.utf8EncodeChar c ++ utf8 rest := rfl

@[simp] theorem utf8_append (left right : List Char) :
    utf8 (left ++ right) = utf8 left ++ utf8 right :=
  List.flatMap_append

@[simp] theorem length_utf8 (text : List Char) : (utf8 text).length = byteSize text := by
  induction text with
  | nil => rfl
  | cons c rest ih => simp [ih]

/-! ## One character

What distinguishes the first byte of a character from the others, and a newline from everything
else. Both are facts about the encoder of a single character, and nothing below looks into the
encoder again. -/

theorem utf8EncodeChar_newline : String.utf8EncodeChar '\n' = [newline] := rfl

/-- A byte of a character is its number if this is small, and otherwise it is not small. -/
theorem toNat_of_mem_utf8EncodeChar {c : Char} {b : UInt8} (hb : b ∈ String.utf8EncodeChar c) :
    b.toNat = c.val.toNat ∨ 128 ≤ b.toNat := by
  have hbyte {n : Nat} (h : b = UInt8.ofNat n) : b.toNat = n % 2 ^ 8 := by
    rw [h, UInt8.toNat_ofNat']
  rw [String.utf8EncodeChar] at hb
  generalize c.val.toNat = v at hb ⊢
  -- the number of bytes
  split at hb
  · have hsmall := hbyte (List.mem_singleton.1 hb)
    omega
  · right
    split at hb
    · simp only [List.mem_cons, List.not_mem_nil, or_false] at hb
      rcases hb with h | h <;> have hmod := hbyte h <;> omega
    · split at hb
      · simp only [List.mem_cons, List.not_mem_nil, or_false] at hb
        rcases hb with h | h | h <;> have hmod := hbyte h <;> omega
      · simp only [List.mem_cons, List.not_mem_nil, or_false] at hb
        rcases hb with h | h | h | h <;> have hmod := hbyte h <;> omega

/-- The other characters do without the byte of a newline. -/
theorem newline_not_mem {c : Char} (hc : c ≠ '\n') : newline ∉ String.utf8EncodeChar c := by
  intro hmem
  have hval : c.val.toNat ≠ 10 := fun h => hc (Char.toNat_inj.1 h)
  have htoNat : newline.toNat = 10 := rfl
  have h := toNat_of_mem_utf8EncodeChar hmem
  omega

/-- A character starts with its first byte and with no other. -/
theorem exists_utf8EncodeChar (c : Char) :
    ∃ b rest, String.utf8EncodeChar c = b :: rest ∧ isFirst b = true ∧
      ∀ x ∈ rest, isFirst x = false := by
  have hfirst {i : Nat} (hi : i < (String.utf8EncodeChar c).length) :
      isFirst (String.utf8EncodeChar c)[i] = true ↔ i = 0 := by
    rw [isFirst, decide_eq_true_iff]
    exact UInt8.isUTF8FirstByte_getElem_utf8EncodeChar
  cases hbytes : String.utf8EncodeChar c with
  | nil => exact absurd hbytes String.utf8EncodeChar_ne_nil
  | cons b rest =>
      simp only [hbytes] at hfirst
      refine ⟨b, rest, rfl, ?_, fun x hx => ?_⟩
      · exact (hfirst (Nat.zero_lt_succ _)).2 rfl
      · obtain ⟨i, hi, rfl⟩ := List.getElem_of_mem hx
        rw [← Bool.not_eq_true]
        intro h
        exact Nat.succ_ne_zero i ((hfirst (Nat.succ_lt_succ hi)).1 h)

/-! ## Counting

Lines and columns are counts of characters of some kind that start before an offset. One lemma
covers both: a class of bytes of which each character has at most one, and has it first, is counted
by bytes as by characters. An offset within a character counts the character as started, for the
scan of the characters as well as for the count of the bytes. -/

/-- A count of bytes that finds at most one in a character, among the first ones of it, is a count of
the characters that start before an offset. -/
theorem countP_take_utf8 {p : UInt8 → Bool} {q : Char → Bool}
    (h : ∀ c k, ((String.utf8EncodeChar c).take (k + 1)).countP p = if q c then 1 else 0)
    (offset : Nat) (text : List Char) :
    ((utf8 text).take offset).countP p = (startingBefore offset text).countP q := by
  induction text generalizing offset with
  | nil => simp [startingBefore]
  | cons c rest ih =>
      cases offset with
      | zero => simp [startingBefore]
      | succ k =>
          rw [utf8_cons, List.take_append, List.countP_append, h, ih, startingBefore,
            if_neg (Nat.succ_ne_zero k), List.countP_cons, String.length_utf8EncodeChar,
            Nat.add_comm]

/-- So many newlines start before an offset. -/
theorem count_newline_take (offset : Nat) (text : List Char) :
    ((utf8 text).take offset).count newline = (startingBefore offset text).count '\n' := by
  rw [List.count_eq_countP, List.count_eq_countP]
  refine countP_take_utf8 (fun c k => ?_) offset text
  by_cases hc : c = '\n'
  · subst hc
    rw [utf8EncodeChar_newline, List.take_succ_cons, List.take_nil]
    rfl
  · rw [if_neg (by simpa using hc), List.countP_eq_zero]
    intro b hb
    rw [beq_iff_eq]
    rintro rfl
    exact newline_not_mem hc (List.mem_of_mem_take hb)

/-- So many characters start before an offset. -/
theorem countP_isFirst_take (offset : Nat) (text : List Char) :
    ((utf8 text).take offset).countP isFirst = (startingBefore offset text).length := by
  rw [← List.countP_true]
  refine countP_take_utf8 (fun c k => ?_) offset text
  obtain ⟨b, rest, hbytes, hb, hrest⟩ := exists_utf8EncodeChar c
  have hnone : (rest.take k).countP isFirst = 0 :=
    List.countP_eq_zero.2 fun x hx => by simp [hrest x (List.mem_of_mem_take hx)]
  rw [hbytes, List.take_succ_cons, List.countP_cons, hnone, hb, Nat.zero_add]

/-! ## Cutting a text

A place in a script is known by the text ahead of it, an offset by the bytes before it. Here the one
is turned into the other: what is ahead, when it is an end of the text, starts at a boundary, and at
a boundary the text falls into a front and what is ahead. -/

theorem startingBefore_zero (text : List Char) : startingBefore 0 text = [] := by
  cases text <;> rfl

/-- A text whose bytes all come before an offset starts before it. -/
theorem startingBefore_append {front : List Char} {offset : Nat} (h : byteSize front ≤ offset)
    (tail : List Char) :
    startingBefore offset (front ++ tail) =
      front ++ startingBefore (offset - byteSize front) tail := by
  induction front generalizing offset with
  | nil => rfl
  | cons c front ih =>
      have hpos := c.utf8Size_pos
      rw [byteSize_cons] at h
      rw [List.cons_append, startingBefore, if_neg (by omega), ih (by omega), byteSize_cons,
        Nat.sub_sub, List.cons_append]

/-- A text starts before its end. -/
theorem startingBefore_byteSize (front tail : List Char) :
    startingBefore (byteSize front) (front ++ tail) = front := by
  rw [startingBefore_append (Nat.le_refl _), Nat.sub_self, startingBefore_zero, List.append_nil]

/-- What starts before an offset is the front of the text. Its last character starts before the
offset, and what follows does not. -/
theorem exists_startingBefore (offset : Nat) (text : List Char) :
    ∃ ahead, text = startingBefore offset text ++ ahead ∧
      (ahead = [] ∨ offset ≤ byteSize (startingBefore offset text)) := by
  induction text generalizing offset with
  | nil => exact ⟨[], rfl, .inl rfl⟩
  | cons c rest ih =>
      rw [startingBefore]
      split
      · rename_i hzero
        exact ⟨c :: rest, rfl, .inr (by omega)⟩
      · obtain ⟨ahead, hrest, hend⟩ := ih (offset - c.utf8Size)
        refine ⟨ahead, by rw [List.cons_append, ← hrest], hend.imp_right fun h => ?_⟩
        rw [byteSize_cons]
        omega

theorem byteSize_lt_of_startingBefore {offset : Nat} {text front more : List Char} {c : Char}
    (h : startingBefore offset text = front ++ c :: more) : byteSize front < offset := by
  induction text generalizing offset front with
  | nil =>
      rw [startingBefore] at h
      exact absurd h.symm (by simp)
  | cons d rest ih =>
      rw [startingBefore] at h
      split at h
      · exact absurd h.symm (by simp)
      · rename_i hne
        cases front with
        | nil => exact Nat.pos_of_ne_zero hne
        | cons e front =>
            rw [List.cons_append] at h
            injection h with hd hrest
            have hlt := ih hrest
            subst hd
            rw [byteSize_cons]
            omega

/-- All newlines of a text are found by counting bytes. -/
theorem count_newline_utf8 (text : List Char) : (utf8 text).count newline = text.count '\n' := by
  have hall : startingBefore (byteSize text) text = text := by
    have hbefore := startingBefore_byteSize text []
    rwa [List.append_nil] at hbefore
  calc (utf8 text).count newline
      = ((utf8 text).take (byteSize text)).count newline := by rw [← length_utf8, List.take_length]
    _ = (startingBefore (byteSize text) text).count '\n' := count_newline_take _ _
    _ = text.count '\n' := by rw [hall]

/-- What follows the bytes of a text that comes first. -/
theorem dropBytes_byteSize (front tail : List Char) :
    dropBytes (byteSize front) (front ++ tail) = tail := by
  induction front with
  | nil =>
      cases tail <;> rfl
  | cons c front ih =>
      have hpos := c.utf8Size_pos
      rw [List.cons_append, dropBytes, byteSize_cons, if_neg (by omega), if_pos (by omega),
        Nat.add_sub_cancel_left, ih]

/-- Between two parts of a text there is a boundary. -/
theorem isBoundary_byteSize (front tail : List Char) :
    IsBoundary (utf8 (front ++ tail)) (byteSize front) := by
  cases tail with
  | nil =>
      refine .inl ?_
      rw [List.append_nil, length_utf8]
  | cons c rest =>
      obtain ⟨b, more, hbytes, hb, -⟩ := exists_utf8EncodeChar c
      refine .inr ?_
      rw [utf8_append, utf8_cons, hbytes, ← length_utf8 front,
        List.getElem?_append_right (Nat.le_refl _), Nat.sub_self, List.cons_append,
        List.getElem?_cons_zero, Option.any_some, hb]

/-- So there is one where a part of the text is ahead that ends with it. -/
theorem isBoundary_of_suffix {text s : List Char} (h : s <:+ text) :
    IsBoundary (utf8 text) (byteSize text - byteSize s) := by
  obtain ⟨front, rfl⟩ := h
  rw [byteSize_append, Nat.add_sub_cancel]
  exact isBoundary_byteSize front s

theorem byteSize_le_of_suffix {text s : List Char} (h : s <:+ text) :
    byteSize s ≤ byteSize text := by
  obtain ⟨front, rfl⟩ := h
  rw [byteSize_append]
  exact Nat.le_add_left _ _

/-- At a boundary the text is cut between two characters. -/
theorem IsBoundary.exists_append {text : List Char} {offset : Nat}
    (h : IsBoundary (utf8 text) offset) :
    ∃ front tail, text = front ++ tail ∧ byteSize front = offset := by
  rcases h with rfl | h
  · exact ⟨text, [], (List.append_nil text).symm, (length_utf8 text).symm⟩
  · induction text generalizing offset with
    | nil => cases h
    | cons c rest ih =>
        obtain ⟨b, more, hbytes, -, hmore⟩ := exists_utf8EncodeChar c
        have hsize : c.utf8Size = more.length + 1 := by
          rw [← String.length_utf8EncodeChar, hbytes, List.length_cons]
        rw [utf8_cons] at h
        by_cases hinside : offset < c.utf8Size
        · -- within a character only its first byte can be meant
          cases offset with
          | zero => exact ⟨[], c :: rest, rfl, rfl⟩
          | succ k =>
              rw [List.getElem?_append_left (by rwa [String.length_utf8EncodeChar]), hbytes,
                List.getElem?_cons_succ, List.getElem?_eq_getElem (by omega), Option.any_some,
                hmore _ (List.getElem_mem _)] at h
              cases h
        · rw [List.getElem?_append_right (by rw [String.length_utf8EncodeChar]; omega),
            String.length_utf8EncodeChar] at h
          obtain ⟨front, tail, rfl, hfront⟩ := ih h
          refine ⟨c :: front, tail, rfl, ?_⟩
          rw [byteSize_cons]
          omega

end NumScript.Text
