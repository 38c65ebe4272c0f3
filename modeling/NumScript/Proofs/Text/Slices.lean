import NumScript.Proofs.Text.Encoding

set_option autoImplicit false

/-! # Reading a text by its bytes

A reader that looks at single bytes can tell classes of characters apart if all bytes of a character
are in a class of bytes exactly when the character is in the class of characters (`Agree`). The
classes that are made of characters of one byte, and their complements, are of this kind: every byte
of a longer character is large. A run of bytes of such a class then ends between two characters
(`takeWhile_utf8`). A part of a text can be cut out between two boundaries only (`slice?`).
-/

namespace NumScript.Text

/-! ## Classes of bytes and of characters

A class is built from single characters and intervals of one byte by `or` and `not`, and each way of
building keeps the agreement. So to compare the two readers of a text it is enough to write down the
classes of both in the same shape; the proof that they agree then has this shape as well. -/

/-- All bytes of a character are in the class of bytes, or none, as the class of characters says. -/
def Agree (p : UInt8 → Bool) (q : Char → Bool) : Prop :=
  ∀ c, ∀ b ∈ String.utf8EncodeChar c, p b = q c

/-- The byte of a character that has only one. -/
def byte (c : Char) : UInt8 :=
  UInt8.ofNat c.toNat

/-- A character of one byte is its number, and all bytes of a longer one are large. -/
theorem toNat_cases {c : Char} {b : UInt8} (hb : b ∈ String.utf8EncodeChar c) :
    b.toNat = c.toNat ∨ 128 ≤ b.toNat ∧ 128 ≤ c.toNat := by
  by_cases hc : c.toNat < 128
  · have hone : c.utf8Size = 1 := by
      rw [Char.utf8Size_eq_one_iff, UInt32.le_iff_toNat_le]
      exact Nat.le_of_lt_succ hc
    rw [String.utf8EncodeChar_eq_singleton hone, List.mem_singleton] at hb
    rw [hb, UInt32.toNat_toUInt8]
    exact .inl (Nat.mod_eq_of_lt (Nat.lt_trans hc (by decide)))
  · rcases toNat_of_mem_utf8EncodeChar hb with h | h
    · exact .inl h
    · exact .inr ⟨h, Nat.le_of_not_lt hc⟩

namespace Agree

variable {p p' : UInt8 → Bool} {q q' : Char → Bool}

theorem or (h : Agree p q) (h' : Agree p' q') :
    Agree (fun b => p b || p' b) fun c => q c || q' c :=
  fun c b hb => by simp only [h c b hb, h' c b hb]

theorem not (h : Agree p q) : Agree (fun b => !p b) fun c => !q c :=
  fun c b hb => by simp only [h c b hb]

/-- A single character of one byte. -/
theorem beq {d : Char} (hd : d.toNat < 128) : Agree (· == byte d) (· == d) := by
  intro c b hb
  have hbyte : (byte d).toNat = d.toNat := by
    rw [byte, UInt8.toNat_ofNat', Nat.mod_eq_of_lt (Nat.lt_trans hd (by decide))]
  rw [Bool.eq_iff_iff, beq_iff_eq, beq_iff_eq, ← UInt8.toNat_inj, hbyte, ← Char.toNat_inj]
  rcases toNat_cases hb with h | h <;> omega

/-- The characters between two of one byte. -/
theorem between (low high : Char) (hhigh : high.toNat < 128) :
    Agree (fun b => decide (low.toNat ≤ b.toNat) && decide (b.toNat ≤ high.toNat))
      fun c => decide (low.toNat ≤ c.toNat) && decide (c.toNat ≤ high.toNat) := by
  intro c b hb
  rw [Bool.eq_iff_iff]
  simp only [Bool.and_eq_true, decide_eq_true_eq]
  rcases toNat_cases hb with h | h <;> omega

/-- A run of bytes of the class is a run of characters. -/
theorem takeWhile_utf8 (h : Agree p q) (text : List Char) :
    (utf8 text).takeWhile p = utf8 (text.takeWhile q) := by
  induction text with
  | nil => rfl
  | cons c rest ih =>
      have hall := h c
      rw [utf8_cons, List.takeWhile_cons]
      by_cases hc : q c = true
      · rw [List.takeWhile_append_of_pos fun b hb => (hall b hb).trans hc, ih, if_pos hc, utf8_cons]
      · obtain ⟨b, more, hbytes, -⟩ := exists_utf8EncodeChar c
        have hb : ¬ p b = true := by
          rw [hall b (by rw [hbytes]; exact .head _)]
          exact hc
        rw [hbytes, List.cons_append, List.takeWhile_cons_of_neg hb, if_neg hc, utf8_nil]

end Agree

/-! ## Parts of a text

Cutting is partial. A reader that is proved to cut only where `slice?` is defined never cuts through
a character, whatever it took for the positions. -/

/-- The first byte of what follows a part of a text. -/
theorem exists_getElem?_utf8 (front : List Char) (c : Char) (rest : List Char) :
    ∃ b, (utf8 (front ++ c :: rest))[byteSize front]? = some b ∧ b ∈ String.utf8EncodeChar c := by
  obtain ⟨b, more, hbytes, -⟩ := exists_utf8EncodeChar c
  refine ⟨b, ?_, hbytes ▸ .head _⟩
  rw [utf8_append, utf8_cons, hbytes, ← length_utf8 front,
    List.getElem?_append_right (Nat.le_refl _), Nat.sub_self, List.cons_append,
    List.getElem?_cons_zero]

/-- The part of a text between two offsets. There is none if one of them is within a character. -/
def slice? (text : List Char) (start stop : Nat) : Option (List Char) :=
  if start ≤ stop ∧ IsBoundary (utf8 text) start ∧ IsBoundary (utf8 text) stop then
    some (startingBefore (stop - start) (dropBytes start text))
  else none

theorem slice?_append (front middle tail : List Char) :
    slice? (front ++ (middle ++ tail)) (byteSize front) (byteSize (front ++ middle)) =
      some middle := by
  have hstop : IsBoundary (utf8 (front ++ (middle ++ tail))) (byteSize (front ++ middle)) := by
    rw [← List.append_assoc]
    exact isBoundary_byteSize _ tail
  have hle : byteSize front ≤ byteSize (front ++ middle) := by
    rw [byteSize_append]
    exact Nat.le_add_right _ _
  rw [slice?, if_pos ⟨hle, isBoundary_byteSize front _, hstop⟩, dropBytes_byteSize,
    byteSize_append, Nat.add_sub_cancel_left, startingBefore_byteSize]

end NumScript.Text
