import NumScript.Proofs.Diagnostic.LineTable

set_option autoImplicit false

/-! # Lines and columns in texts of any length

Lines and columns are words, and a text may have more lines than there are words. The number of what
has `n` before it is then the largest word. There is one exception. The conversion of `n` to a word
saturates before one is added, so the addition overflows for the one `n` that is the largest word
itself, and the number is zero (`numbers_ordinal`). This holds for the lines of the scan and of the
table and for the columns of both, and nothing else goes wrong with the numbers
(`places_saturate`). A text of that many newlines has a line with the number zero, and a line of that
many characters a column with the number zero (`ordinals_overflow`).
-/

namespace NumScript

open Text

/-! ## Ordinal numbers

Small counts, counts that are too large, and the single count between them. Besides the number, the
statement says where it comes from: every word is a sum with one, and this sum overflows in the
single case only. -/

/-- A word numbers what has `n` before it: by `n + 1`, by the largest word where this is too large,
and by zero where `n` is the largest word. The word is the sum of one and another word, and only in
the last case does this addition overflow. -/
structure Numbers (word : UInt32) (n : Nat) : Prop where
  toNat : word.toNat = if n = UInt32.size - 1 then 0 else min (n + 1) (UInt32.size - 1)
  addition : ∃ summand : UInt32, word = summand + 1 ∧
    (UInt32.size ≤ summand.toNat + (1 : UInt32).toNat ↔ n = UInt32.size - 1)

theorem numbers_ordinal (n : Nat) : Numbers (ordinal n) n := by
  have hsize : UInt32.size = 4294967296 := rfl
  have hone : (1 : UInt32).toNat = 1 := rfl
  by_cases hn : n < UInt32.size
  · have hword : (UInt32.ofNat n).toNat = n := by rw [UInt32.toNat_ofNat']; omega
    have hordinal : ordinal n = UInt32.ofNat n + 1 := by rw [ordinal, if_pos hn]
    refine ⟨?_, _, hordinal, ?_⟩
    · rw [hordinal, UInt32.toNat_add, hword, hone]
      split <;> omega
    · rw [hword, hone]
      omega
  · have hword : (UInt32.ofNat (UInt32.size - 2)).toNat = UInt32.size - 2 := by
      rw [UInt32.toNat_ofNat']
      omega
    have hordinal : ordinal n = UInt32.ofNat (UInt32.size - 2) + 1 := by rw [ordinal, if_neg hn]
    refine ⟨?_, _, hordinal, ?_⟩
    · rw [hordinal, UInt32.toNat_add, hword, hone, if_neg (by omega)]
      omega
    · rw [hword, hone]
      omega

/-! ## Places

The split of a text at an offset is the one for short texts. Only the last step differs: the counts
are turned into words without knowing that they fit. -/

def charactersWithin (bytes : List UInt8) (start offset : Nat) : Nat :=
  ((bytes.take offset).drop start).countP isFirst

def LineTable.startOf (table : LineTable) (offset : Nat) : Nat :=
  table.starts.getD (table.line offset - 1).toNat 0

/-- The numbers of the line and the column of an offset, as the scan and the table of a text give
them. -/
structure PlacesSaturate (source : List Char) (offset : Nat) : Prop where
  line : Numbers (lineOfOffset source offset) (((utf8 source).take offset).count newline)
  tableLine : (LineTable.ofSource source).line offset = lineOfOffset source offset
  column : ∃ start, IsLineStart (utf8 source) offset start ∧
    Numbers (Location.ofOffset source offset).column
      (charactersWithin (utf8 source) start offset)
  /-- The table counts from the start of the line that it found. -/
  tableColumn : Numbers ((LineTable.ofSource source).location source offset).column
    (charactersWithin (utf8 source) ((LineTable.ofSource source).startOf offset) offset)
  tableStart : ((utf8 source).take offset).count newline < UInt32.size →
    IsLineStart (utf8 source) offset ((LineTable.ofSource source).startOf offset)

section

variable {source : List Char}

/-- The characters that start between the end of a part of a text and an offset. -/
theorem length_startingBefore_append (front tail : List Char) (offset : Nat) :
    (startingBefore (offset - byteSize front) tail).length =
      charactersWithin (utf8 (front ++ tail)) (byteSize front) offset := by
  rw [charactersWithin, List.drop_take, utf8_append, ← length_utf8 front, List.drop_left,
    countP_isFirst_take]

/-- Every entry of a table is the end of a part of its text. -/
theorem LineTable.exists_getD (source : List Char) (n : Nat) :
    ∃ front tail, source = front ++ tail ∧ (ofSource source).starts.getD n 0 = byteSize front := by
  by_cases hn : n ≤ source.count '\n'
  · obtain ⟨front, tail, rfl, hfront, rfl⟩ := exists_front hn
    refine ⟨front, tail, rfl, ?_⟩
    rw [Array.getD_eq_getD_getElem?, getElem?_starts hfront, Option.getD_some]
  · refine ⟨[], source, rfl, ?_⟩
    have hsize : (ofSource source).starts.size ≤ n := by
      have hlines := size_ofSource source
      rw [size] at hlines
      omega
    rw [Array.getD_eq_getD_getElem?, Array.getElem?_eq_none hsize]
    rfl

/-- The word before the number of a line finds its start, also where the number is zero. -/
theorem toNat_ordinal_sub_one {n : Nat} (h : n < UInt32.size) : (ordinal n - 1).toNat = n := by
  rw [ordinal, if_pos h, UInt32.add_sub_cancel, UInt32.toNat_ofNat', Nat.mod_eq_of_lt h]

theorem LineTable.column_ofSource (source : List Char) (offset : Nat) :
    ((ofSource source).location source offset).column =
      ordinal (charactersWithin (utf8 source) ((ofSource source).startOf offset) offset) := by
  obtain ⟨front, tail, hsource, hstart⟩ :=
    exists_getD source ((ofSource source).line offset - 1).toNat
  rw [startOf, location, hstart, hsource, dropBytes_byteSize, length_startingBefore_append]

theorem LineTable.isLineStart_startOf {offset : Nat}
    (h : ((utf8 source).take offset).count newline < UInt32.size) :
    IsLineStart (utf8 source) offset ((ofSource source).startOf offset) := by
  obtain ⟨lines, last, ahead, hline⟩ := exists_line source offset
  rw [count_newline_take, hline.count_eq] at h
  have hstart : (ofSource source).starts[lines.count '\n']? = some (byteSize lines) := by
    rw [hline.source_eq]
    exact getElem?_starts hline.endsLine _
  rw [startOf, line_ofSource, lineOfOffset, hline.count_eq, toNat_ordinal_sub_one h,
    Array.getD_eq_getD_getElem?, hstart, Option.getD_some]
  exact hline.isLineStart

end

/-- In a text of any length the lines and columns of all offsets are numbered by words, the largest
of which stands for all numbers that are too large. The exception is what has as many before it as
the largest word: there the addition of one overflows, and the number is zero. -/
theorem places_saturate (source : List Char) (offset : Nat) : PlacesSaturate source offset where
  line := by
    rw [lineOfOffset, ← count_newline_take]
    exact numbers_ordinal _
  tableLine := LineTable.line_ofSource source offset
  column := by
    obtain ⟨front, last, ahead, h⟩ := exists_line source offset
    refine ⟨byteSize front, h.isLineStart, ?_⟩
    rw [Location.ofOffset, h.length_lastLine, charactersWithin, h.countP_isFirst]
    exact numbers_ordinal _
  tableColumn := by
    rw [LineTable.column_ofSource]
    exact numbers_ordinal _
  tableStart := LineTable.isLineStart_startOf

/-! ## The overflow

That the exception is not empty: two texts for which a number is zero. They are too long to be
written down, so their places are computed from what is known of repeated characters. -/

/-- A character of one byte, repeated. -/
theorem byteSize_replicate {c : Char} (h : c.utf8Size = 1) (n : Nat) :
    byteSize (List.replicate n c) = n := by
  induction n with
  | zero => rfl
  | succ n ih => rw [List.replicate_succ, byteSize_cons, ih, h, Nat.add_comm]

theorem startingBefore_replicate {c : Char} (h : c.utf8Size = 1) (n : Nat) :
    startingBefore n (List.replicate n c) = List.replicate n c := by
  have hall := startingBefore_byteSize (List.replicate n c) []
  rwa [byteSize_replicate h, List.append_nil] at hall

theorem lineOfOffset_newlines (n : Nat) : lineOfOffset (List.replicate n '\n') n = ordinal n := by
  rw [lineOfOffset, startingBefore_replicate rfl, List.count_replicate_self]

theorem column_letters (n : Nat) :
    (Location.ofOffset (List.replicate n 'a') n).column = ordinal n := by
  have hletters : '\n' ∉ List.replicate n 'a' := by
    intro hmem
    exact absurd (List.eq_of_mem_replicate hmem) (by decide)
  have hlast : lastLine ([] ++ List.replicate n 'a') = (List.replicate n 'a').reverse :=
    lastLine_append (.inl rfl) hletters
  rw [List.nil_append] at hlast
  rw [Location.ofOffset, startingBefore_replicate rfl, hlast, List.length_reverse,
    List.length_replicate]

/-- Behind as many newlines as the largest word the line has the number zero, by the scan and by the
table, and behind as many letters so has the column. -/
theorem ordinals_overflow :
    let newlines := List.replicate (UInt32.size - 1) '\n'
    let letters := List.replicate (UInt32.size - 1) 'a'
    lineOfOffset newlines (UInt32.size - 1) = 0 ∧
      (LineTable.ofSource newlines).line (UInt32.size - 1) = 0 ∧
      (Location.ofOffset letters (UInt32.size - 1)).column = 0 := by
  intro newlines letters
  have hzero : ordinal (UInt32.size - 1) = 0 := by decide
  have hline : lineOfOffset newlines (UInt32.size - 1) = 0 :=
    (lineOfOffset_newlines _).trans hzero
  exact ⟨hline, (LineTable.line_ofSource _ _).trans hline, (column_letters _).trans hzero⟩

end NumScript
