import NumScript.Diagnostic.Location
import NumScript.Proofs.Text.Encoding

set_option autoImplicit false

/-! # The table of lines and the scan agree

A byte offset is turned into a line and a column in two ways. The scan cuts the text before the
offset and looks at its last line; the table finds the last line that starts at or before the offset
by halving, and counts the characters from there. Both give what the bytes of the text say
(`Location.IsAt`), also for an offset within a character or past the end. The main statement is
`linesAgree`.

For both, a text is split into the part before the line of the offset, the part of this line that
starts before the offset, and the rest (`exists_line`). The starts of the lines in the first part are
at or before the offset, those in the rest after it, and the halving finds the border between them
(`LineTable.startedWithin_eq`).

The scan goes over the text for each offset, the table has gone over it once. Where they disagreed
nothing would fail: the line of some error would be wrong.
-/

namespace NumScript

open Text

/-! ## Places by bytes

The statement that scan and table are measured against. It speaks of bytes and offsets only, without
either algorithm, so that an agreement of the two in some common mistake would not satisfy it. -/

/-- The line of an offset starts at this byte: after a newline or at the beginning, with no newline
from there up to the offset. -/
structure IsLineStart (bytes : List UInt8) (offset start : Nat) : Prop where
  start_le : start ≤ min offset bytes.length
  first : start = 0 ∨ bytes[start - 1]? = some newline
  unbroken : ∀ k, start ≤ k → k < offset → bytes[k]? ≠ some newline

namespace Location

/-- The place of an offset. The line is one more than the newlines before the offset, and the column
is one more than the characters that start between the start of the line and the offset. -/
structure IsAt (place : Location) (bytes : List UInt8) (offset : Nat) : Prop where
  line : place.line.toNat = (bytes.take offset).count newline + 1
  column : ∃ start, IsLineStart bytes offset start ∧
    place.column.toNat = ((bytes.take offset).drop start).countP isFirst + 1

/-- An earlier line, or an earlier column in the same line. -/
def Before (a b : Location) : Prop :=
  a.line < b.line ∨ a.line = b.line ∧ a.column < b.column

end Location

/-- What the table of a text and the scan of it agree on, and what they give. -/
structure LinesAgree (source : List Char) : Prop where
  line : ∀ offset, (LineTable.ofSource source).line offset = lineOfOffset source offset
  location : ∀ offset,
    (LineTable.ofSource source).location source offset = Location.ofOffset source offset
  isAt : ∀ offset, (Location.ofOffset source offset).line = lineOfOffset source offset ∧
    (Location.ofOffset source offset).IsAt (utf8 source) offset
  before : ∀ a b, IsBoundary (utf8 source) a → IsBoundary (utf8 source) b → a < b →
    (Location.ofOffset source a).Before (Location.ofOffset source b)
  size : (LineTable.ofSource source).size = (utf8 source).count newline + 1
  start : ∀ line : UInt32, 1 ≤ line.toNat → line.toNat ≤ (LineTable.ofSource source).size →
    ∃ start, (LineTable.ofSource source).start? line = some start ∧
      (LineTable.ofSource source).location source start = ⟨line, 1⟩ ∧
      Location.ofOffset source start = ⟨line, 1⟩
  noStart : ∀ line : UInt32, ¬ (1 ≤ line.toNat ∧ line.toNat ≤ (LineTable.ofSource source).size) →
    (LineTable.ofSource source).start? line = none

/-! ## Ordinal numbers

Words are compared as numbers. That a count fits into a word is a hypothesis here; what happens to
larger counts is a matter of its own. -/

theorem toNat_ordinal {n : Nat} (h : n < UInt32.size - 1) : (ordinal n).toNat = n + 1 := by
  have hsize : UInt32.size = 4294967296 := rfl
  have hone : (1 : UInt32).toNat = 1 := rfl
  rw [ordinal, if_pos (by omega), UInt32.toNat_add, UInt32.toNat_ofNat', hone]
  omega

theorem ordinal_lt {m n : Nat} (hn : n < UInt32.size - 1) (h : m < n) : ordinal m < ordinal n := by
  rw [UInt32.lt_iff_toNat_lt, toNat_ordinal hn, toNat_ordinal (Nat.lt_trans h hn)]
  omega

theorem toNat_sub_one {word : UInt32} (h : 1 ≤ word.toNat) : (word - 1).toNat = word.toNat - 1 :=
  UInt32.toNat_sub_of_le _ _ (UInt32.le_iff_toNat_le.2 h)

/-! ## Splitting a text into lines

Every offset splits its text in the same three parts, and each number that the scan or the table
computes is a size or a length of one of them. -/

def EndsLine (front : List Char) : Prop :=
  front = [] ∨ ∃ lines, front = lines ++ ['\n']

theorem EndsLine.cons {front : List Char} (h : EndsLine front) (hne : front ≠ []) (c : Char) :
    EndsLine (c :: front) := by
  obtain ⟨lines, rfl⟩ := h.resolve_left hne
  exact .inr ⟨c :: lines, rfl⟩

theorem EndsLine.newline {front : List Char} (h : EndsLine front) : EndsLine ('\n' :: front) := by
  by_cases hne : front = []
  · exact .inr ⟨[], by rw [hne]; rfl⟩
  · exact h.cons hne _

/-- The last line of a text is what follows the last newline. -/
theorem exists_lastLine (text : List Char) :
    ∃ front last, text = front ++ last ∧ EndsLine front ∧ '\n' ∉ last := by
  induction text with
  | nil => exact ⟨[], [], rfl, .inl rfl, List.not_mem_nil⟩
  | cons c rest ih =>
      obtain ⟨front, last, rfl, hfront, hlast⟩ := ih
      by_cases hne : front = []
      · subst hne
        by_cases hc : c = '\n'
        · exact ⟨[c], last, rfl, by rw [hc]; exact hfront.newline, hlast⟩
        · refine ⟨[], c :: last, rfl, .inl rfl, fun hmem => ?_⟩
          rcases List.mem_cons.1 hmem with h | h
          · exact hc h.symm
          · exact hlast h
      · exact ⟨c :: front, last, rfl, hfront.cons hne c, hlast⟩

theorem lastLine_append {front last : List Char} (hfront : EndsLine front) (hlast : '\n' ∉ last) :
    lastLine (front ++ last) = last.reverse := by
  have hpass : ∀ c ∈ last.reverse, (c != '\n') = true := by
    intro c hc
    rw [bne_iff_ne]
    rintro rfl
    exact hlast (List.mem_reverse.1 hc)
  rw [lastLine, List.reverse_append, List.takeWhile_append_of_pos hpass]
  rcases hfront with rfl | ⟨lines, rfl⟩
  · rw [List.reverse_nil, List.takeWhile_nil, List.append_nil]
  · rw [List.reverse_append, List.reverse_singleton, List.singleton_append,
      List.takeWhile_cons_of_neg (by decide), List.append_nil]

/-- A text split at an offset: the lines before the one of the offset, what of this line starts
before the offset, and what does not. -/
structure SplitAt (source : List Char) (offset : Nat) (front last ahead : List Char) : Prop where
  source_eq : source = front ++ (last ++ ahead)
  startingBefore_eq : startingBefore offset source = front ++ last
  endsLine : EndsLine front
  not_mem : '\n' ∉ last
  byteSize_le : byteSize front ≤ offset
  rest_eq : startingBefore (offset - byteSize front) (last ++ ahead) = last
  ahead_eq : ahead = [] ∨ offset ≤ byteSize (front ++ last)

theorem exists_line (source : List Char) (offset : Nat) :
    ∃ front last ahead, SplitAt source offset front last ahead := by
  obtain ⟨ahead, hsource, hahead⟩ := exists_startingBefore offset source
  obtain ⟨front, last, hbefore, hfront, hlast⟩ := exists_lastLine (startingBefore offset source)
  rw [hbefore, List.append_assoc] at hsource
  rw [hbefore] at hahead
  -- the line starts with a character before the offset, or behind a newline that starts before it
  have hle : byteSize front ≤ offset := by
    rcases last with _ | ⟨c, more⟩
    · rcases hfront with rfl | ⟨lines, rfl⟩
      · exact Nat.zero_le _
      · rw [List.append_nil] at hbefore
        have hlt := byteSize_lt_of_startingBefore hbefore
        have hone : '\n'.utf8Size = 1 := rfl
        rw [byteSize_append, byteSize_cons, byteSize_nil, hone]
        omega
    · exact Nat.le_of_lt (byteSize_lt_of_startingBefore hbefore)
  refine ⟨front, last, ahead, hsource, hbefore, hfront, hlast, hle, ?_, hahead⟩
  rw [hsource, startingBefore_append hle] at hbefore
  exact List.append_cancel_left hbefore

namespace SplitAt

variable {source front last ahead : List Char} {offset : Nat}

theorem count_eq (h : SplitAt source offset front last ahead) :
    (startingBefore offset source).count '\n' = front.count '\n' := by
  rw [h.startingBefore_eq, List.count_append, List.count_eq_zero.2 h.not_mem, Nat.add_zero]

theorem length_lastLine (h : SplitAt source offset front last ahead) :
    (lastLine (startingBefore offset source)).length = last.length := by
  rw [h.startingBefore_eq, lastLine_append h.endsLine h.not_mem, List.length_reverse]

/-- The bytes of the line of the offset, up to the offset. -/
theorem drop_take (h : SplitAt source offset front last ahead) :
    ((utf8 source).take offset).drop (byteSize front) =
      (utf8 (last ++ ahead)).take (offset - byteSize front) := by
  rw [List.drop_take, h.source_eq, utf8_append, ← length_utf8 front, List.drop_left]

theorem isLineStart (h : SplitAt source offset front last ahead) :
    IsLineStart (utf8 source) offset (byteSize front) where
  start_le := by
    rw [length_utf8, h.source_eq, byteSize_append front]
    exact Nat.le_min.2 ⟨h.byteSize_le, Nat.le_add_right _ _⟩
  first := by
    rcases h.endsLine with hnil | ⟨lines, hlines⟩
    · exact .inl (by rw [hnil]; rfl)
    · right
      have hone : byteSize front - 1 = (utf8 lines).length := by
        have hsize : '\n'.utf8Size = 1 := rfl
        rw [hlines, byteSize_append, byteSize_cons, byteSize_nil, hsize, length_utf8]
        omega
      rw [h.source_eq, hone, hlines, utf8_append, utf8_append, utf8_cons, utf8_nil,
        utf8EncodeChar_newline]
      simp
  unbroken := by
    intro k hstart hk hnewline
    -- a newline there would be counted among the characters of the line
    have hnone : ((utf8 (last ++ ahead)).take (offset - byteSize front)).count newline = 0 := by
      rw [count_newline_take, h.rest_eq, List.count_eq_zero.2 h.not_mem]
    rw [← h.drop_take, List.count_eq_zero] at hnone
    refine hnone (List.mem_of_getElem? (i := k - byteSize front) ?_)
    rw [List.getElem?_drop, Nat.add_sub_cancel' hstart, List.getElem?_take_of_lt hk]
    exact hnewline

theorem countP_isFirst (h : SplitAt source offset front last ahead) :
    (((utf8 source).take offset).drop (byteSize front)).countP isFirst = last.length := by
  rw [h.drop_take, countP_isFirst_take, h.rest_eq]

end SplitAt

/-! ## The table

The halving is an induction on the width of the interval that is left. Its invariant is the border:
all entries before it are at or before the offset, all from it on are past the offset. The entries
increase strictly, so there is one border only, and the split of the text says where it is. -/

namespace LineTable

theorem startsAfter_append (offset : Nat) (front tail : List Char) :
    startsAfter offset (front ++ tail) =
      startsAfter offset front ++ startsAfter (offset + byteSize front) tail := by
  induction front generalizing offset with
  | nil => rfl
  | cons c front ih =>
      rw [List.cons_append, startsAfter, startsAfter, byteSize_cons, ← Nat.add_assoc]
      split
      · rename_i hc
        have hsize : c.utf8Size = 1 := by rw [hc]; rfl
        rw [ih, hsize, List.cons_append]
      · exact ih _

theorem length_startsAfter (offset : Nat) (text : List Char) :
    (startsAfter offset text).length = text.count '\n' := by
  induction text generalizing offset with
  | nil => rfl
  | cons c rest ih =>
      rw [startsAfter]
      split
      · rename_i hc
        rw [hc, List.length_cons, ih, List.count_cons_self]
      · rename_i hc
        rw [ih, List.count_cons_of_ne hc]

/-- Lines start within the text. -/
theorem mem_startsAfter {offset start : Nat} {text : List Char}
    (h : start ∈ startsAfter offset text) : offset < start ∧ start ≤ offset + byteSize text := by
  induction text generalizing offset with
  | nil => exact absurd h List.not_mem_nil
  | cons c rest ih =>
      have hpos := c.utf8Size_pos
      rw [startsAfter] at h
      rw [byteSize_cons]
      split at h
      · rcases List.mem_cons.1 h with rfl | h
        · omega
        · have hrest := ih h
          omega
      · have hrest := ih h
        omega

theorem startsAfter_eq_nil {text : List Char} (h : '\n' ∉ text) (offset : Nat) :
    startsAfter offset text = [] := by
  rw [← List.length_eq_zero_iff, length_startsAfter, List.count_eq_zero.2 h]

theorem size_ofSource (source : List Char) : (ofSource source).size = source.count '\n' + 1 := by
  rw [size, ofSource, List.size_toArray, List.length_cons, length_startsAfter]

/-- Halving finds how many entries there are before the first one past the offset. -/
theorem startedWithin_eq {table : LineTable} {early late : List Nat} {offset : Nat}
    (hstarts : table.starts.toList = early ++ late) (hearly : ∀ start ∈ early, start ≤ offset)
    (hlate : ∀ start ∈ late, offset < start) {low high : Nat} (hlow : low ≤ early.length)
    (hhigh : early.length ≤ high) (hsize : high ≤ table.size) :
    table.startedWithin offset low high = early.length := by
  have hread (i : Nat) : table.starts.getD i 0 = (early ++ late)[i]?.getD 0 := by
    rw [Array.getD_eq_getD_getElem?, ← hstarts, Array.getElem?_toList]
  have hlength : table.size = early.length + late.length := by
    rw [size, ← Array.length_toList, hstarts, List.length_append]
  have hbefore {i : Nat} (hi : i < early.length) : table.starts.getD i 0 ≤ offset := by
    rw [hread, List.getElem?_append_left hi, List.getElem?_eq_getElem hi]
    exact hearly _ (List.getElem_mem hi)
  have hafter {i : Nat} (hi : early.length ≤ i) (hsmall : i < table.size) :
      offset < table.starts.getD i 0 := by
    have hlt : i - early.length < late.length := by omega
    rw [hread, List.getElem?_append_right hi, List.getElem?_eq_getElem hlt]
    exact hlate _ (List.getElem_mem hlt)
  -- the border stays between `low` and `high`
  fun_induction table.startedWithin offset low high with
  | case1 low high hlt middle hmiddle ih =>
      refine ih ?_ hhigh hsize
      by_cases hborder : middle < early.length
      · exact hborder
      · have hpast := hafter (i := middle) (by omega) (by omega)
        omega
  | case2 low high hlt middle hmiddle ih =>
      refine ih hlow ?_ (by omega)
      by_cases hborder : middle < early.length
      · exact absurd (hbefore hborder) hmiddle
      · omega
  | case3 low high hlt => omega

/-- Where the line starts that follows a part of a text. -/
theorem getElem?_starts {front : List Char} (hfront : EndsLine front) (tail : List Char) :
    (ofSource (front ++ tail)).starts[front.count '\n']? = some (byteSize front) := by
  rw [ofSource, List.getElem?_toArray, startsAfter_append, ← List.cons_append]
  rcases hfront with rfl | ⟨lines, rfl⟩
  · rfl
  · have hindex : (lines ++ ['\n']).count '\n' = (0 :: startsAfter 0 lines).length := by
      rw [List.count_append, List.length_cons, length_startsAfter]
      rfl
    have hlast : 0 :: startsAfter 0 (lines ++ ['\n']) =
        0 :: startsAfter 0 lines ++ [byteSize (lines ++ ['\n'])] := by
      rw [startsAfter_append, Nat.zero_add, byteSize_append]
      rfl
    rw [hindex, hlast, List.append_assoc, List.getElem?_append_right (Nat.le_refl _), Nat.sub_self]
    rfl

/-- Every line of a text is preceded by as many newlines as there are lines before it. -/
theorem exists_front {source : List Char} {n : Nat} (h : n ≤ source.count '\n') :
    ∃ front tail, source = front ++ tail ∧ EndsLine front ∧ front.count '\n' = n := by
  induction source generalizing n with
  | nil => exact ⟨[], [], rfl, .inl rfl, (Nat.le_zero.1 h).symm⟩
  | cons c rest ih =>
      cases n with
      | zero => exact ⟨[], c :: rest, rfl, .inl rfl, rfl⟩
      | succ n =>
          by_cases hc : c = '\n'
          · subst hc
            rw [List.count_cons_self] at h
            obtain ⟨front, tail, rfl, hfront, hcount⟩ := ih (Nat.le_of_succ_le_succ h)
            exact ⟨'\n' :: front, tail, rfl, hfront.newline, by rw [List.count_cons_self, hcount]⟩
          · rw [List.count_cons_of_ne hc] at h
            obtain ⟨front, tail, rfl, hfront, hcount⟩ := ih h
            have hne : front ≠ [] := by
              rintro rfl
              exact Nat.succ_ne_zero n hcount.symm
            exact ⟨c :: front, tail, rfl, hfront.cons hne c, by rw [List.count_cons_of_ne hc, hcount]⟩

/-- The table splits a text at an offset as `SplitAt` does. -/
theorem startedWithin_of_splitAt {source front last ahead : List Char} {offset : Nat}
    (h : SplitAt source offset front last ahead) :
    (ofSource source).startedWithin offset 0 (ofSource source).size = front.count '\n' + 1 := by
  have hstarts : (ofSource source).starts.toList =
      (0 :: startsAfter 0 front) ++ startsAfter (byteSize (front ++ last)) ahead := by
    show 0 :: startsAfter 0 source = _
    rw [h.source_eq, startsAfter_append, startsAfter_append _ last, startsAfter_eq_nil h.not_mem,
      List.nil_append, Nat.zero_add, byteSize_append, List.cons_append]
  have hlength : (0 :: startsAfter 0 front).length = front.count '\n' + 1 := by
    rw [List.length_cons, length_startsAfter]
  rw [← hlength]
  refine startedWithin_eq hstarts ?_ ?_ (Nat.zero_le _) ?_ (Nat.le_refl _)
  · intro start hstart
    have hfront := h.byteSize_le
    rcases List.mem_cons.1 hstart with rfl | hstart
    · omega
    · have hwithin := mem_startsAfter hstart
      omega
  · intro start hstart
    have hwithin := mem_startsAfter hstart
    rcases h.ahead_eq with rfl | hahead
    · exact absurd hstart List.not_mem_nil
    · omega
  · rw [hlength, size_ofSource, h.source_eq, List.count_append]
    omega

theorem line_ofSource (source : List Char) (offset : Nat) :
    (ofSource source).line offset = lineOfOffset source offset := by
  obtain ⟨front, last, ahead, h⟩ := exists_line source offset
  rw [line, startedWithin_of_splitAt h, lineOfOffset, h.count_eq, Nat.add_sub_cancel]

theorem start?_eq_none {source : List Char} {line : UInt32}
    (h : ¬ (1 ≤ line.toNat ∧ line.toNat ≤ (ofSource source).size)) :
    (ofSource source).start? line = none := by
  rw [start?]
  split
  · rfl
  · rename_i hzero
    have hpos : 1 ≤ line.toNat :=
      Nat.one_le_iff_ne_zero.2 fun hnone => hzero (UInt32.toNat_inj.1 hnone)
    rw [Array.getElem?_eq_none_iff, toNat_sub_one hpos]
    rw [size] at h
    omega

end LineTable

/-! ## Short texts

In a text whose bytes can be counted by a word, so can its lines and the characters of a line. -/

section

variable {source : List Char}

theorem counts_lt (hsize : byteSize source < UInt32.size - 1) {front tail : List Char}
    (hsource : source = front ++ tail) :
    front.count '\n' < UInt32.size - 1 ∧ front.length < UInt32.size - 1 := by
  have hcount := List.count_le_length (a := '\n') (l := front)
  have hlength := length_le_byteSize front
  rw [hsource, byteSize_append] at hsize
  omega

theorem LineTable.location_ofSource (hsize : byteSize source < UInt32.size - 1) (offset : Nat) :
    (ofSource source).location source offset = Location.ofOffset source offset := by
  obtain ⟨front, last, ahead, h⟩ := exists_line source offset
  have hline : ((ofSource source).line offset - 1).toNat = front.count '\n' := by
    have htoNat := toNat_ordinal (counts_lt hsize h.source_eq).1
    rw [line_ofSource, lineOfOffset, h.count_eq, toNat_sub_one (by omega), htoNat,
      Nat.add_sub_cancel]
  have hstart : (ofSource source).starts.getD ((ofSource source).line offset - 1).toNat 0 =
      byteSize front := by
    rw [hline, Array.getD_eq_getD_getElem?, h.source_eq, getElem?_starts h.endsLine,
      Option.getD_some]
  have hrest : startingBefore (offset - byteSize front) (dropBytes (byteSize front) source) =
      last := by
    rw [h.source_eq, dropBytes_byteSize, h.rest_eq]
  rw [location, Location.ofOffset, hstart, hrest, line_ofSource, h.length_lastLine]

namespace Location

theorem isAt_ofOffset (hsize : byteSize source < UInt32.size - 1) (offset : Nat) :
    (ofOffset source offset).IsAt (utf8 source) offset := by
  obtain ⟨front, last, ahead, h⟩ := exists_line source offset
  have hlast : last.length < UInt32.size - 1 := by
    have hsource := h.source_eq
    rw [← List.append_assoc] at hsource
    have hlength := (counts_lt hsize hsource).2
    rw [List.length_append] at hlength
    omega
  refine ⟨?_, byteSize front, h.isLineStart, ?_⟩
  · rw [ofOffset, lineOfOffset, count_newline_take, h.count_eq,
      toNat_ordinal (counts_lt hsize h.source_eq).1]
  · rw [ofOffset, h.length_lastLine, h.countP_isFirst, toNat_ordinal hlast]

/-- The place of an offset between two characters, told from what comes before. -/
theorem ofOffset_byteSize {front last tail : List Char} (hsource : source = front ++ last ++ tail)
    (hfront : EndsLine front) (hlast : '\n' ∉ last) :
    ofOffset source (byteSize (front ++ last)) =
      ⟨ordinal (front.count '\n'), ordinal last.length⟩ := by
  rw [ofOffset, lineOfOffset, hsource, startingBefore_byteSize, lastLine_append hfront hlast,
    List.length_reverse, List.count_append, List.count_eq_zero.2 hlast, Nat.add_zero]

/-- Later characters have later places. -/
theorem before_ofOffset (hsize : byteSize source < UInt32.size - 1) {a b : Nat}
    (ha : IsBoundary (utf8 source) a) (hb : IsBoundary (utf8 source) b) (hab : a < b) :
    (ofOffset source a).Before (ofOffset source b) := by
  obtain ⟨upToA, afterA, hsourceA, rfl⟩ := ha.exists_append
  obtain ⟨upToB, afterB, hsourceB, rfl⟩ := hb.exists_append
  -- what is before the later offset goes on from what is before the earlier one
  obtain ⟨more, hmore⟩ : ∃ more, upToB = upToA ++ more := by
    refine ⟨startingBefore (byteSize upToB - byteSize upToA) afterA, ?_⟩
    rw [← startingBefore_append (Nat.le_of_lt hab), ← hsourceA, hsourceB, startingBefore_byteSize]
  obtain ⟨front, last, rfl, hfront, hlast⟩ := exists_lastLine upToA
  rw [ofOffset_byteSize hsourceA hfront hlast]
  by_cases hnewline : '\n' ∈ more
  · -- a line ends in between
    left
    have hline : (ofOffset source (byteSize upToB)).line = ordinal (upToB.count '\n') := by
      rw [ofOffset, lineOfOffset, hsourceB, startingBefore_byteSize]
    have hpos := List.count_pos_iff.2 hnewline
    rw [hline]
    refine ordinal_lt (counts_lt hsize hsourceB).1 ?_
    rw [hmore, List.count_append, List.count_append]
    omega
  · right
    have hrest : '\n' ∉ last ++ more := by
      rw [List.mem_append]
      exact not_or.2 ⟨hlast, hnewline⟩
    -- both are in one line, with characters between them
    have hlonger : 0 < more.length := by
      rw [hmore, byteSize_append _ more] at hab
      cases more with
      | nil => exact absurd hab (Nat.lt_irrefl _)
      | cons _ _ => exact Nat.zero_lt_succ _
    have hlength := (counts_lt hsize hsourceB).2
    rw [List.append_assoc] at hmore
    rw [hmore] at hsourceB hlength ⊢
    rw [List.length_append] at hlength
    rw [ofOffset_byteSize hsourceB hfront hrest]
    refine ⟨rfl, ordinal_lt (by omega) ?_⟩
    rw [List.length_append]
    omega

end Location

/-- The table knows the first place of every line. -/
theorem LineTable.exists_start (hsize : byteSize source < UInt32.size - 1) {line : UInt32}
    (hpos : 1 ≤ line.toNat) (hle : line.toNat ≤ (ofSource source).size) :
    ∃ start, (ofSource source).start? line = some start ∧
      Location.ofOffset source start = ⟨line, 1⟩ := by
  have hindex := toNat_sub_one hpos
  have hbelow : (line - 1).toNat ≤ source.count '\n' := by
    rw [size_ofSource] at hle
    omega
  have hzero : line ≠ 0 := by
    rintro rfl
    exact absurd hpos (by decide)
  obtain ⟨front, tail, hsource, hfront, hcount⟩ := exists_front hbelow
  have hline : ordinal (front.count '\n') = line := by
    rw [← UInt32.toNat_inj, toNat_ordinal (counts_lt hsize hsource).1]
    omega
  refine ⟨byteSize front, ?_, ?_⟩
  · rw [start?, if_neg hzero, ← hcount, hsource, getElem?_starts hfront]
  · rw [← List.append_nil front] at hsource ⊢
    rw [Location.ofOffset_byteSize hsource hfront List.not_mem_nil, hline]
    rfl

/-- The table of a text and the scan of it agree. In a text that is short enough for its counts to
fit into words they give the line and the column of every offset as the bytes tell them. Later
characters have later places, and the table knows the first place of every line. -/
theorem linesAgree (source : List Char) (h : (utf8 source).length < UInt32.size - 1) :
    LinesAgree source := by
  rw [length_utf8] at h
  exact
    { line := LineTable.line_ofSource source
      location := LineTable.location_ofSource h
      isAt := fun offset => ⟨rfl, Location.isAt_ofOffset h offset⟩
      before := fun a b => Location.before_ofOffset h
      size := by rw [LineTable.size_ofSource, count_newline_utf8]
      start := fun line hpos hle => by
        obtain ⟨start, hstart, hplace⟩ := LineTable.exists_start h hpos hle
        exact ⟨start, hstart, (LineTable.location_ofSource h start).trans hplace, hplace⟩
      noStart := fun line => LineTable.start?_eq_none }

end

/-- Three lines, an empty one among them, with characters of two and of four bytes. -/
def accented : List Char :=
  ['é', '\n', '\n', '𝄞', 'x']

/-- The main statement for this text, with the place of an offset within a character and of one past
the end. -/
theorem linesAgree_accented :
    (utf8 accented).length < UInt32.size - 1 ∧
      (LineTable.ofSource accented).location accented 6 = ⟨3, 2⟩ ∧
      Location.ofOffset accented 100 = ⟨3, 3⟩ ∧ LinesAgree accented :=
  ⟨by decide, by decide +kernel, by decide, linesAgree accented (by decide)⟩

end NumScript
