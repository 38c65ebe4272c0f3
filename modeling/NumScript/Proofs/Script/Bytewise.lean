import NumScript.Proofs.Expr.Bytewise
import NumScript.Proofs.Script.Delimiters
import NumScript.Proofs.Script.Lines

set_option autoImplicit false

/-! # Reading a script by its bytes

A script can be read by a cursor that counts bytes. It looks at single bytes, goes on while they are
of a class or up to the next one that is, and cuts words and parameters out of the script between two
positions (`skipGapAt`, `readWordAt`, `readParamAt`, `nextTerminatorAt`, `scanAt`). The readers of
this library do the same on what is left of the script (`Reading`, `Block`), so that a place between
two characters is all they can come to. Here the two are compared.

The invariant is `Stands`: the script is what has been passed and what is ahead, and the position is
the number of bytes that have been passed. From such a position every reader of the cursor comes to
such a position again, what it cuts out is no part of a character, and what it reads is what the
reader of the library reads from the text ahead (`stands_skipGapAt` up to `stands_scanBlockAt`). For
this it is enough that all bytes the cursor looks for are characters of one byte (`Text.Agree`), so
that none of them is part of a longer one.
-/

namespace NumScript.Script

open Text Expr

/-! ## The cursor

The readers go back and forth between the classes of bytes. That they end is seen from the position,
which no reader moves back. -/

/-- The byte at a position, and zero where the text has ended. -/
def byteAt (bytes : List UInt8) (pos : Nat) : UInt8 :=
  bytes[pos]?.getD 0

/-- The position of the next byte of a class, or of the end. -/
def upTo (p : UInt8 → Bool) (bytes : List UInt8) (pos : Nat) : Nat :=
  behind (fun b => !p b) bytes pos

namespace Byte

def isNewline (b : UInt8) : Bool :=
  b == byte '\n'

/-- A terminator, or the start of a comment. -/
def endsLine (b : UInt8) : Bool :=
  b == byte ';' || b == byte '#'

/-- What a parameter does not go over. -/
def isSpecial (b : UInt8) : Bool :=
  b == byte ';' || b == byte ',' || b == byte '#'

end Byte

section

variable {p : UInt8 → Bool} {bytes : List UInt8} {pos : Nat}

theorem le_behind (p : UInt8 → Bool) (bytes : List UInt8) (pos : Nat) : pos ≤ behind p bytes pos :=
  Nat.le_add_right _ _

theorem lt_length_of_byteAt (h : byteAt bytes pos ≠ 0) : pos < bytes.length := by
  by_contra hge
  rw [byteAt, List.getElem?_eq_none (Nat.le_of_not_lt hge)] at h
  exact h rfl

theorem lt_behind (h : byteAt bytes pos ≠ 0) (hp : p (byteAt bytes pos) = true) :
    pos < behind p bytes pos := by
  have hlt := lt_length_of_byteAt h
  rw [byteAt, List.getElem?_eq_getElem hlt, Option.getD_some] at hp
  rw [behind, List.drop_eq_getElem_cons hlt, List.takeWhile_cons_of_pos hp, List.length_cons]
  omega

/-- From the start of a comment on its end is further on. -/
theorem lt_upTo_newline (h : byteAt bytes pos = byte '#') :
    pos < bytes.length ∧ pos < upTo Byte.isNewline bytes pos := by
  have hne : byteAt bytes pos ≠ 0 := by
    rw [h]
    decide
  exact ⟨lt_length_of_byteAt hne, lt_behind hne (by rw [h]; decide)⟩

end

def skipBlanksAt (bytes : List UInt8) (pos : Nat) : Nat :=
  behind Byte.isBlank bytes pos

/-- The position behind the gap. -/
def skipGapAt (bytes : List UInt8) (pos : Nat) : Nat :=
  if _h : byteAt bytes (skipBlanksAt bytes pos) = byte '#' then
    skipGapAt bytes (upTo Byte.isNewline bytes (skipBlanksAt bytes pos))
  else skipBlanksAt bytes pos
termination_by bytes.length - pos
decreasing_by
  have hle : pos ≤ skipBlanksAt bytes pos := le_behind _ bytes pos
  have hlt := lt_upTo_newline _h
  omega

theorem le_skipGapAt (bytes : List UInt8) (pos : Nat) : pos ≤ skipGapAt bytes pos := by
  induction pos using skipGapAt.induct bytes with
  | case1 pos h ih =>
      have hle : pos ≤ skipBlanksAt bytes pos := le_behind _ bytes pos
      have hlt := lt_upTo_newline h
      rw [skipGapAt, dif_pos h]
      omega
  | case2 pos h =>
      rw [skipGapAt, dif_neg h]
      exact le_behind _ bytes pos

theorem byteAt_skipGapAt_ne (bytes : List UInt8) (pos : Nat) :
    byteAt bytes (skipGapAt bytes pos) ≠ byte '#' := by
  induction pos using skipGapAt.induct bytes with
  | case1 pos h ih =>
      rw [skipGapAt, dif_pos h]
      exact ih
  | case2 pos h =>
      rw [skipGapAt, dif_neg h]
      exact h

/-- A word, and the position behind it and the gap that follows. There is none if a part of a
character would have to be cut out. -/
def readWordAt (source : List Char) (pos : Nat) : Option (List Char × Nat) := do
  let bytes := utf8 source
  let start := skipGapAt bytes pos
  let stop := behind Byte.isWord bytes start
  let word ← slice? source start stop
  if byteAt bytes stop = byte ';' ∨ byteAt bytes stop = byte ',' then return (word, stop)
  else return (word, skipGapAt bytes stop)

def readLeadingAt (source : List Char) (pos : Nat) : Option (Leading × Nat) :=
  (readWordAt source pos).map fun (word, next) => (Leading.ofWord word, next)

/-- Where the next part of a parameter ends: before a comment, or with the parameter. -/
def stopAt (bytes : List UInt8) (pos : Nat) : Nat :=
  upTo Byte.isSpecial bytes (skipGapAt bytes pos)

/-- From a comment on the next part is further on, since no gap ends in front of a comment. -/
theorem lt_stopAt {bytes : List UInt8} {pos : Nat} (h : byteAt bytes (stopAt bytes pos) = byte '#') :
    pos < stopAt bytes pos ∧ stopAt bytes pos < bytes.length := by
  have hstart := le_skipGapAt bytes pos
  have hstop : skipGapAt bytes pos ≤ stopAt bytes pos := le_behind _ bytes _
  have hne : skipGapAt bytes pos ≠ stopAt bytes pos := by
    intro heq
    rw [← heq] at h
    exact byteAt_skipGapAt_ne bytes pos h
  exact ⟨by omega, lt_length_of_byteAt (by rw [h]; decide)⟩

/-- A parameter, and the position behind it. At a comment the reading starts again, and what it reads
then is part of the parameter. -/
def readParamAt (source : List Char) (pos : Nat) : Option (List Char × Nat) :=
  if _h : byteAt (utf8 source) (stopAt (utf8 source) pos) = byte '#' then do
    let param ← slice? source (skipGapAt (utf8 source) pos) (stopAt (utf8 source) pos)
    let (more, next) ← readParamAt source (stopAt (utf8 source) pos)
    return (param ++ more, next)
  else do
    let param ← slice? source (skipGapAt (utf8 source) pos) (stopAt (utf8 source) pos)
    return (param, skipBlanksAt (utf8 source) (stopAt (utf8 source) pos))
termination_by (utf8 source).length - pos
decreasing_by
  have hlt := lt_stopAt _h
  omega

/-- The position of the next terminator. Where a comment comes first, the search goes on behind it. -/
def nextTerminatorAt (bytes : List UInt8) (pos : Nat) : Option Nat :=
  if byteAt bytes (upTo Byte.endsLine bytes pos) = byte ';' then
    some (upTo Byte.endsLine bytes pos)
  else if _h : byteAt bytes (upTo Byte.endsLine bytes pos) = byte '#' then
    nextTerminatorAt bytes (upTo Byte.isNewline bytes (upTo Byte.endsLine bytes pos))
  else none
termination_by bytes.length - pos
decreasing_by
  have hle : pos ≤ upTo Byte.endsLine bytes pos := le_behind _ bytes pos
  have hlt := lt_upTo_newline _h
  omega

theorem le_of_nextTerminatorAt {bytes : List UInt8} {pos found : Nat}
    (h : nextTerminatorAt bytes pos = some found) : pos ≤ found ∧ found < bytes.length := by
  induction pos using nextTerminatorAt.induct bytes with
  | case1 pos hsemi =>
      rw [nextTerminatorAt, if_pos hsemi] at h
      cases h
      exact ⟨le_behind _ bytes pos, lt_length_of_byteAt (by rw [hsemi]; decide)⟩
  | case2 pos hsemi hhash ih =>
      rw [nextTerminatorAt, if_neg hsemi, dif_pos hhash] at h
      have hle : pos ≤ upTo Byte.endsLine bytes pos := le_behind _ bytes pos
      have hlt := lt_upTo_newline hhash
      have hfound := ih h
      omega
  | case3 pos hsemi hhash =>
      rw [nextTerminatorAt, if_neg hsemi, dif_neg hhash] at h
      cases h

/-- The position behind the separator, if one is next. -/
def separatorAt? (bytes : List UInt8) (pos : Nat) : Option Nat :=
  if byteAt bytes pos = byte ',' then some (pos + 1) else none

def isTerminatedAt (bytes : List UInt8) (pos : Nat) : Bool :=
  byteAt bytes pos == byte ';'

theorem le_of_readWordAt {source : List Char} {pos next : Nat} {word : List Char}
    (h : readWordAt source pos = some (word, next)) : pos ≤ next := by
  obtain ⟨text, -, h⟩ := Option.bind_eq_some_iff.1 h
  have hstart := le_skipGapAt (utf8 source) pos
  have hstop := le_behind Byte.isWord (utf8 source) (skipGapAt (utf8 source) pos)
  have hend := le_skipGapAt (utf8 source)
    (behind Byte.isWord (utf8 source) (skipGapAt (utf8 source) pos))
  split at h
  · cases h
    omega
  · cases h
    omega

theorem le_of_readLeadingAt {source : List Char} {pos next : Nat} {leading : Leading}
    (h : readLeadingAt source pos = some (leading, next)) : pos ≤ next := by
  obtain ⟨⟨word, next'⟩, hword, heq⟩ := Option.map_eq_some_iff.1 h
  cases heq
  exact le_of_readWordAt hword

structure Positions where
  close : Nat
  alternate : Option Nat
  closing : Nat

/-- Looks for the closer of a block from a position on, inside `depth` more blocks of the same sort.
-/
def scanAt (source : List Char) (block : Block) (depth : Nat) (alternate : Option Nat) (pos : Nat) :
    Option (Except Nat Positions) :=
  match _h : nextTerminatorAt (utf8 source) pos with
  | none => some (.error pos)
  | some found =>
    match _h' : readLeadingAt source (found + 1) with
    | none => none
    | some (.keyword k, next) =>
      if k = block.opener then scanAt source block (depth + 1) alternate next
      else if k = block.closer then
        match depth with
        | 0 => some (.ok { close := next, alternate, closing := found + 1 })
        | outer + 1 => scanAt source block outer alternate next
      else if block = .conditional ∧ k = .elseBranch ∧ depth = 0 ∧ alternate = none then
        scanAt source block depth (some next) next
      else scanAt source block depth alternate next
    | some (_, next) => scanAt source block depth alternate next
termination_by (utf8 source).length - pos
decreasing_by
  all_goals
    have hfound := le_of_nextTerminatorAt _h
    have hnext := le_of_readLeadingAt _h'
    omega

def scanBlockAt (source : List Char) (block : Block) (pos : Nat) : Option (Except Nat Positions) :=
  scanAt source block 0 none pos

/-! ## Places between characters

The two descriptions of a place: a number of bytes, and the text ahead. `Stands` relates them, and
each reader of the cursor is compared with its counterpart under this relation. A run of a class of
bytes is a run of characters, and after it the relation holds again. -/

/-- The position is between two characters, and this is the text ahead. -/
def Stands (source : List Char) (pos : Nat) (ahead : List Char) : Prop :=
  ∃ front, source = front ++ ahead ∧ pos = byteSize front

theorem isBoundary_iff_exists_stands {source : List Char} {pos : Nat} :
    IsBoundary (utf8 source) pos ↔ ∃ ahead, Stands source pos ahead := by
  constructor
  · intro h
    obtain ⟨front, ahead, rfl, rfl⟩ := h.exists_append
    exact ⟨ahead, front, rfl, rfl⟩
  · rintro ⟨ahead, front, rfl, rfl⟩
    exact isBoundary_byteSize front ahead

/-- A frame of a run has come to such a position. -/
theorem Frame.Within.stands {ω : Type} {text : List Char} {f : Frame ω} (h : f.Within text) :
    Stands text (byteSize text - byteSize f.rest) f.rest := by
  obtain ⟨⟨front, hfront⟩, -⟩ := h
  exact ⟨front, hfront.symm, by rw [← hfront, byteSize_append, Nat.add_sub_cancel]⟩

/-- The characters that a parameter does not go over. -/
def isSpecial (c : Char) : Bool :=
  c == ';' || c == ',' || c == '#'

/-- The characters that the search for a terminator does not go over. -/
def endsLine (c : Char) : Bool :=
  c == ';' || c == '#'

namespace Byte

theorem agree_isNewline : Text.Agree isNewline (· == '\n') :=
  Text.Agree.beq (by decide)

theorem agree_endsLine : Text.Agree endsLine Script.endsLine :=
  (Text.Agree.beq (by decide)).or (Text.Agree.beq (by decide))

theorem agree_isSpecial : Text.Agree isSpecial Script.isSpecial :=
  ((Text.Agree.beq (by decide)).or (Text.Agree.beq (by decide))).or (Text.Agree.beq (by decide))

end Byte

section

variable {source ahead : List Char} {pos : Nat} (h : Stands source pos ahead)

include h

/-- Behind a run of a class the cursor is between two characters again, and the run can be cut out. -/
theorem Stands.run {p : UInt8 → Bool} {q : Char → Bool} (hpq : Text.Agree p q) :
    Stands source (behind p (utf8 source) pos) (ahead.dropWhile q) ∧
      slice? source pos (behind p (utf8 source) pos) = some (ahead.takeWhile q) := by
  obtain ⟨front, rfl, rfl⟩ := h
  have hbehind : behind p (utf8 (front ++ ahead)) (byteSize front) =
      byteSize (front ++ ahead.takeWhile q) := by
    rw [behind, utf8_append, ← length_utf8 front, List.drop_left, hpq.takeWhile_utf8, length_utf8,
      length_utf8, byteSize_append]
  have hslice := slice?_append front (ahead.takeWhile q) (ahead.dropWhile q)
  rw [List.takeWhile_append_dropWhile] at hslice
  rw [hbehind]
  refine ⟨⟨front ++ ahead.takeWhile q, ?_, rfl⟩, hslice⟩
  rw [List.append_assoc, List.takeWhile_append_dropWhile]

theorem Stands.upTo {p : UInt8 → Bool} {q : Char → Bool} (hpq : Text.Agree p q) :
    Stands source (upTo p (utf8 source) pos) (ahead.dropWhile fun c => !q c) ∧
      slice? source pos (Script.upTo p (utf8 source) pos) = some (ahead.takeWhile fun c => !q c) :=
  h.run hpq.not

/-- A byte of a character of one byte is that character. Zero, which stands for the end, is none that
the cursor looks for. -/
theorem Stands.byteAt_eq_iff {d : Char} (hd : d.toNat < 128) (hzero : byte d ≠ 0) :
    byteAt (utf8 source) pos = byte d ↔ ahead.head? = some d := by
  obtain ⟨front, rfl, rfl⟩ := h
  cases ahead with
  | nil =>
      have hend : (utf8 (front ++ []))[byteSize front]? = none := by
        rw [List.append_nil]
        exact List.getElem?_eq_none (Nat.le_of_eq (length_utf8 front))
      rw [byteAt, hend]
      exact ⟨fun h => absurd h.symm hzero, fun h => by cases h⟩
  | cons c rest =>
      obtain ⟨b, hbyte, hb⟩ := exists_getElem?_utf8 front c rest
      have hbeq : (b == byte d) = (c == d) := Text.Agree.beq hd c b hb
      rw [byteAt, hbyte, Option.getD_some, List.head?_cons, Option.some.injEq, ← beq_iff_eq, hbeq,
        beq_iff_eq]

theorem Stands.exists_of_byteAt {d : Char} (hd : d.toNat < 128) (hzero : byte d ≠ 0)
    (hbyte : byteAt (utf8 source) pos = byte d) : ∃ rest, ahead = d :: rest :=
  List.head?_eq_some_iff.1 ((h.byteAt_eq_iff hd hzero).1 hbyte)

/-- One character of one byte is passed. -/
theorem Stands.tail {c : Char} {rest : List Char} (hahead : ahead = c :: rest)
    (hc : c.utf8Size = 1) : Stands source (pos + 1) rest := by
  subst hahead
  obtain ⟨front, rfl, rfl⟩ := h
  exact ⟨front ++ [c], by rw [List.append_assoc]; rfl, by simp [hc]⟩

end

/-! ## Gaps

A gap is a loop over blanks and comments for the cursor, and a recursion over characters for the
reader. The induction is on the length of what is ahead. -/

theorem skipGap_dropWhile_isBlank (t : List Char) :
    skipGap (t.dropWhile Text.isBlank) = skipGap t := by
  induction t with
  | nil => rfl
  | cons c t ih =>
      by_cases hblank : Text.isBlank c = true
      · rw [List.dropWhile_cons_of_pos hblank, skipGap_cons_blank hblank, ih]
      · rw [List.dropWhile_cons_of_neg hblank]

/-- To pass a comment up to its newline first makes no difference to `inside`, which goes over comments
one character at a time. -/
theorem apply_dropWhile_newline {α : Type} (outside inside : List Char → α)
    (hnil : outside [] = inside []) (hnewline : ∀ t, outside ('\n' :: t) = inside ('\n' :: t))
    (hpass : ∀ {c : Char}, c ≠ '\n' → ∀ t, inside (c :: t) = inside t) (t : List Char) :
    outside (t.dropWhile fun c => !(c == '\n')) = inside t := by
  induction t with
  | nil => exact hnil
  | cons c t ih =>
      by_cases hc : c = '\n'
      · subst hc
        exact hnewline t
      · rw [List.dropWhile_cons_of_pos (by simpa using hc), hpass hc, ih]

theorem skipGap_dropWhile_newline (t : List Char) :
    skipGap (t.dropWhile fun c => !(c == '\n')) = skipGapFrom true t :=
  apply_dropWhile_newline skipGap (skipGapFrom true) rfl (fun _ => rfl) skipGapFrom_of_ne_newline t

theorem stands_skipGapAt {source ahead : List Char} {pos : Nat} (h : Stands source pos ahead) :
    Stands source (skipGapAt (utf8 source) pos) (skipGap ahead) := by
  induction pos using skipGapAt.induct (utf8 source) generalizing ahead with
  | case1 pos hhash ih =>
      have hhere := (h.run Byte.agree_isBlank).1
      obtain ⟨rest, hrest⟩ := hhere.exists_of_byteAt (by decide) (by decide) hhash
      have hnext := ih (hhere.upTo Byte.agree_isNewline).1
      rw [hrest] at hnext
      rw [skipGapAt, dif_pos hhash, ← skipGap_dropWhile_isBlank, hrest, skipGap_cons_hash,
        ← skipGap_dropWhile_newline]
      exact hnext
  | case2 pos hhash =>
      have hhere := (h.run Byte.agree_isBlank).1
      have hstop : skipGap (ahead.dropWhile Text.isBlank) = ahead.dropWhile Text.isBlank := by
        have hvisible := head?_dropWhile_eq_false Text.isBlank ahead
        cases hahead : ahead.dropWhile Text.isBlank with
        | nil => rfl
        | cons c rest =>
            rw [hahead] at hvisible hhere
            refine skipGap_cons_of_visible (hvisible c rfl) ?_ rest
            rintro rfl
            exact hhash ((hhere.byteAt_eq_iff (by decide) (by decide)).2 rfl)
      rw [skipGapAt, dif_neg hhash, ← skipGap_dropWhile_isBlank, hstop]
      exact hhere

/-! ## Words and parameters

What is cut out is the part of the text between two positions, and it is there because both are
between characters. A parameter with comments is cut out in several parts, one for each time that
the reading starts again. -/

theorem stands_readWordAt {source ahead : List Char} {pos : Nat} (h : Stands source pos ahead) :
    ∃ next, readWordAt source pos = some ((readWord ahead).1, next) ∧
      Stands source next (readWord ahead).2 := by
  have hstart := stands_skipGapAt h
  obtain ⟨hstop, hcut⟩ := hstart.run Byte.agree_isWord
  have hend := stands_skipGapAt hstop
  unfold readWordAt readWord
  dsimp only
  rw [hcut]
  dsimp only [Option.bind_eq_bind, Option.bind_some]
  split
  · rename_i hmark
    refine ⟨_, rfl, ?_⟩
    have hskip : skipGap ((skipGap ahead).dropWhile isWordChar) =
        (skipGap ahead).dropWhile isWordChar := by
      rcases hmark with hmark | hmark
      · obtain ⟨rest, hrest⟩ := hstop.exists_of_byteAt (by decide) (by decide) hmark
        rw [hrest]
        rfl
      · obtain ⟨rest, hrest⟩ := hstop.exists_of_byteAt (by decide) (by decide) hmark
        rw [hrest]
        rfl
    rw [hskip]
    exact hstop
  · exact ⟨_, rfl, hend⟩

theorem stands_readLeadingAt {source ahead : List Char} {pos : Nat} (h : Stands source pos ahead) :
    ∃ next, readLeadingAt source pos = some ((readLeading ahead).1, next) ∧
      Stands source next (readLeading ahead).2 := by
  obtain ⟨next, hword, hnext⟩ := stands_readWordAt h
  rw [readLeading_eq]
  exact ⟨next, by rw [readLeadingAt, hword]; rfl, hnext⟩

theorem isSpecial_iff {c : Char} : isSpecial c = true ↔ IsSpecial c := by
  simp [isSpecial, IsSpecial, or_assoc]

theorem readParamFrom_body_of_head {t : List Char} (h : ∀ c ∈ t.head?, isSpecial c = true) :
    readParamFrom .body t = readParam t := by
  cases t with
  | nil => rfl
  | cons c t => rcases isSpecial_iff.1 (h c rfl) with rfl | rfl | rfl <;> rfl

/-- A parameter is its part up to the next special character, and what is read from there. -/
theorem readParam_eq_append {t : List Char} (ht : skipGap t = t) :
    readParam t = (t.takeWhile (fun c => !isSpecial c) ++
        (readParam (t.dropWhile fun c => !isSpecial c)).1,
      (readParam (t.dropWhile fun c => !isSpecial c)).2) := by
  have hsplit := List.takeWhile_append_dropWhile (p := fun c => !isSpecial c) (l := t)
  have hcore : ∀ c ∈ t.takeWhile fun c => !isSpecial c, ¬ IsSpecial c := fun c hc hspecial => by
    simpa [isSpecial_iff.2 hspecial] using eq_true_of_mem_takeWhile c hc
  have hhead : ∀ c ∈ (t.dropWhile fun c => !isSpecial c).head?, isSpecial c = true :=
    fun c hc => by simpa using head?_dropWhile_eq_false _ t c hc
  generalize (t.takeWhile fun c => !isSpecial c) = core at *
  generalize (t.dropWhile fun c => !isSpecial c) = r at *
  cases core with
  | nil =>
      rw [List.nil_append] at hsplit
      rw [hsplit]
      rfl
  | cons c core =>
      have hc : ¬ (c = ';' ∨ c = ',') := fun hend =>
        hcore c (.head _) (hend.imp_right .inl)
      rw [← hsplit, List.cons_append] at ht
      rw [← hsplit, List.cons_append, readParam_of_cons ht hc,
        readParamFrom_body_append fun d hd => hcore d (.tail _ hd), readParamFrom_body_of_head hhead]
      rfl

theorem stands_readParamAt {source ahead : List Char} {pos : Nat} (h : Stands source pos ahead) :
    ∃ next, readParamAt source pos = some ((readParam ahead).1, next) ∧
      Stands source next (readParam ahead).2 := by
  induction pos using readParamAt.induct source generalizing ahead with
  -- one part is cut out in front of the comment, and the rest is read from the comment on
  | case1 pos hhash ih =>
      obtain ⟨hstop, hcut⟩ := (stands_skipGapAt h).upTo Byte.agree_isSpecial
      obtain ⟨next, hmore, hnext⟩ := ih hstop
      rw [← readParam_skipGap, readParam_eq_append (skipGap_skipGap ahead)]
      refine ⟨next, ?_, hnext⟩
      rw [readParamAt, dif_pos hhash, hmore, stopAt, hcut]
      rfl
  -- no comment is next, so the parameter ends with this part
  | case2 pos hhash =>
      obtain ⟨hstop, hcut⟩ := (stands_skipGapAt h).upTo Byte.agree_isSpecial
      have hhead := head?_dropWhile_eq_false (fun c => !isSpecial c) (skipGap ahead)
      have hnext := (hstop.run Byte.agree_isBlank).1
      rw [← readParam_skipGap, readParam_eq_append (skipGap_skipGap ahead)]
      have hblanks : ((skipGap ahead).dropWhile fun c => !isSpecial c).dropWhile Text.isBlank =
            ((skipGap ahead).dropWhile fun c => !isSpecial c) ∧
          readParam ((skipGap ahead).dropWhile fun c => !isSpecial c) =
            ([], (skipGap ahead).dropWhile fun c => !isSpecial c) := by
        generalize (skipGap ahead).dropWhile (fun c => !isSpecial c) = r at hstop hhead ⊢
        cases r with
        | nil => exact ⟨rfl, rfl⟩
        | cons c r =>
            rcases isSpecial_iff.1 (by simpa using hhead c rfl) with rfl | rfl | rfl
            · exact ⟨rfl, rfl⟩
            · exact ⟨rfl, rfl⟩
            · exact absurd ((hstop.byteAt_eq_iff (by decide) (by decide)).2 rfl) hhash
      rw [hblanks.1] at hnext
      rw [hblanks.2, List.append_nil]
      refine ⟨_, ?_, hnext⟩
      rw [readParamAt, dif_neg hhash, stopAt, hcut]
      rfl

/-! ## Separators and terminators

One byte is looked at. Where it is the byte that is looked for, it is a character of the text. -/

theorem stands_separatorAt? {source ahead : List Char} {pos : Nat} (h : Stands source pos ahead) :
    Option.Rel (Stands source) (separatorAt? (utf8 source) pos) (afterSeparator? ahead) := by
  unfold separatorAt?
  split
  · rename_i hcomma
    obtain ⟨rest, rfl⟩ := h.exists_of_byteAt (by decide) (by decide) hcomma
    exact .some (h.tail rfl rfl)
  · rename_i hcomma
    cases hsep : afterSeparator? ahead with
    | none => exact .none
    | some rest =>
        have hhead : ahead.head? = some ',' := by rw [afterSeparator?_eq_some_iff.1 hsep]; rfl
        exact absurd ((h.byteAt_eq_iff (by decide) (by decide)).2 hhead) hcomma

theorem isTerminatedAt_eq {source ahead : List Char} {pos : Nat} (h : Stands source pos ahead) :
    isTerminatedAt (utf8 source) pos = isTerminated ahead := by
  rw [isTerminatedAt, Bool.eq_iff_iff, beq_iff_eq, h.byteAt_eq_iff (by decide) (by decide),
    List.head?_eq_some_iff]
  constructor
  · rintro ⟨rest, rfl⟩
    rfl
  · exact exists_of_isTerminated

theorem laterStatements_dropWhile_endsLine (t : List Char) :
    laterStatements (t.dropWhile fun c => !endsLine c) = laterStatements t := by
  induction t with
  | nil => rfl
  | cons c t ih =>
      by_cases hc : endsLine c = true
      · rw [List.dropWhile_cons_of_neg (by simpa using hc)]
      · rw [List.dropWhile_cons_of_pos (by simpa using hc), ih]
        have hne : c ≠ ';' ∧ c ≠ '#' := by simpa [endsLine] using hc
        rw [laterStatements_cons_of_ne t hne.1 hne.2]

theorem laterStatements_dropWhile_newline (t : List Char) :
    laterStatements (t.dropWhile fun c => !(c == '\n')) = statementsFrom true t :=
  apply_dropWhile_newline laterStatements (statementsFrom true) rfl (fun _ => rfl)
    statementsFrom_of_ne_newline t

theorem stands_nextTerminatorAt {source ahead : List Char} {pos : Nat}
    (h : Stands source pos ahead) :
    Option.Rel (Stands source) (nextTerminatorAt (utf8 source) pos) (nextTerminator? ahead) := by
  induction pos using nextTerminatorAt.induct (utf8 source) generalizing ahead with
  | case1 pos hsemi =>
      have hfound := (h.upTo Byte.agree_endsLine).1
      obtain ⟨rest, hrest⟩ := hfound.exists_of_byteAt (by decide) (by decide) hsemi
      rw [hrest] at hfound
      rw [nextTerminatorAt, if_pos hsemi, nextTerminator?, ← laterStatements_dropWhile_endsLine,
        hrest]
      exact .some hfound
  | case2 pos hsemi hhash ih =>
      have hfound := (h.upTo Byte.agree_endsLine).1
      obtain ⟨rest, hrest⟩ := hfound.exists_of_byteAt (by decide) (by decide) hhash
      have hnext := ih (hfound.upTo Byte.agree_isNewline).1
      rw [hrest, nextTerminator?, laterStatements_dropWhile_newline] at hnext
      rw [nextTerminatorAt, if_neg hsemi, dif_pos hhash, nextTerminator?,
        ← laterStatements_dropWhile_endsLine, hrest]
      exact hnext
  | case3 pos hsemi hhash =>
      have hfound := (h.upTo Byte.agree_endsLine).1
      have hhead := head?_dropWhile_eq_false (fun c => !endsLine c) ahead
      rw [nextTerminatorAt, if_neg hsemi, dif_neg hhash, nextTerminator?,
        ← laterStatements_dropWhile_endsLine]
      generalize ahead.dropWhile (fun c => !endsLine c) = r at hfound hhead ⊢
      cases r with
      | nil => exact .none
      | cons c r =>
          have hc : c = ';' ∨ c = '#' := by simpa [endsLine, or_iff_not_imp_left] using hhead c rfl
          rcases hc with rfl | rfl
          · exact absurd ((hfound.byteAt_eq_iff (by decide) (by decide)).2 rfl) hsemi
          · exact absurd ((hfound.byteAt_eq_iff (by decide) (by decide)).2 rfl) hhash

/-! ## Blocks

The search for the end of a block goes from terminator to terminator and reads the words behind
them, with the parts above. The landmarks are places, so they are compared one by one. -/

/-- The places of a block, or the place of the last look. -/
inductive ScanStands (source : List Char) :
    Except Nat Positions → Except (List Char) Landmarks → Prop
  | ok {places : Positions} {marks : Landmarks} : Stands source places.close marks.close →
      Option.Rel (Stands source) places.alternate marks.alternate →
      Stands source places.closing marks.closing → ScanStands source (.ok places) (.ok marks)
  | error {pos : Nat} {here : List Char} : Stands source pos here →
      ScanStands source (.error pos) (.error here)

section

variable {source : List Char} {block : Block} {depth : Nat} {alternate : Option Nat}
  {pos found next : Nat}

theorem scanAt_of_none (h : nextTerminatorAt (utf8 source) pos = none) :
    scanAt source block depth alternate pos = some (.error pos) := by
  rw [scanAt]
  split
  · rfl
  · rename_i heq
    cases h.symm.trans heq

variable (h : nextTerminatorAt (utf8 source) pos = some found)

include h

theorem scanAt_of_keyword {k : Keyword}
    (hread : readLeadingAt source (found + 1) = some (.keyword k, next)) :
    scanAt source block depth alternate pos =
      if k = block.opener then scanAt source block (depth + 1) alternate next
      else if k = block.closer then
        match depth with
        | 0 => some (.ok { close := next, alternate, closing := found + 1 })
        | outer + 1 => scanAt source block outer alternate next
      else if block = .conditional ∧ k = .elseBranch ∧ depth = 0 ∧ alternate = none then
        scanAt source block depth (some next) next
      else scanAt source block depth alternate next := by
  rw [scanAt]
  split
  · rename_i heq
    cases h.symm.trans heq
  · rename_i heq
    cases h.symm.trans heq
    split
    · rename_i heq
      cases hread.symm.trans heq
    · rename_i heq
      cases hread.symm.trans heq
      rfl
    · rename_i hne heq
      cases hread.symm.trans heq
      exact absurd rfl (hne k)

theorem scanAt_of_other {leading : Leading} (hleading : ∀ k, leading ≠ .keyword k)
    (hread : readLeadingAt source (found + 1) = some (leading, next)) :
    scanAt source block depth alternate pos = scanAt source block depth alternate next := by
  rw [scanAt]
  split
  · rename_i heq
    cases h.symm.trans heq
  · rename_i heq
    cases h.symm.trans heq
    split
    · rename_i heq
      cases hread.symm.trans heq
    · rename_i k _ heq
      cases hread.symm.trans heq
      exact absurd rfl (hleading k)
    · rename_i heq
      cases hread.symm.trans heq
      rfl

end

theorem stands_scanAt {source : List Char} (block : Block) {depth : Nat} {alternate : Option Nat}
    {alternate' : Option (List Char)} {pos : Nat} {here : List Char}
    (halternate : Option.Rel (Stands source) alternate alternate') (h : Stands source pos here) :
    ∃ r, scanAt source block depth alternate pos = some r ∧
      ScanStands source r (scanStatements block depth alternate' here (laterStatements here)) := by
  -- the induction is on the bytes that are left
  induction hn : (utf8 source).length - pos using Nat.strongRecOn
    generalizing depth alternate alternate' pos here with
  | ind n ih =>
      have hterm := stands_nextTerminatorAt h
      rcases hfound : nextTerminatorAt (utf8 source) pos with _ | found
      · rw [hfound] at hterm
        generalize hnext : nextTerminator? here = t at hterm
        cases hterm
        rw [scanAt_of_none hfound, laterStatements_eq_nextTerminator?, hnext]
        exact ⟨_, rfl, .error h⟩
      rw [hfound] at hterm
      generalize hnext : nextTerminator? here = t at hterm
      cases hterm with
      | @some _ t hterm =>
          obtain ⟨_, statement, rfl, -⟩ := exists_of_nextTerminator? hnext
          have hstatement : Stands source (found + 1) statement := hterm.tail rfl rfl
          obtain ⟨next, hread, hahead⟩ := stands_readLeadingAt hstatement
          have hnone : alternate = none ↔ alternate' = none := by
            cases halternate <;> simp
          have hlater : (utf8 source).length - next < n := by
            have hlt := le_of_nextTerminatorAt hfound
            have hle := le_of_readLeadingAt hread
            omega
          generalize hl : readLeading statement = r at hread hahead
          obtain ⟨leading, ahead⟩ := r
          rw [laterStatements_of_nextTerminator? hnext, ← laterStatements_readLeading hl,
            scanStatements, hl]
          cases leading with
          | nothing | unknown _ =>
              rw [scanAt_of_other hfound (fun _ hk => by cases hk) hread]
              exact ih _ hlater halternate hahead rfl
          | keyword k =>
              rw [scanAt_of_keyword hfound hread]
              simp only [hnone]
              split
              · exact ih _ hlater halternate hahead rfl
              split
              · cases depth with
                | zero => exact ⟨_, rfl, .ok hahead halternate hstatement⟩
                | succ outer => exact ih _ hlater halternate hahead rfl
              split
              · exact ih _ hlater (.some hahead) hahead rfl
              · exact ih _ hlater halternate hahead rfl

theorem stands_scanBlockAt {source header : List Char} {pos : Nat} (block : Block)
    (h : Stands source pos header) :
    ∃ r, scanBlockAt source block pos = some r ∧ ScanStands source r (scanBlock block header) :=
  stands_scanAt block .none h

/-! ## All readers

The comparison for all readers at once, from any position between two characters. With it the places
at which the frames of a run stand are places of the cursor (`Frame.Within.stands`). -/

/-- From a position between two characters every reader of the cursor comes to such a position again,
cuts out no part of a character, and reads what is read from the text ahead. -/
theorem cursor_bytewise {source : List Char} {pos : Nat} (h : IsBoundary (utf8 source) pos) :
    ∃ ahead, Stands source pos ahead ∧
      Stands source (skipGapAt (utf8 source) pos) (skipGap ahead) ∧
      (∃ next, readWordAt source pos = some ((readWord ahead).1, next) ∧
        Stands source next (readWord ahead).2) ∧
      (∃ next, readParamAt source pos = some ((readParam ahead).1, next) ∧
        Stands source next (readParam ahead).2) ∧
      isTerminatedAt (utf8 source) pos = isTerminated ahead ∧
      Option.Rel (Stands source) (separatorAt? (utf8 source) pos) (afterSeparator? ahead) ∧
      Option.Rel (Stands source) (nextTerminatorAt (utf8 source) pos) (nextTerminator? ahead) ∧
      ∀ block, ∃ r, scanBlockAt source block pos = some r ∧
        ScanStands source r (scanBlock block ahead) := by
  obtain ⟨ahead, hstands⟩ := isBoundary_iff_exists_stands.1 h
  exact ⟨ahead, hstands, stands_skipGapAt hstands, stands_readWordAt hstands,
    stands_readParamAt hstands, isTerminatedAt_eq hstands, stands_separatorAt? hstands,
    stands_nextTerminatorAt hstands, fun block => stands_scanBlockAt block hstands⟩

end NumScript.Script
