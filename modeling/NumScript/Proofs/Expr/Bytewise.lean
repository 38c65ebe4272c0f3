import NumScript.Proofs.Expr.Spelling
import NumScript.Proofs.Text.Slices

set_option autoImplicit false

/-! # Reading an expression by its bytes

An expression can be read with a position among the bytes of its text. The byte at the position says
what is read there, single bytes say how far it reaches, and its text is cut out of the expression
(`turn`). The position is then between two characters whenever something is read, what is cut out is
not empty and no part of a character, and the position moves forward in every turn, until the text or
the conversion ends (`Station.Sound`). The conversion comes to the same as the one over the lexemes
of the text. That is `toPostfix_bytewise`, for every text and all names.

For this the classes of bytes must agree with those of the characters (`Text.Agree`), and the bytes of
a character that is longer than one byte must all continue a symbol and nothing else.
-/

namespace NumScript.Expr

open Text

/-! ## Classes of bytes

The tests that a reader by bytes makes, written as the tests on characters are. That they agree is
shown by their shape (`Text.Agree.or`, `.not`, `.between`), so no proof here looks at single bytes.
-/

namespace Byte

def isBlank (b : UInt8) : Bool :=
  b == byte ' ' || b == byte '\t' || b == byte '\n' || b == byte '\x0c' || b == byte '\r'

def isDigit (b : UInt8) : Bool :=
  '0'.toNat ≤ b.toNat && b.toNat ≤ '9'.toNat

def isLetter (b : UInt8) : Bool :=
  'A'.toNat ≤ b.toNat && b.toNat ≤ 'Z'.toNat || 'a'.toNat ≤ b.toNat && b.toNat ≤ 'z'.toNat

def isNumber (b : UInt8) : Bool :=
  isDigit b || b == byte '.'

def isWordStart (b : UInt8) : Bool :=
  isLetter b || b == byte '_'

def isWord (b : UInt8) : Bool :=
  isLetter b || isDigit b || b == byte '_'

def isSingleSymbol (b : UInt8) : Bool :=
  b == byte '+' || b == byte '-' || b == byte '*' || b == byte '/' || b == byte '%' || b == byte '^'

def isSymbol (b : UInt8) : Bool :=
  !(isBlank b || isDigit b || isWord b || b == byte '(' || b == byte ')' || isSingleSymbol b)

theorem agree_isBlank : Agree isBlank Text.isBlank :=
  ((((Agree.beq (by decide)).or (Agree.beq (by decide))).or (Agree.beq (by decide))).or
    (Agree.beq (by decide))).or (Agree.beq (by decide))

theorem agree_isDigit : Agree isDigit Char.isDigit :=
  Agree.between '0' '9' (by decide)

theorem agree_isLetter : Agree isLetter Char.isAlpha := by
  have hupper : Agree _ Char.isUpper := fun c b hb =>
    (Agree.between 'A' 'Z' (by decide) c b hb).trans (Bool.decide_and _ _).symm
  have hlower : Agree _ Char.isLower := Agree.between 'a' 'z' (by decide)
  exact hupper.or hlower

theorem agree_isNumber : Agree isNumber isNumberChar :=
  agree_isDigit.or (Agree.beq (by decide))

theorem agree_isWordStart : Agree isWordStart Expr.isWordStart :=
  agree_isLetter.or (Agree.beq (by decide))

theorem agree_isWord : Agree isWord isWordChar :=
  (agree_isLetter.or agree_isDigit).or (Agree.beq (by decide))

theorem agree_isSingleSymbol : Agree isSingleSymbol Expr.isSingleSymbol :=
  (((((Agree.beq (by decide)).or (Agree.beq (by decide))).or (Agree.beq (by decide))).or
    (Agree.beq (by decide))).or (Agree.beq (by decide))).or (Agree.beq (by decide))

theorem agree_isSymbol : Agree isSymbol isSymbolChar := by
  have hclasses := ((((agree_isBlank.or agree_isDigit).or agree_isWord).or
    (Agree.beq (d := '(') (by decide))).or (Agree.beq (d := ')') (by decide))).or
      agree_isSingleSymbol
  intro c b hb
  refine (hclasses.not c b hb).trans ?_
  dsimp only
  rw [isSymbolChar]
  -- a digit continues a word, so it makes no difference that it is named twice
  cases hdigit : c.isDigit with
  | false => rw [Bool.or_false]
  | true =>
      have hword : isWordChar c = true := by
        rw [isWordChar, Char.isAlphanum, hdigit, Bool.or_true, Bool.true_or]
      simp only [hword, Bool.or_true, Bool.true_or]

end Byte

/-! ## Reading at a position

One turn of the reader, as a function of the text and the position. It returns what it found as
data, a failed cut included, so that it can be said that no cut fails. In front of a character it
finds what `Lexeme.first` finds. -/

inductive Turn where
  /-- The text ends here. -/
  | finished
  /-- A blank, and the position behind it. -/
  | skipped (next : Nat)
  /-- A lexeme, and the position behind it. -/
  | read (l : Lexeme) (next : Nat)
  /-- A part of a text that cannot be cut out. -/
  | stuck

/-- The position behind the bytes of a class. -/
def behind (p : UInt8 → Bool) (bytes : List UInt8) (pos : Nat) : Nat :=
  pos + ((bytes.drop pos).takeWhile p).length

/-- What is cut out of a text from one position to another. -/
def Turn.cut (source : List Char) (sort : List Char → Lexeme) (start stop : Nat) : Turn :=
  match slice? source start stop with
  | some text => .read (sort text) stop
  | none => .stuck

/-- What the byte at a position says. A minus sign where an operand is due is known without its text.
Where nothing else fits, a symbol is cut out. -/
def turn (source : List Char) (operandDue : Bool) (pos : Nat) : Turn :=
  let bytes := utf8 source
  match bytes[pos]? with
  | none => .finished
  | some b =>
    if Byte.isBlank b then .skipped (pos + 1)
    else if Byte.isDigit b then .cut source .number pos (behind Byte.isNumber bytes pos)
    else if Byte.isWordStart b then .cut source .word pos (behind Byte.isWord bytes pos)
    else if b == byte '(' then .read .opening (pos + 1)
    else if b == byte ')' then .read .closing (pos + 1)
    else if b == byte '-' && operandDue then .read (.symbol ['-']) (pos + 1)
    else if Byte.isSingleSymbol b then .cut source .symbol pos (pos + 1)
    else .cut source .symbol pos (behind Byte.isSymbol bytes pos)

theorem utf8Size_of_isBlank {c : Char} (h : Text.isBlank c = true) : c.utf8Size = 1 := by
  simp only [Text.isBlank, Bool.or_eq_true, beq_iff_eq] at h
  rcases h with (((rfl | rfl) | rfl) | rfl) | rfl <;> rfl

theorem utf8Size_of_isSingleSymbol {c : Char} (h : isSingleSymbol c = true) : c.utf8Size = 1 := by
  simp only [isSingleSymbol, Bool.or_eq_true, beq_iff_eq] at h
  rcases h with ((((rfl | rfl) | rfl) | rfl) | rfl) | rfl <;> rfl

theorem isWordChar_of_isWordStart {c : Char} (h : isWordStart c = true) : isWordChar c = true := by
  rw [isWordStart, Bool.or_eq_true] at h
  simp only [isWordChar, Char.isAlphanum, Bool.or_eq_true]
  exact h.imp_left .inl

/-- What is not the start of another lexeme continues a symbol. -/
theorem isSymbolChar_of_startsSymbol {c : Char} (h : Lexeme.startsSymbol c = true)
    (hsingle : isSingleSymbol c = false) : isSymbolChar c = true := by
  simp only [Lexeme.startsSymbol, isWordStart, Bool.not_eq_true', Bool.or_eq_false_iff] at h
  obtain ⟨⟨⟨⟨hblank, hdigit⟩, halpha, hunder⟩, hopening⟩, hclosing⟩ := h
  simp only [isSymbolChar, isWordChar, Char.isAlphanum, hblank, hdigit, halpha, hunder, hopening,
    hclosing, hsingle, Bool.or_false, Bool.not_false]

theorem Lexeme.Proper.text_ne_nil {l : Lexeme} (h : l.Proper) : l.text ≠ [] := by
  intro htext
  cases l with
  | number t =>
      obtain ⟨c, rest, rfl, -⟩ := h
      cases htext
  | word t =>
      obtain ⟨c, rest, rfl, -⟩ := h
      cases htext
  | opening => cases htext
  | closing => cases htext
  | symbol t =>
      rcases h with ⟨c, rfl, -⟩ | ⟨c, rest, rfl, -⟩
      · cases htext
      · cases htext

section

variable {front rest : List Char} {c : Char}

/-- A run of characters of a class is cut out. -/
theorem cut_behind {p : UInt8 → Bool} {q : Char → Bool} (h : Agree p q) (hc : q c = true)
    (sort : List Char → Lexeme) :
    Turn.cut (front ++ c :: rest) sort (byteSize front)
        (behind p (utf8 (front ++ c :: rest)) (byteSize front)) =
      .read (sort (c :: rest.takeWhile q)) (byteSize (front ++ c :: rest.takeWhile q)) := by
  have hbehind : behind p (utf8 (front ++ c :: rest)) (byteSize front) =
      byteSize (front ++ c :: rest.takeWhile q) := by
    rw [behind, utf8_append, ← length_utf8 front, List.drop_left, h.takeWhile_utf8,
      List.takeWhile_cons_of_pos hc, length_utf8, length_utf8, byteSize_append]
  have hslice := slice?_append front (c :: rest.takeWhile q) (rest.dropWhile q)
  rw [List.cons_append, List.takeWhile_append_dropWhile] at hslice
  rw [Turn.cut, hbehind, hslice]

/-- A character of one byte is cut out. -/
theorem cut_single (hc : c.utf8Size = 1) (sort : List Char → Lexeme) :
    Turn.cut (front ++ c :: rest) sort (byteSize front) (byteSize front + 1) =
      .read (sort [c]) (byteSize (front ++ [c])) := by
  have hsize : byteSize front + 1 = byteSize (front ++ [c]) := by
    rw [byteSize_append, byteSize_cons, byteSize_nil, hc]
  have hslice := slice?_append front [c] rest
  rw [List.singleton_append] at hslice
  rw [Turn.cut, hsize, hslice]

/-- What is found in front of a character is its first lexeme, or the character is a blank. -/
theorem turn_eq (front : List Char) (c : Char) (rest : List Char) (due : Bool) :
    (Lexeme.first c rest = (none, rest) ∧
        turn (front ++ c :: rest) due (byteSize front) = .skipped (byteSize (front ++ [c]))) ∨
      ∃ l, (Lexeme.first c rest).1 = some l ∧
        turn (front ++ c :: rest) due (byteSize front) = .read l (byteSize (front ++ l.text)) := by
  obtain ⟨b, hbyte, hb⟩ := exists_getElem?_utf8 front c rest
  have hbeq {d : Char} (hd : d.toNat < 128) : (b == byte d) = (c == d) := Agree.beq hd c b hb
  have hone {d : Char} (hd : d.utf8Size = 1) : byteSize front + 1 = byteSize (front ++ [d]) := by
    rw [byteSize_append, byteSize_cons, byteSize_nil, hd]
  -- both go through the same tests in the same order, on the first byte and on the character
  unfold turn Lexeme.first
  dsimp only
  rw [hbyte]
  dsimp only
  rw [Byte.agree_isBlank c b hb, Byte.agree_isDigit c b hb, Byte.agree_isWordStart c b hb,
    Byte.agree_isSingleSymbol c b hb, hbeq (d := '(') (by decide), hbeq (d := ')') (by decide),
    hbeq (d := '-') (by decide)]
  simp only [beq_iff_eq]
  by_cases hblank : Text.isBlank c = true
  · left
    rw [if_pos hblank, if_pos hblank, hone (utf8Size_of_isBlank hblank)]
    exact ⟨rfl, rfl⟩
  right
  rw [if_neg hblank, if_neg hblank]
  by_cases hdigit : c.isDigit = true
  · rw [if_pos hdigit, if_pos hdigit]
    exact ⟨_, rfl, cut_behind Byte.agree_isNumber (by rw [isNumberChar, hdigit, Bool.true_or]) _⟩
  rw [if_neg hdigit, if_neg hdigit]
  by_cases hword : isWordStart c = true
  · rw [if_pos hword, if_pos hword]
    exact ⟨_, rfl, cut_behind Byte.agree_isWord (isWordChar_of_isWordStart hword) _⟩
  rw [if_neg hword, if_neg hword]
  by_cases hopening : c = '('
  · rw [if_pos hopening, if_pos hopening, hone (d := '(') rfl]
    exact ⟨_, rfl, rfl⟩
  rw [if_neg hopening, if_neg hopening]
  by_cases hclosing : c = ')'
  · rw [if_pos hclosing, if_pos hclosing, hone (d := ')') rfl]
    exact ⟨_, rfl, rfl⟩
  rw [if_neg hclosing, if_neg hclosing]
  by_cases hsingle : isSingleSymbol c = true
  · rw [if_pos hsingle, if_pos hsingle]
    refine ⟨_, rfl, ?_⟩
    split
    · rename_i hminus
      obtain rfl : c = '-' := by simpa using (Bool.and_eq_true_iff.1 hminus).1
      rw [hone (d := '-') rfl]
      rfl
    · exact cut_single (utf8Size_of_isSingleSymbol hsingle) _
  · -- what is left continues a symbol; a minus sign was among the single symbols
    have hminus : ¬ (c == '-' && due) = true := by
      intro h
      obtain rfl : c = '-' := by simpa using (Bool.and_eq_true_iff.1 h).1
      exact hsingle (by decide)
    rw [if_neg hsingle, if_neg hminus, if_neg hsingle]
    refine ⟨_, rfl, cut_behind Byte.agree_isSymbol ?_ _⟩
    refine isSymbolChar_of_startsSymbol ?_ (Bool.eq_false_iff.2 hsingle)
    simp only [Lexeme.startsSymbol, Bool.eq_false_iff.2 hblank, Bool.eq_false_iff.2 hdigit,
      Bool.eq_false_iff.2 hword, beq_eq_false_iff_ne.2 hopening, beq_eq_false_iff_ne.2 hclosing,
      Bool.or_false, Bool.not_false]

/-- All that can be found in front of a part of a text: the end, a blank or a lexeme. -/
theorem turn_cases (front tail : List Char) (due : Bool) :
    (tail = [] ∧ turn (front ++ tail) due (byteSize front) = .finished) ∨
      (∃ c rest, tail = c :: rest ∧ lexemes tail = lexemes rest ∧
        turn (front ++ tail) due (byteSize front) = .skipped (byteSize (front ++ [c]))) ∨
      ∃ l rest, l.text ≠ [] ∧ tail = l.text ++ rest ∧ lexemes tail = l :: lexemes rest ∧
        turn (front ++ tail) due (byteSize front) = .read l (byteSize (front ++ l.text)) := by
  cases tail with
  | nil =>
      have hnone : (utf8 (front ++ []))[byteSize front]? = none := by
        rw [List.append_nil]
        exact List.getElem?_eq_none (Nat.le_of_eq (length_utf8 front))
      refine .inl ⟨rfl, ?_⟩
      rw [turn]
      simp only [hnone]
  | cons c rest =>
      refine .inr ?_
      rcases turn_eq front c rest due with ⟨hfirst, hturn⟩ | ⟨l, hl, hturn⟩
      · refine .inl ⟨c, rest, rfl, ?_, hturn⟩
        rw [lexemes, hfirst]
        rfl
      · rcases Lexeme.first_spec c rest with ⟨-, hfirst⟩ | ⟨l', hl', hproper, htext, -⟩
        · rw [hfirst] at hl
          cases hl
        · obtain rfl : l' = l := Option.some.inj (hl'.symm.trans hl)
          refine .inr ⟨l', _, hproper.text_ne_nil, htext, ?_, hturn⟩
          rw [lexemes, hl]
          rfl

end

/-! ## The loop

The turns of the reader form a relation, and what holds at every station is proved by induction
along it. A turn takes at least one byte, so the number of turns that are left is bounded by the
bytes that are left, and an end is reached. -/

structure Station where
  pos : Nat := 0
  conversion : Conversion := {}

section

variable (names : Names) (source : List Char)

/-- The reader goes on to another station. -/
inductive Station.Next (s : Station) : Station → Prop where
  | skipped {next : Nat} : turn source s.conversion.operandDue s.pos = .skipped next →
      Next s ⟨next, s.conversion⟩
  | read {l : Lexeme} {next : Nat} {c : Conversion} :
      turn source s.conversion.operandDue s.pos = .read l next →
      s.conversion.accept names l = .ok c → Next s ⟨next, c⟩

/-- The reader ends at a station, with this result. -/
inductive Station.Ends (s : Station) : Except Error Conversion → Prop where
  | finished : turn source s.conversion.operandDue s.pos = .finished → Ends s (.ok s.conversion)
  | failed {l : Lexeme} {next : Nat} {e : Error} :
      turn source s.conversion.operandDue s.pos = .read l next →
      s.conversion.accept names l = .error e → Ends s (.error e)

/-- The station is reached after so many turns. -/
inductive Reached : Nat → Station → Prop where
  | start : Reached 0 {}
  | next {n : Nat} {s s' : Station} : Reached n s → s.Next names source s' → Reached (n + 1) s'

/-- What may be found at a position: the text ends there and nowhere else, what is cut out is neither
empty nor a part of a character, and the next position is further on, between two characters. -/
def Turn.Sound (pos : Nat) : Turn → Prop
  | .finished => pos = (utf8 source).length
  | .skipped next => pos < next ∧ IsBoundary (utf8 source) next
  | .read l next =>
    pos < next ∧ IsBoundary (utf8 source) next ∧ l.text ≠ [] ∧
      slice? source pos next = some l.text
  | .stuck => False

/-- A station lies between two characters, and the turn that is made there is sound. -/
structure Station.Sound (s : Station) : Prop where
  boundary : IsBoundary (utf8 source) s.pos
  found : (turn source s.conversion.operandDue s.pos).Sound source s.pos

variable {names source}

theorem byteSize_lt_append (front : List Char) {middle : List Char} (h : middle ≠ []) :
    byteSize front < byteSize (front ++ middle) := by
  obtain ⟨c, more, rfl⟩ := List.exists_cons_of_ne_nil h
  have := c.utf8Size_pos
  rw [byteSize_append, byteSize_cons]
  omega

theorem isBoundary_append (front middle rest : List Char) :
    IsBoundary (utf8 (front ++ (middle ++ rest))) (byteSize (front ++ middle)) := by
  rw [← List.append_assoc]
  exact isBoundary_byteSize _ rest

/-- A turn takes a part of the text that is left, and the lexemes that are left with it. -/
theorem Station.Next.exists_append {s s' : Station} {front tail : List Char}
    (hpos : s.pos = byteSize front) (h : s.Next names (front ++ tail) s') :
    ∃ middle rest, middle ≠ [] ∧ tail = middle ++ rest ∧ s'.pos = byteSize (front ++ middle) ∧
      (lexemes tail).foldlM (Conversion.accept names) s.conversion =
        (lexemes rest).foldlM (Conversion.accept names) s'.conversion := by
  have hcases := turn_cases front tail s.conversion.operandDue
  rw [← hpos] at hcases
  cases h with
  | skipped hturn =>
      rcases hcases with ⟨-, h⟩ | ⟨c, rest, rfl, hlexemes, h⟩ | ⟨l, rest, -, -, -, h⟩
      · cases h.symm.trans hturn
      · cases h.symm.trans hturn
        exact ⟨[c], rest, List.cons_ne_nil c [], rfl, rfl, by rw [hlexemes]⟩
      · cases h.symm.trans hturn
  | read hturn haccept =>
      rcases hcases with ⟨-, h⟩ | ⟨c, rest, -, -, h⟩ | ⟨l, rest, hl, rfl, hlexemes, h⟩
      · cases h.symm.trans hturn
      · cases h.symm.trans hturn
      · cases h.symm.trans hturn
        refine ⟨_, rest, hl, rfl, rfl, ?_⟩
        rw [hlexemes, List.foldlM_cons, haccept]
        rfl

/-- A station that is reached lies between two parts of the text, and is at least as many bytes into
it as there were turns. From there on the lexemes that are left are converted. -/
theorem Reached.exists_append {n : Nat} {s : Station} (h : Reached names source n s) :
    ∃ front tail, source = front ++ tail ∧ s.pos = byteSize front ∧ n ≤ s.pos ∧
      (lexemes source).foldlM (Conversion.accept names) {} =
        (lexemes tail).foldlM (Conversion.accept names) s.conversion := by
  induction h with
  | start => exact ⟨[], source, rfl, rfl, Nat.le_refl _, rfl⟩
  | next _ hnext ih =>
      obtain ⟨front, tail, rfl, hpos, hle, hfold⟩ := ih
      obtain ⟨middle, rest, hmiddle, rfl, hpos', hfold'⟩ := hnext.exists_append hpos
      have hlt := byteSize_lt_append front hmiddle
      exact ⟨front ++ middle, rest, (List.append_assoc _ _ _).symm, hpos', by omega,
        hfold.trans hfold'⟩

theorem Reached.sound {n : Nat} {s : Station} (h : Reached names source n s) :
    s.Sound source := by
  obtain ⟨front, tail, rfl, hpos, -⟩ := h.exists_append
  refine ⟨hpos ▸ isBoundary_byteSize front tail, ?_⟩
  rw [hpos]
  rcases turn_cases front tail s.conversion.operandDue with
    ⟨rfl, hturn⟩ | ⟨c, rest, rfl, -, hturn⟩ | ⟨l, rest, hl, rfl, -, hturn⟩
  · rw [hturn, Turn.Sound, List.append_nil, length_utf8]
  · rw [hturn]
    exact ⟨byteSize_lt_append front (List.cons_ne_nil c []), isBoundary_append front [c] rest⟩
  · rw [hturn]
    exact ⟨byteSize_lt_append front hl, isBoundary_append front l.text rest, hl,
      slice?_append front l.text rest⟩

/-- Where a turn is sound, the reader goes on or ends. -/
theorem Station.Sound.progress (names : Names) {s : Station} (h : s.Sound source) :
    (∃ outcome, s.Ends names source outcome) ∨ ∃ s', s.Next names source s' := by
  have hsound := h.found
  cases hturn : turn source s.conversion.operandDue s.pos with
  | finished => exact .inl ⟨_, .finished hturn⟩
  | skipped next => exact .inr ⟨_, .skipped hturn⟩
  | read l next =>
      cases haccept : s.conversion.accept names l with
      | error e => exact .inl ⟨_, .failed hturn haccept⟩
      | ok c => exact .inr ⟨_, .read hturn haccept⟩
  | stuck =>
      rw [hturn] at hsound
      exact hsound.elim

theorem Reached.pos_le {n : Nat} {s : Station} (h : Reached names source n s) :
    n ≤ s.pos ∧ s.pos ≤ (utf8 source).length := by
  obtain ⟨front, tail, rfl, hpos, hle, -⟩ := h.exists_append
  refine ⟨hle, ?_⟩
  rw [hpos, length_utf8, byteSize_append]
  exact Nat.le_add_right _ _

/-- From every station that is reached an end is reached. The induction is on the number of turns
that the length of the text still allows. -/
theorem Reached.exists_ends {n : Nat} {s : Station} (h : Reached names source n s) :
    ∃ n' s' outcome, Reached names source n' s' ∧ s'.Ends names source outcome := by
  induction hk : (utf8 source).length - n generalizing n s with
  | zero =>
      rcases h.sound.progress names with ⟨outcome, hends⟩ | ⟨s', hnext⟩
      · exact ⟨n, s, outcome, h, hends⟩
      · have hmore := (h.next hnext).pos_le
        omega
  | succ k ih =>
      rcases h.sound.progress names with ⟨outcome, hends⟩ | ⟨s', hnext⟩
      · exact ⟨n, s, outcome, h, hends⟩
      · exact ih (h.next hnext) (by omega)

/-- The end of a text gives what its lexemes give. -/
theorem Reached.outcome {n : Nat} {s : Station} {outcome : Except Error Conversion}
    (h : Reached names source n s) (hends : s.Ends names source outcome) :
    outcome = (lexemes source).foldlM (Conversion.accept names) {} := by
  obtain ⟨front, tail, rfl, hpos, -, hfold⟩ := h.exists_append
  have hcases := turn_cases front tail s.conversion.operandDue
  rw [← hpos] at hcases
  rw [hfold]
  cases hends with
  | finished hturn =>
      rcases hcases with ⟨rfl, -⟩ | ⟨c, rest, -, -, h⟩ | ⟨l, rest, -, -, -, h⟩
      · rw [lexemes]
        rfl
      · cases h.symm.trans hturn
      · cases h.symm.trans hturn
  | failed hturn haccept =>
      rcases hcases with ⟨-, h⟩ | ⟨c, rest, -, -, h⟩ | ⟨l, rest, -, rfl, hlexemes, h⟩
      · cases h.symm.trans hturn
      · cases h.symm.trans hturn
      · cases h.symm.trans hturn
        rw [hlexemes, List.foldlM_cons, haccept]
        rfl

/-- Every turn of a reader by bytes is sound, there are no more turns than bytes, and the reader ends
with what is read from the characters. -/
theorem toPostfix_bytewise (names : Names) (source : List Char) :
    (∀ n s, Reached names source n s →
      n ≤ s.pos ∧ s.pos ≤ (utf8 source).length ∧ s.Sound source) ∧
    (∃ n s outcome, Reached names source n s ∧ s.Ends names source outcome) ∧
    ∀ n s outcome, Reached names source n s → s.Ends names source outcome →
      toPostfix names source = do
        checkBrackets source
        return (← outcome).finish := by
  refine ⟨fun n s h => ⟨h.pos_le.1, h.pos_le.2, h.sound⟩, Reached.start.exists_ends, ?_⟩
  intro n s outcome h hends
  rw [h.outcome hends, toPostfix]

end

end NumScript.Expr
