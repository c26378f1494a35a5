import Flowchart.Json.Reader
import Flowchart.Json.Writer
import Flowchart.Proofs.Text.Trim

/-! # Written scalars — strings and numbers are read back

    Whatever a string holds, its written form has one piece for each character,
    and the pieces join to the string again (`readString?_quote`).  A number is
    written without needless zeros and has no fraction, so it is read whole and
    as itself, as long as nothing follows that would go on with it
    (`readNumber?_toDigits`). -/

namespace Flowchart.Json

/-! ## Strings -/

/-- What a written character is read as: itself, or its code if it was written as
    an escaped code unit. -/
inductive Piece.Shows : Piece → Char → Prop
  | char (c : Char) : (char c).Shows c
  | unit {c : Char} (h : c.toNat < 0x20) : (unit c.toNat).Shows c

theorem hexValue?_hexDigit : ∀ n < 16, hexValue? (hexDigit n) = some n := by decide

/-- The four digits of a small code. -/
theorem codeUnit?_hexDigit {n : Nat} (h : n < 0x20) :
    codeUnit? '0' '0' (hexDigit (n / 16)) (hexDigit (n % 16)) = some n := by
  have hzero : hexValue? '0' = some 0 := by decide
  rw [codeUnit?, hzero, hexValue?_hexDigit (n / 16) (by omega),
    hexValue?_hexDigit (n % 16) (by omega)]
  show some (((0 * 16 + 0) * 16 + n / 16) * 16 + n % 16) = some n
  rw [Option.some_inj]
  omega

/-- The ways in which a character is written. -/
inductive Spelling (c : Char) : List Char → Prop
  /-- A backslash before a character that stands for it. -/
  | short {e : Char} (hunit : e ≠ 'u') (h : unescape? e = some c) : Spelling c ['\\', e]
  | unit (h : c.toNat < 0x20) :
      Spelling c ['\\', 'u', '0', '0', hexDigit (c.toNat / 16), hexDigit (c.toNat % 16)]
  | plain (hquote : c ≠ '"') (hslash : c ≠ '\\') (hcontrol : ¬ c.toNat < 0x20) : Spelling c [c]

theorem spelling_escape (c : Char) : Spelling c (escape c) := by
  unfold escape
  split_ifs with hquote hslash hbackspace htab hfeed hform hreturn hcontrol
  · subst hquote
    exact .short (by decide) rfl
  · subst hslash
    exact .short (by decide) rfl
  · subst hbackspace
    exact .short (by decide) rfl
  · subst htab
    exact .short (by decide) rfl
  · subst hfeed
    exact .short (by decide) rfl
  · subst hform
    exact .short (by decide) rfl
  · subst hreturn
    exact .short (by decide) rfl
  · exact .unit hcontrol
  · exact .plain hquote hslash hcontrol

/-- **A WRITTEN CHARACTER IS ONE PIECE**, whichever way it is written. -/
theorem Spelling.exists_piece {c : Char} {text : List Char} (h : Spelling c text) :
    ∃ piece : Piece, piece.Shows c ∧ ∀ done rest,
      readPieces done (text ++ rest) = readPieces (piece :: done) rest := by
  cases h with
  | short hunit h =>
      refine ⟨.char c, .char c, fun done rest => ?_⟩
      show readPieces done ('\\' :: _ :: rest) = _
      rw [readPieces, h]
      exact fun _ _ _ _ _ heq => absurd heq hunit
  | unit h =>
      refine ⟨.unit c.toNat, .unit h, fun done rest => ?_⟩
      simp only [List.cons_append, List.nil_append, readPieces, codeUnit?_hexDigit h]
  | plain hquote hslash hcontrol =>
      refine ⟨.char c, .char c, fun done rest => ?_⟩
      rw [List.singleton_append, readPieces, if_neg (not_or.2 ⟨hslash, hcontrol⟩)]
      · exact hquote
      · exact fun _ _ _ _ _ h => absurd h hslash
      · exact fun _ _ h => absurd h hslash

/-- A piece joins as the character it shows, whatever follows. -/
theorem Piece.Shows.joinPieces {piece : Piece} {c : Char} (h : piece.Shows c) (done : List Char)
    (pieces : List Piece) : joinPieces done (piece :: pieces) = joinPieces (c :: done) pieces := by
  cases h with
  | char => rw [Json.joinPieces]
  | unit hcontrol =>
      have hhigh : isHighSurrogate c.toNat = false := by
        rw [isHighSurrogate, Bool.and_eq_false_iff]
        exact Or.inl (decide_eq_false (by omega))
      have hlow : isLowSurrogate c.toNat = false := by
        rw [isLowSurrogate, Bool.and_eq_false_iff]
        exact Or.inl (decide_eq_false (by omega))
      -- a code unit is looked at together with the one after it
      cases pieces with
      | nil => simp [Json.joinPieces, hhigh, hlow]
      | cons next pieces =>
          cases next with
          | char d => simp [Json.joinPieces, hhigh, hlow]
          | unit code => simp [Json.joinPieces, hhigh, hlow]

/-- The pieces of a written string join to the string. -/
theorem exists_pieces (text : List Char) :
    ∃ pieces : List Piece, (∀ done, joinPieces done pieces = some (done.reverse ++ text)) ∧
      ∀ done rest, readPieces done (text.flatMap escape ++ '"' :: rest)
        = some (done.reverse ++ pieces, rest) := by
  induction text with
  | nil =>
      refine ⟨[], fun done => ?_, fun done rest => ?_⟩
      · rw [joinPieces, List.append_nil]
      · rw [List.flatMap_nil, List.nil_append, readPieces, List.append_nil]
  | cons c text ih =>
      obtain ⟨piece, hshows, hread⟩ := (spelling_escape c).exists_piece
      obtain ⟨pieces, hjoin, hreadAll⟩ := ih
      refine ⟨piece :: pieces, fun done => ?_, fun done rest => ?_⟩
      · rw [hshows.joinPieces, hjoin, List.reverse_cons, List.append_assoc, List.singleton_append]
      · rw [List.flatMap_cons, List.append_assoc, hread, hreadAll, List.reverse_cons,
          List.append_assoc, List.singleton_append]

/-- **A QUOTED STRING IS READ BACK**, whatever it holds. -/
theorem readString?_quote (text : String) (rest : List Char) :
    readString? (text.toList.flatMap escape ++ '"' :: rest) = some (some text, rest) := by
  obtain ⟨pieces, hjoin, hread⟩ := exists_pieces text.toList
  rw [readString?, hread]
  show some ((joinPieces [] pieces).map String.ofList, rest) = some (some text, rest)
  rw [hjoin, List.reverse_nil, List.nil_append, Option.map_some, String.ofList_toList]

/-! ## Numbers -/

/-- A character that goes on with a number. -/
def goesOn (c : Char) : Bool := c.isDigit || c == '.' || c == 'e' || c == 'E'

/-- A number that stands before `rest` ends there. -/
def Ends (rest : List Char) : Prop := ∀ c ∈ rest.head?, goesOn c = false

/-- Only zero is written with a zero in front. -/
theorem head?_toDigits {n : Nat} (h : 0 < n) : (Nat.toDigits 10 n).head? ≠ some '0' := by
  induction n using Nat.strongRecOn with
  | ind n ih =>
      by_cases hsmall : n < 10
      · rw [Nat.toDigits_of_lt_base hsmall]
        have hdigit : ∀ d < 10, 0 < d → [Nat.digitChar d].head? ≠ some '0' := by decide
        exact hdigit n hsmall h
      · have hlarge : 10 ≤ n := Nat.le_of_not_lt hsmall
        rw [Nat.toDigits_of_base_le (by decide) hlarge,
          List.head?_append, Option.or_of_isSome (List.isSome_head?.2 Nat.toDigits_ne_nil)]
        exact ih (n / 10) (by omega) (by omega)

theorem decimal_toDigits (n : Nat) : decimal (Nat.toDigits 10 n) = n :=
  Nat.ofDigitChars_toDigits (by decide) (by decide)

theorem isDigit_of_mem_toDigits {n : Nat} {c : Char} (h : c ∈ Nat.toDigits 10 n) :
    c.isDigit = true := Nat.isDigit_of_mem_toDigits (by decide) (by decide) h

theorem ne_of_isDigit {c d : Char} (h : c.isDigit = true) (hd : d.isDigit = false) : c ≠ d := by
  rintro rfl
  exact Bool.false_ne_true (hd.symm.trans h)

/-- A written number begins with a digit, and all but zero with another than zero. -/
theorem exists_digit (n : Nat) :
    ∃ c digits, Nat.toDigits 10 n = c :: digits ∧ c.isDigit = true ∧ (0 < n → c ≠ '0') := by
  obtain ⟨c, digits, hdigits⟩ :=
    List.exists_cons_of_ne_nil (Nat.toDigits_ne_nil (n := n) (b := 10))
  refine ⟨c, digits, hdigits, isDigit_of_mem_toDigits (hdigits ▸ List.mem_cons_self), ?_⟩
  rintro hpos rfl
  exact head?_toDigits hpos (congrArg List.head? hdigits)

/-- Digits are read up to the end of a number. -/
theorem readDigits?_append {digits rest : List Char} (hne : digits ≠ [])
    (hdigits : ∀ c ∈ digits, c.isDigit = true) (hrest : Ends rest) :
    readDigits? (digits ++ rest) = some (digits, rest) := by
  have hstop : ∀ c ∈ rest.head?, c.isDigit = false := by
    intro c hc
    have hends := hrest c hc
    simp only [goesOn, Bool.or_eq_false_iff] at hends
    exact hends.1.1.1
  rw [readDigits?, Text.takeWhile_run hdigits hstop, Text.dropWhile_run hdigits hstop]
  simp only [List.isEmpty_eq_false_iff.2 hne, Bool.false_eq_true, if_false]

/-- The whole part of a written number. -/
theorem readWhole?_toDigits (n : Nat) {rest : List Char} (hrest : Ends rest) :
    readWhole? (Nat.toDigits 10 n ++ rest) = some (Nat.toDigits 10 n, rest) := by
  cases n with
  | zero => rfl
  | succ n =>
      have hread := readDigits?_append Nat.toDigits_ne_nil
        (fun _ hc => isDigit_of_mem_toDigits (n := n + 1) hc) hrest
      obtain ⟨c, digits, hdigits, -, hzero⟩ := exists_digit (n + 1)
      rw [hdigits] at hread ⊢
      rw [readWhole?]
      · exact hread
      · intro tail htail
        exact hzero n.succ_pos (List.cons.inj htail).1

/-- Nothing but the whole part belongs to a number that ends. -/
theorem readUnsigned?_toDigits (n : Nat) {rest : List Char} (hrest : Ends rest) :
    readUnsigned? (Nat.toDigits 10 n ++ rest) = some (Nat.toDigits 10 n, [], rest) := by
  have hfraction : readFraction? rest = some ([], rest) := by
    rw [readFraction?]
    rintro tail rfl
    exact absurd (hrest '.' rfl) (by decide)
  have hexponent : readExponent? rest = some ([], rest) := by
    cases rest with
    | nil => rfl
    | cons mark tail =>
        have hends : goesOn mark = false := hrest mark rfl
        simp only [goesOn, Bool.or_eq_false_iff, beq_eq_false_iff_ne] at hends
        rw [readExponent?, if_neg (not_or.2 ⟨hends.1.2, hends.2⟩)]
  simp only [readUnsigned?, readWhole?_toDigits n hrest, hfraction, hexponent, List.append_nil]

/-- **A WRITTEN NUMBER IS READ BACK** where it ends. -/
theorem readNumber?_toDigits (n : Nat) {rest : List Char} (hrest : Ends rest) :
    readNumber? (Nat.toDigits 10 n ++ rest) = some (.number n, rest) := by
  have hread := readUnsigned?_toDigits n hrest
  obtain ⟨c, digits, hdigits, hdigit, -⟩ := exists_digit n
  rw [readNumber?, hread]
  · show some (Json.number (decimal (Nat.toDigits 10 n)), rest) = _
    rw [decimal_toDigits]
  · rw [hdigits]
    intro tail htail
    exact ne_of_isDigit hdigit rfl (List.cons.inj htail).1

end Flowchart.Json
