import Flowchart.Json.Basic
import Flowchart.Text.Lines

/-! # JSON tokens — the brackets, separators and scalars of a text

    A text is cut into tokens before it is read as a value.  Blanks between
    tokens are spaces, tabs, line feeds and carriage returns.  A string may hold
    any character from U+0020 on; a `\u` escape stands for a UTF-16 code unit,
    so two of them may stand for one character, and one alone for none. -/

namespace Flowchart.Json

inductive Token where
  | openArray
  | closeArray
  | openObject
  | closeObject
  | comma
  | colon
  /-- A string, without a text when a surrogate stands alone in it. -/
  | string (text : Option String)
  /-- A value without parts that is no string. -/
  | scalar (value : Json)
deriving Repr

/-- The blanks between tokens. -/
def isSpace (c : Char) : Bool := c == ' ' || c == '\t' || c == '\n' || c == '\r'

/-- The value of a hexadecimal digit in either case. -/
def hexValue? (c : Char) : Option Nat :=
  if '0' ≤ c ∧ c ≤ '9' then some (c.toNat - '0'.toNat)
  else if 'a' ≤ c ∧ c ≤ 'f' then some (c.toNat - 'a'.toNat + 10)
  else if 'A' ≤ c ∧ c ≤ 'F' then some (c.toNat - 'A'.toNat + 10)
  else none

/-- The code unit that four hexadecimal digits stand for. -/
def codeUnit? (a b c d : Char) : Option Nat :=
  match hexValue? a, hexValue? b, hexValue? c, hexValue? d with
  | some a, some b, some c, some d => some (((a * 16 + b) * 16 + c) * 16 + d)
  | _, _, _, _ => none

/-- The character that a backslash before `c` stands for. -/
def unescape? (c : Char) : Option Char :=
  if c = '"' then some '"'
  else if c = '\\' then some '\\'
  else if c = '/' then some '/'
  else if c = 'b' then some '\x08'
  else if c = 'f' then some '\x0C'
  else if c = 'n' then some '\n'
  else if c = 'r' then some '\r'
  else if c = 't' then some '\t'
  else none

/-- A part of a string. -/
inductive Piece where
  | char (c : Char)
  /-- A code unit written as an escape. -/
  | unit (code : Nat)
deriving DecidableEq, Repr

/-- The pieces up to the closing quote, after the pieces `done` in reverse, and
    the text after the quote. -/
def readPieces (done : List Piece) : List Char → Option (List Piece × List Char)
  | [] => none
  | '"' :: rest => some (done.reverse, rest)
  | '\\' :: 'u' :: a :: b :: c :: d :: rest =>
      match codeUnit? a b c d with
      | some code => readPieces (.unit code :: done) rest
      | none => none
  | '\\' :: c :: rest =>
      match unescape? c with
      | some plain => readPieces (.char plain :: done) rest
      | none => none
  | c :: rest =>
      if c = '\\' ∨ c.toNat < 0x20 then none else readPieces (.char c :: done) rest

/-- A code unit that begins a pair. -/
def isHighSurrogate (code : Nat) : Bool := decide (0xD800 ≤ code) && decide (code < 0xDC00)

/-- A code unit that ends a pair. -/
def isLowSurrogate (code : Nat) : Bool := decide (0xDC00 ≤ code) && decide (code < 0xE000)

/-- The text of the pieces, after the characters `done` in reverse; none when a
    surrogate stands alone. -/
def joinPieces (done : List Char) : List Piece → Option (List Char)
  | [] => some done.reverse
  | .char c :: pieces => joinPieces (c :: done) pieces
  | .unit high :: .unit low :: pieces =>
      if isHighSurrogate high then
        if isLowSurrogate low then
          joinPieces
            (Char.ofNat (0x10000 + (high - 0xD800) * 0x400 + (low - 0xDC00)) :: done) pieces
        else none
      else if isLowSurrogate high then none
      else joinPieces (Char.ofNat high :: done) (.unit low :: pieces)
  | .unit code :: pieces =>
      if isHighSurrogate code || isLowSurrogate code then none
      else joinPieces (Char.ofNat code :: done) pieces

/-- The text of the string whose opening quote stands before `text`, if it has
    one, and the text after the closing quote. -/
def readString? (text : List Char) : Option (Option String × List Char) :=
  (readPieces [] text).map fun (pieces, rest) => ((joinPieces [] pieces).map String.ofList, rest)

/-- One or more digits at the front of `text`. -/
def readDigits? (text : List Char) : Option (List Char × List Char) :=
  let digits := text.takeWhile Char.isDigit
  if digits.isEmpty then none else some (digits, text.dropWhile Char.isDigit)

/-- The whole part of a number: zero alone, or digits that do not begin with
    one. -/
def readWhole? (text : List Char) : Option (List Char × List Char) :=
  match text with
  | '0' :: rest => some (['0'], rest)
  | _ => readDigits? text

/-- The fraction of a number; empty when no point follows. -/
def readFraction? (text : List Char) : Option (List Char × List Char) :=
  match text with
  | '.' :: rest => (readDigits? rest).map fun (digits, rest) => ('.' :: digits, rest)
  | _ => some ([], text)

/-- The sign of an exponent, if there is one. -/
def readExponentSign (text : List Char) : List Char × List Char :=
  match text with
  | '+' :: rest => (['+'], rest)
  | '-' :: rest => (['-'], rest)
  | _ => ([], text)

/-- The exponent of a number; empty when none follows. -/
def readExponent? (text : List Char) : Option (List Char × List Char) :=
  match text with
  | [] => some ([], [])
  | mark :: rest =>
      if mark = 'e' ∨ mark = 'E' then
        (readDigits? (readExponentSign rest).2).map fun (digits, final) =>
          (mark :: (readExponentSign rest).1 ++ digits, final)
      else some ([], mark :: rest)

/-- The number that decimal digits stand for. -/
def decimal (digits : List Char) : Nat :=
  digits.foldl (fun n c => 10 * n + (c.toNat - '0'.toNat)) 0

/-- A number without its sign: the whole part, the fraction and exponent, and
    the text after them. -/
def readUnsigned? (text : List Char) : Option (List Char × List Char × List Char) :=
  match readWhole? text with
  | none => none
  | some (whole, afterWhole) =>
      match readFraction? afterWhole with
      | none => none
      | some (fraction, afterFraction) =>
          match readExponent? afterFraction with
          | none => none
          | some (exponent, rest) => some (whole, fraction ++ exponent, rest)

/-- The number at the front of `text`; only digits alone make a natural one. -/
def readNumber? (text : List Char) : Option (Json × List Char) :=
  match text with
  | '-' :: unsigned => (readUnsigned? unsigned).map fun (_, _, rest) => (.other, rest)
  | _ =>
      (readUnsigned? text).map fun (whole, tail, rest) =>
        (if tail.isEmpty then .number (decimal whole) else .other, rest)

/-- The word `word` at the front of `text`, standing for `value`. -/
def readWord? (word : List Char) (value : Json) (text : List Char) :
    Option (Token × List Char) :=
  (Text.after? word text).map fun rest => (.scalar value, rest)

/-- The token at the front of `text`, and the text after it. -/
def Token.read? (text : List Char) : Option (Token × List Char) :=
  match text with
  | [] => none
  | '[' :: rest => some (.openArray, rest)
  | ']' :: rest => some (.closeArray, rest)
  | '{' :: rest => some (.openObject, rest)
  | '}' :: rest => some (.closeObject, rest)
  | ',' :: rest => some (.comma, rest)
  | ':' :: rest => some (.colon, rest)
  | '"' :: rest => (readString? rest).map fun (value, rest) => (.string value, rest)
  | 'n' :: _ => readWord? ['n', 'u', 'l', 'l'] .null text
  | 't' :: _ => readWord? ['t', 'r', 'u', 'e'] (.bool true) text
  | 'f' :: _ => readWord? ['f', 'a', 'l', 's', 'e'] (.bool false) text
  | _ => (readNumber? text).map fun (value, rest) => (.scalar value, rest)

/-! ## Every token takes something -/

private theorem dropWhile_length_le (p : Char → Bool) (text : List Char) :
    (text.dropWhile p).length ≤ text.length :=
  (List.dropWhile_sublist p).length_le

private theorem readPieces_shorter {done pieces : List Piece} {text rest : List Char}
    (h : readPieces done text = some (pieces, rest)) : rest.length < text.length := by
  fun_induction readPieces done text with
  | case1 => exact nomatch h
  | case2 done rest' =>
      obtain ⟨-, rfl⟩ := Prod.mk.inj (Option.some.inj h)
      simp
  | case3 done a b c d rest' code hcode ih =>
      have := ih h
      simp only [List.length_cons]
      omega
  | case4 => exact nomatch h
  | case5 done c rest' hu plain hplain ih =>
      have := ih h
      simp only [List.length_cons]
      omega
  | case6 => exact nomatch h
  | case7 => exact nomatch h
  | case8 done c rest' h1 h2 h3 h4 ih =>
      have := ih h
      simp only [List.length_cons]
      omega

private theorem readString?_shorter {text rest : List Char} {value : Option String}
    (h : readString? text = some (value, rest)) : rest.length < text.length := by
  obtain ⟨⟨pieces, rest'⟩, hpieces, heq⟩ := Option.map_eq_some_iff.1 h
  obtain ⟨-, rfl⟩ := Prod.mk.inj heq
  exact readPieces_shorter hpieces

private theorem readDigits?_shorter {text digits rest : List Char}
    (h : readDigits? text = some (digits, rest)) : rest.length < text.length := by
  unfold readDigits? at h
  simp only at h
  split at h
  · exact nomatch h
  · next hne =>
      obtain ⟨-, rfl⟩ := Prod.mk.inj (Option.some.inj h)
      have hlen := congrArg List.length
        (List.takeWhile_append_dropWhile (p := Char.isDigit) (l := text))
      rw [List.isEmpty_iff] at hne
      have hpos := List.length_pos_iff.2 hne
      rw [List.length_append] at hlen
      omega

private theorem readWhole?_shorter {text digits rest : List Char}
    (h : readWhole? text = some (digits, rest)) : rest.length < text.length := by
  unfold readWhole? at h
  split at h
  · obtain ⟨-, rfl⟩ := Prod.mk.inj (Option.some.inj h)
    simp
  · exact readDigits?_shorter h

private theorem readFraction?_length_le {text fraction rest : List Char}
    (h : readFraction? text = some (fraction, rest)) : rest.length ≤ text.length := by
  unfold readFraction? at h
  split at h
  · obtain ⟨⟨digits, rest'⟩, hdigits, heq⟩ := Option.map_eq_some_iff.1 h
    obtain ⟨-, rfl⟩ := Prod.mk.inj heq
    have := readDigits?_shorter hdigits
    simp only [List.length_cons]
    omega
  · obtain ⟨-, rfl⟩ := Prod.mk.inj (Option.some.inj h)
    exact Nat.le_refl _

private theorem readExponentSign_length_le (text : List Char) :
    (readExponentSign text).2.length ≤ text.length := by
  unfold readExponentSign
  split <;> simp

private theorem readExponent?_length_le {text exponent rest : List Char}
    (h : readExponent? text = some (exponent, rest)) : rest.length ≤ text.length := by
  unfold readExponent? at h
  split at h
  · obtain ⟨-, rfl⟩ := Prod.mk.inj (Option.some.inj h)
    exact Nat.le_refl _
  · next mark afterMark =>
      split at h
      · obtain ⟨⟨digits, rest'⟩, hdigits, heq⟩ := Option.map_eq_some_iff.1 h
        obtain ⟨-, rfl⟩ := Prod.mk.inj heq
        have h1 := readDigits?_shorter hdigits
        have h2 := readExponentSign_length_le afterMark
        simp only [List.length_cons]
        omega
      · obtain ⟨-, rfl⟩ := Prod.mk.inj (Option.some.inj h)
        exact Nat.le_refl _

private theorem readUnsigned?_shorter {text whole tail rest : List Char}
    (h : readUnsigned? text = some (whole, tail, rest)) : rest.length < text.length := by
  rw [readUnsigned?] at h
  split at h
  · exact nomatch h
  · next hwhole =>
      split at h
      · exact nomatch h
      · next hfraction =>
          split at h
          · exact nomatch h
          · next hexponent =>
              obtain ⟨-, heq⟩ := Prod.mk.inj (Option.some.inj h)
              obtain ⟨-, rfl⟩ := Prod.mk.inj heq
              have h1 := readWhole?_shorter hwhole
              have h2 := readFraction?_length_le hfraction
              have h3 := readExponent?_length_le hexponent
              omega

private theorem readNumber?_shorter {text rest : List Char} {value : Json}
    (h : readNumber? text = some (value, rest)) : rest.length < text.length := by
  unfold readNumber? at h
  split at h
  · obtain ⟨⟨whole, tail, rest'⟩, hread, heq⟩ := Option.map_eq_some_iff.1 h
    obtain ⟨-, rfl⟩ := Prod.mk.inj heq
    have := readUnsigned?_shorter hread
    simp only [List.length_cons]
    omega
  · obtain ⟨⟨whole, tail, rest'⟩, hread, heq⟩ := Option.map_eq_some_iff.1 h
    obtain ⟨-, rfl⟩ := Prod.mk.inj heq
    exact readUnsigned?_shorter hread

private theorem readWord?_shorter {word text rest : List Char} {value : Json} {token : Token}
    (hword : word ≠ []) (h : readWord? word value text = some (token, rest)) :
    rest.length < text.length := by
  obtain ⟨rest', hafter, heq⟩ := Option.map_eq_some_iff.1 h
  obtain ⟨-, rfl⟩ := Prod.mk.inj heq
  have hpos := List.length_pos_iff.2 hword
  rw [Text.after?_eq_some_iff.1 hafter, List.length_append]
  omega

theorem Token.read?_shorter {text rest : List Char} {token : Token}
    (h : Token.read? text = some (token, rest)) : rest.length < text.length := by
  unfold Token.read? at h
  split at h
  · exact nomatch h
  · obtain ⟨-, rfl⟩ := Prod.mk.inj (Option.some.inj h); simp
  · obtain ⟨-, rfl⟩ := Prod.mk.inj (Option.some.inj h); simp
  · obtain ⟨-, rfl⟩ := Prod.mk.inj (Option.some.inj h); simp
  · obtain ⟨-, rfl⟩ := Prod.mk.inj (Option.some.inj h); simp
  · obtain ⟨-, rfl⟩ := Prod.mk.inj (Option.some.inj h); simp
  · obtain ⟨-, rfl⟩ := Prod.mk.inj (Option.some.inj h); simp
  · obtain ⟨⟨value, rest'⟩, hread, heq⟩ := Option.map_eq_some_iff.1 h
    obtain ⟨-, rfl⟩ := Prod.mk.inj heq
    have := readString?_shorter hread
    simp only [List.length_cons]
    omega
  · exact readWord?_shorter (by simp) h
  · exact readWord?_shorter (by simp) h
  · exact readWord?_shorter (by simp) h
  · obtain ⟨⟨value, rest'⟩, hread, heq⟩ := Option.map_eq_some_iff.1 h
    obtain ⟨-, rfl⟩ := Prod.mk.inj heq
    exact readNumber?_shorter hread

def readTokens (done : List Token) (text : List Char) : Option (List Token) :=
  let front := text.dropWhile isSpace
  if front.isEmpty then some done.reverse
  else
    match _found : Token.read? front with
    | none => none
    | some (token, rest) => readTokens (token :: done) rest
termination_by text.length
decreasing_by
  exact Nat.lt_of_lt_of_le (Token.read?_shorter _found) (dropWhile_length_le isSpace text)

end Flowchart.Json
