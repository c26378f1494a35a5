import Flowchart.Text.Ranges
import Flowchart.Text.Word

/-! # Blanks — the characters that separate and that trimming removes

    A blank is a character with the Unicode property White_Space.  No blank is a
    word character, so a run of blanks and an identifier never share one. -/

namespace Flowchart.Text

/-- The code points of blanks. -/
def blankRanges : Ranges :=
  [(0x9, 0xD), (0x20, 0x20), (0x85, 0x85), (0xA0, 0xA0), (0x1680, 0x1680), (0x2000, 0x200A),
   (0x2028, 0x2029), (0x202F, 0x202F), (0x205F, 0x205F), (0x3000, 0x3000)]

/-- Whether `c` is white space. -/
def isBlank (c : Char) : Bool := blankRanges.contains c.toNat

/-- The table is in ascending order, with gaps. -/
theorem blankRanges_ascending : Ranges.ascending 0 blankRanges = true := by decide

/-- Each code point of each blank range, looked up among the word characters. -/
private theorem blankRanges_not_word :
    blankRanges.all (fun r =>
      (List.range' r.1 (r.2 + 1 - r.1)).all fun n => !wordRanges.contains n) = true := by
  decide +kernel

/-- A blank is not a word character. -/
theorem isWord_eq_false_of_isBlank {c : Char} (h : isBlank c = true) : isWord c = false := by
  obtain ⟨r, hr, hlow, hhigh⟩ := (Ranges.contains_iff blankRanges_ascending).1 h
  have hall := List.all_eq_true.1 (List.all_eq_true.1 blankRanges_not_word r hr) c.toNat
    (List.mem_range'_1.2 ⟨hlow, by omega⟩)
  simpa [isWord] using hall

/-- The text without the blanks at its start. -/
def trimStart (text : List Char) : List Char := text.dropWhile isBlank

/-- The text without the blanks at its end. -/
def trimEnd (text : List Char) : List Char := (text.reverse.dropWhile isBlank).reverse

/-- The text without the blanks at either end. -/
def trim (text : List Char) : List Char := trimEnd (trimStart text)

end Flowchart.Text
