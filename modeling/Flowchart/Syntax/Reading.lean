import Flowchart.Text.Lines

/-! # Readings — what a recogniser takes off the front of a text

    A recogniser looks only at the front of a text.  It answers with the value
    it found there, the number of bytes it took, and the text that is left. -/

namespace Flowchart

/-- A value read off the front of a text. -/
structure Reading (α : Type) where
  value : α
  width : Nat
  rest : List Char
deriving DecidableEq, Repr

/-- The reading accounts for all of `text`: some front of it has the width of
    the reading, and the rest follows that front. -/
def Reading.Splits {α : Type} (r : Reading α) (text : List Char) : Prop :=
  ∃ front, text = front ++ r.rest ∧ Text.width front = r.width

/-- What a reading leaves is no longer than the text. -/
theorem Reading.Splits.rest_length_le {α : Type} {r : Reading α} {text : List Char}
    (h : r.Splits text) : r.rest.length ≤ text.length := by
  obtain ⟨front, rfl, -⟩ := h
  simp

/-- What a reading leaves is the text without the bytes taken. -/
theorem Reading.Splits.width_add {α : Type} {r : Reading α} {text : List Char}
    (h : r.Splits text) : r.width + Text.width r.rest = Text.width text := by
  obtain ⟨front, rfl, hw⟩ := h
  rw [Text.width_append, hw]

end Flowchart
