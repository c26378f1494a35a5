import Flowchart.Proofs.Node.Token
import Flowchart.Proofs.Script.Basic

/-! # Written nodes — read back as they were meant

    The id of a written node is the longest run of word characters there, since
    neither a bracket nor a blank is one; a decoration after it is read back by
    its enclosure.  So a written node is read back, wherever a blank or the end
    of the line follows it (`Node.read?_write`). -/

namespace Flowchart

open Text

namespace Script

/-- A written decoration is read back, whatever follows it. -/
theorem read?_writeDecoration {d : Decoration} (h : '"' ∉ d.label.toList) (rest : List Char) :
    Decoration.read? (writeDecoration d ++ rest) = some ⟨d, width (writeDecoration d), rest⟩ := by
  have htext : writeDecoration d ++ rest
      = d.shape.opening ++ '"' :: (d.label.toList ++ '"' :: (d.shape.closing ++ rest)) := by
    simp [writeDecoration]
  rw [htext, Decoration.read?_quoted h, String.ofList_toList]
  rfl

/-- The token of a written node. -/
def Node.token (node : Node) : NodeToken := ⟨node.id, node.decoration, width node.write⟩

/-- What follows the id of a written node is no word character. -/
theorem Node.rest_not_word (node : Node) {rest : List Char} (h : Spaced rest) :
    ∀ c ∈ (node.decoration.elim [] writeDecoration ++ rest).head?, isWord c = false := by
  cases node.decoration with
  | none => exact h.not_word
  | some d =>
      rw [Option.elim_some, writeDecoration, List.append_assoc]
      exact head?_append_eq_false (opening_not_word d.shape) _

/-- The id is the leading word of a written node. -/
theorem Node.takeWhile_write (node : Node) {rest : List Char} (h : Spaced rest) :
    (node.write ++ rest).takeWhile isWord = node.id.toList ∧
      (node.write ++ rest).dropWhile isWord = node.decoration.elim [] writeDecoration ++ rest := by
  rw [Node.write, List.append_assoc]
  exact ⟨takeWhile_run node.isWord_of_mem (node.rest_not_word h),
    dropWhile_run node.isWord_of_mem (node.rest_not_word h)⟩

/-- **A WRITTEN NODE IS READ BACK**, where a blank or the end follows it. -/
theorem Node.read?_write (node : Node) {rest : List Char} (h : Spaced rest) :
    NodeToken.read? (node.write ++ rest) = some (node.token, rest) := by
  rw [Node.write, List.append_assoc,
    NodeToken.read?_word node.id_ne_nil node.isWord_of_mem (node.rest_not_word h),
    String.ofList_toList]
  cases hd : node.decoration with
  | none =>
      rw [Option.elim_none, List.nil_append, Decoration.read?_of_spaced h]
      simp only [Node.token, Node.write, hd, Option.elim_none, List.append_nil]
  | some d =>
      rw [Option.elim_some, read?_writeDecoration (node.label_plain d hd).1]
      simp only [Node.token, Node.write, hd, Option.elim_some, width_append]

end Script

end Flowchart
