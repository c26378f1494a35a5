import Flowchart.Syntax.Enclosure

/-! # Node tokens — an id, and perhaps its shape and label

    A node is written as a run of word characters, with a decoration directly
    after it or none.  Some words begin statements of their own and declare no
    node. -/

namespace Flowchart

/-- A node as written in the source. -/
structure NodeToken where
  id : String
  decoration : Option Decoration
  /-- The bytes of the id and of the decoration. -/
  width : Nat
deriving DecidableEq, Repr

namespace NodeToken

/-- The node token at the front of `text`, and the text after it. -/
def read? (text : List Char) : Option (NodeToken × List Char) :=
  let id := text.takeWhile Text.isWord
  if id.isEmpty then none
  else
    let rest := text.dropWhile Text.isWord
    match Decoration.read? rest with
    | some r => some (⟨String.ofList id, some r.value, Text.width id + r.width⟩, r.rest)
    | none => some (⟨String.ofList id, none, Text.width id⟩, rest)

/-- **A READ TOKEN IS A FRONT OF THE TEXT**: its id is the longest run of word
    characters there, it is not empty, and the width counts the bytes up to the
    rest. -/
theorem read?_sound {text rest : List Char} {token : NodeToken}
    (h : read? text = some (token, rest)) :
    ∃ front, text = front ++ rest ∧ Text.width front = token.width
      ∧ token.id.toList = text.takeWhile Text.isWord
      ∧ token.id.toList ≠ [] ∧ token.id.toList.length ≤ front.length := by
  rw [read?] at h
  simp only at h
  split at h
  · exact nomatch h
  · next hid =>
      have hsplit := List.takeWhile_append_dropWhile (p := Text.isWord) (l := text)
      rw [List.isEmpty_iff] at hid
      split at h
      · next r hr =>
          obtain ⟨rfl, rfl⟩ := Prod.mk.inj (Option.some.inj h)
          obtain ⟨front, hfront, hwidth⟩ := Decoration.read?_splits hr
          refine ⟨text.takeWhile Text.isWord ++ front, ?_, ?_, ?_, ?_, ?_⟩
          · rw [List.append_assoc, ← hfront, hsplit]
          · rw [Text.width_append, hwidth]
          · simp
          · simpa using hid
          · simp
      · obtain ⟨rfl, rfl⟩ := Prod.mk.inj (Option.some.inj h)
        exact ⟨text.takeWhile Text.isWord, hsplit.symm, rfl, by simp, by simpa using hid, by simp⟩

theorem read?_shorter {text rest : List Char} {token : NodeToken}
    (h : read? text = some (token, rest)) : rest.length < text.length := by
  obtain ⟨front, rfl, -, -, hne, hlen⟩ := read?_sound h
  have := List.length_pos_iff.2 hne
  rw [List.length_append]
  omega

end NodeToken

/-- The words that begin a statement and declare no node. -/
def reservedWords : List String :=
  ["end", "subgraph", "graph", "flowchart", "style", "classDef", "class", "direction", "click",
   "linkStyle"]

def isReserved (id : String) : Bool := reservedWords.contains id

end Flowchart
