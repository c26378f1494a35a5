import Flowchart.Shape
import Flowchart.Syntax.Reading

/-! # Enclosures — the brackets and the label that give a node its shape

    Each shape has two enclosures: with the label in double quotes, and bare.
    The quoted form of a shape is tried before its bare form, and shapes are
    tried in their order.  The body of an enclosure runs to the first character
    that the enclosure bars, and the closing bracket must stand there. -/

namespace Flowchart

/-- One way to write a shape around a label. -/
structure Enclosure where
  shape : Shape
  opening : List Char
  closing : List Char
  /-- The characters that the body cannot hold. -/
  barred : List Char
deriving DecidableEq, Repr

namespace Enclosure

/-- The label stands in double quotes and can hold anything else. -/
def quoted (s : Shape) : Enclosure := ⟨s, s.opening ++ ['"'], '"' :: s.closing, ['"']⟩

/-- The label stands directly in the brackets. -/
def bare (s : Shape) : Enclosure := ⟨s, s.opening, s.closing, s.barred⟩

/-- The enclosures in the order in which they are tried. -/
def all : List Enclosure := Shape.all.flatMap fun s => [quoted s, bare s]

/-- The body of this enclosure at the front of `text`. -/
def read? (e : Enclosure) (text : List Char) : Option (Reading (List Char)) :=
  match Text.after? e.opening text with
  | none => none
  | some inner =>
      let body := inner.takeWhile fun c => !e.barred.contains c
      match Text.after? e.closing (inner.dropWhile fun c => !e.barred.contains c) with
      | none => none
      | some rest =>
          some ⟨body, Text.width e.opening + Text.width body + Text.width e.closing, rest⟩

/-- **A READ BODY STANDS IN ITS ENCLOSURE**: what was read is the opening, the
    body and the closing, and the body holds no barred character. -/
theorem read?_sound {e : Enclosure} {text : List Char} {r : Reading (List Char)}
    (h : e.read? text = some r) :
    text = e.opening ++ r.value ++ e.closing ++ r.rest
      ∧ (∀ c ∈ r.value, c ∉ e.barred)
      ∧ r.width = Text.width (e.opening ++ r.value ++ e.closing) := by
  rw [read?] at h
  split at h
  · exact nomatch h
  · next inner hopen =>
      split at h
      · exact nomatch h
      · next rest hclose =>
          obtain rfl := Option.some.inj h
          have h1 := Text.after?_eq_some_iff.1 hopen
          have h2 := Text.after?_eq_some_iff.1 hclose
          refine ⟨?_, ?_, by simp [Nat.add_assoc]⟩
          · show text = e.opening ++ _ ++ e.closing ++ rest
            rw [h1, List.append_assoc, List.append_assoc, ← h2, List.takeWhile_append_dropWhile]
          · intro c hc
            simpa using List.all_eq_true.1 List.all_takeWhile c hc

end Enclosure

/-- A shape and the label written in it. -/
structure Decoration where
  shape : Shape
  label : String
deriving DecidableEq, Repr

namespace Decoration

/-- `body` without a double quote at each end, when it has both. -/
def unquote : List Char → List Char
  | '"' :: inner => if inner.getLast? = some '"' then inner.dropLast else '"' :: inner
  | body => body

/-- The decoration at the front of `text`, in the first enclosure that fits. -/
def read? (text : List Char) : Option (Reading Decoration) :=
  Enclosure.all.findSome? fun e =>
    (e.read? text).map fun r => ⟨⟨e.shape, String.ofList (unquote r.value)⟩, r.width, r.rest⟩

theorem read?_splits {text : List Char} {r : Reading Decoration}
    (h : read? text = some r) : r.Splits text := by
  obtain ⟨e, -, he⟩ := List.exists_of_findSome?_eq_some h
  obtain ⟨body, hbody, rfl⟩ := Option.map_eq_some_iff.1 he
  obtain ⟨htext, -, hwidth⟩ := Enclosure.read?_sound hbody
  exact ⟨_, htext, hwidth.symm⟩

end Decoration

end Flowchart
