import Flowchart.Graph.Basic
import Flowchart.Syntax.NodeToken

/-! # Chains — nodes joined by arrows along one line

    A hop is an arrow, perhaps a label between bars, at least one blank, and the
    node it leads to.  A chain is a first node and the hops that follow it; it
    ends at the first place where no hop can be read, and what was read up to
    there stands. -/

namespace Flowchart

namespace Arrow

/-- The first arrow in the table that `text` begins with, and the text after
    it. -/
def read? (text : List Char) : Option (Arrow × List Char) :=
  all.findSome? fun a => (Text.after? a.lexeme text).map fun rest => (a, rest)

/-- A read arrow stands in the table, and its lexeme at the front. -/
theorem read?_sound {text rest : List Char} {a : Arrow} (h : read? text = some (a, rest)) :
    a ∈ all ∧ text = a.lexeme ++ rest := by
  obtain ⟨b, hb, hmap⟩ := List.exists_of_findSome?_eq_some h
  obtain ⟨rest', hrest, heq⟩ := Option.map_eq_some_iff.1 hmap
  obtain ⟨rfl, rfl⟩ := Prod.mk.inj heq
  exact ⟨hb, Text.after?_eq_some_iff.1 hrest⟩

end Arrow

/-- The label between bars at the front of `text`, after blanks: trimmed, and
    none when nothing is left of it. -/
def readEdgeLabel? (text : List Char) : Option (Reading (Option String)) :=
  match text.dropWhile Text.isBlank with
  | '|' :: inner =>
      let body := inner.takeWhile (· != '|')
      match inner.dropWhile (· != '|') with
      | [] => none
      | bar :: rest =>
          let label := Text.trim body
          some ⟨if label.isEmpty then none else some (String.ofList label),
            Text.width (text.takeWhile Text.isBlank) + Text.width ['|']
              + Text.width body + Text.width [bar],
            rest⟩
  | _ => none

theorem readEdgeLabel?_splits {text : List Char} {r : Reading (Option String)}
    (h : readEdgeLabel? text = some r) : r.Splits text := by
  rw [readEdgeLabel?] at h
  split at h
  · next inner hinner =>
      split at h
      · exact nomatch h
      · next bar rest hrest =>
          obtain rfl := Option.some.inj h
          have h1 := List.takeWhile_append_dropWhile (p := Text.isBlank) (l := text)
          have h2 := List.takeWhile_append_dropWhile (p := (· != '|')) (l := inner)
          refine ⟨text.takeWhile Text.isBlank ++ ['|'] ++ inner.takeWhile (· != '|') ++ [bar],
            ?_, by simp [Nat.add_assoc]⟩
          show text = _ ++ rest
          rw [hinner] at h1
          rw [hrest] at h2
          simp only [List.append_assoc, List.cons_append, List.nil_append]
          rw [h2, h1]
  · exact nomatch h

/-- One step of a chain: the arrow, its label, and the node it leads to. -/
structure Hop where
  arrow : Arrow
  label : Option String
  target : NodeToken
deriving DecidableEq, Repr

namespace Hop

/-- What follows an arrow: its label, none where there is none to read, and the
    text after that. -/
def readLabel (text : List Char) : Option String × List Char :=
  match readEdgeLabel? text with
  | some r => (r.value, r.rest)
  | none => (none, text)

/-- The hop at the front of `text`, and the text after it. -/
def read? (text : List Char) : Option (Hop × List Char) :=
  match Arrow.read? (Text.trimStart text) with
  | none => none
  | some (arrow, afterArrow) =>
      let (label, afterLabel) := readLabel afterArrow
      if afterLabel.head?.any Text.isBlank then
        match NodeToken.read? (Text.trimStart afterLabel) with
        | none => none
        | some (target, rest) => some (⟨arrow, label, target⟩, rest)
      else none

private theorem trimStart_length_le (text : List Char) :
    (Text.trimStart text).length ≤ text.length :=
  (List.dropWhile_sublist Text.isBlank).length_le

private theorem readLabel_length_le (text : List Char) :
    (readLabel text).2.length ≤ text.length := by
  rw [readLabel]
  split
  · next r hr => exact (readEdgeLabel?_splits hr).rest_length_le
  · exact Nat.le_refl _

theorem read?_shorter {text rest : List Char} {hop : Hop}
    (h : read? text = some (hop, rest)) : rest.length < text.length := by
  rw [read?] at h
  split at h
  · exact nomatch h
  · next arrow afterArrow harrow =>
      simp only at h
      split at h
      · split at h
        · exact nomatch h
        · next target rest' htarget =>
            obtain ⟨-, rfl⟩ := Prod.mk.inj (Option.some.inj h)
            have h1 := trimStart_length_le text
            have h2 := congrArg List.length (Arrow.read?_sound harrow).2
            rw [List.length_append] at h2
            have h3 := readLabel_length_le afterArrow
            have h4 := trimStart_length_le (readLabel afterArrow).2
            have h5 := NodeToken.read?_shorter htarget
            omega
      · exact nomatch h

/-- The hops at the front of `text`, as many as can be read, and the text after
    them. -/
def readAll (text : List Char) : List Hop × List Char :=
  match _found : read? text with
  | none => ([], text)
  | some (hop, rest) =>
      let (hops, final) := readAll rest
      (hop :: hops, final)
termination_by text.length
decreasing_by exact read?_shorter _found

/-- No hop at the front: the reading ends. -/
theorem readAll_of_none {text : List Char} (h : read? text = none) :
    readAll text = ([], text) := by
  rw [readAll]
  split
  · rfl
  · next heq => rw [h] at heq; exact nomatch heq

/-- A hop at the front: the reading goes on after it. -/
theorem readAll_of_some {text rest : List Char} {hop : Hop}
    (h : read? text = some (hop, rest)) :
    readAll text = (hop :: (readAll rest).1, (readAll rest).2) := by
  rw [readAll]
  split
  · next heq => rw [h] at heq; exact nomatch heq
  · next heq =>
      rw [h] at heq
      obtain ⟨rfl, rfl⟩ := Prod.mk.inj (Option.some.inj heq)
      rfl

/-- The edges of a hop that starts at `source`: one, or one each way. -/
def edges (source : String) (hop : Hop) : List Edge :=
  let forth : Edge := ⟨source, hop.target.id, hop.label, hop.arrow.style⟩
  if hop.arrow.twoHeaded then [forth, ⟨hop.target.id, source, hop.label, hop.arrow.style⟩]
  else [forth]

end Hop

/-- A first node and the hops after it. -/
structure Chain where
  first : NodeToken
  hops : List Hop
deriving DecidableEq, Repr

namespace Chain

/-- The chain at the front of `text`; a node without a hop is none. -/
def read? (text : List Char) : Option Chain :=
  match NodeToken.read? text with
  | none => none
  | some (first, rest) =>
      match (Hop.readAll rest).1 with
      | [] => none
      | hop :: hops => some ⟨first, hop :: hops⟩

/-- The edges of hops, the first of which starts at `source`. -/
def edgesFrom (source : String) : List Hop → List Edge
  | [] => []
  | hop :: hops => hop.edges source ++ edgesFrom hop.target.id hops

/-- The edges of a chain, in the order of its hops. -/
def edges (chain : Chain) : List Edge := edgesFrom chain.first.id chain.hops

/-- The node tokens of a chain, in the order of the source. -/
def tokens (chain : Chain) : List NodeToken := chain.first :: chain.hops.map Hop.target

end Chain

end Flowchart
