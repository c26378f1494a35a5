import Flowchart.Proofs.Node.Enclosure
import Flowchart.Syntax.NodeToken

/-! # Node tokens — an id and a label in brackets are read back

    A label in quotes is read back in the brackets of its shape, whatever it holds
    besides quotes.  Without quotes the brackets of a longer opening could continue
    those of a shorter one, `[` to `[(` or `[/`; a label that holds no bracket and
    no slash continues none of them (`after?_of_continues`), and it ends where the
    closing bracket stands.  So the two ways to write a node are read as the same
    token, but for the two bytes of the quotes (`NodeToken.enclosed_read_back`). -/

namespace Flowchart

open Text

/-- The brackets and slashes, which a label must not hold to stand without quotes. -/
def delimiters : List Char := ['(', ')', '[', ']', '{', '}', '/', '\\']

/-! ## Labels without quotes -/

section Bare

variable {label : List Char}

/-- An opening goes on with a character that does not stand after its front. -/
theorem after?_of_continues {lead front text : List Char} {c : Char}
    (hlead : front ++ [c] <+: lead) (htext : text.head? ≠ some c) :
    after? lead (front ++ text) = none := by
  cases h : after? lead (front ++ text) with
  | none => rfl
  | some rest =>
      obtain ⟨more, rfl⟩ := hlead
      have hsplit := after?_eq_some_iff.1 h
      rw [List.append_assoc, List.append_assoc, List.append_cancel_left_eq] at hsplit
      rw [hsplit] at htext
      exact absurd rfl htext

/-- An enclosure tried before the bare one of a shape clashes with its opening,
    or goes on with a quote or a delimiter that does not close the shape. -/
theorem opening_clashes_or_continues (s : Shape) :
    ∀ e ∈ Enclosure.all.takeWhile (· != Enclosure.bare s),
      clashes e.opening s.opening = true ∨
        ∃ c ∈ '"' :: delimiters, s.opening ++ [c] <+: e.opening ∧ s.closing.head? ≠ some c := by
  have hcheck : ((Enclosure.all.takeWhile (· != Enclosure.bare s)).all fun e =>
      clashes e.opening s.opening || ('"' :: delimiters).any fun c =>
        (s.opening ++ [c]).isPrefixOf e.opening && s.closing.head? != some c) = true := by
    cases s <;> decide
  intro e he
  have he := List.all_eq_true.1 hcheck e he
  simp only [Bool.or_eq_true, List.any_eq_true, Bool.and_eq_true, List.isPrefixOf_iff_prefix,
    bne_iff_ne] at he
  exact he

theorem bare_mem_all (s : Shape) : Enclosure.bare s ∈ Enclosure.all := by
  cases s <;> decide

/-- The closing bracket of a shape begins with a character that its label cannot
    hold. -/
theorem exists_closing_cons (s : Shape) :
    ∃ stop closing, s.closing = stop :: closing ∧ stop ∈ s.barred := by
  cases s <;> exact ⟨_, _, rfl, by decide⟩

/-- What a label cannot hold are delimiters. -/
theorem barred_subset_delimiters (s : Shape) : ∀ c ∈ s.barred, c ∈ delimiters := by
  cases s <;> simp [Shape.barred, delimiters]

/-- A label that holds no quote and no delimiter, or the closing bracket where the
    label is empty, continues no longer opening. -/
theorem head?_label_ne (hquote : '"' ∉ label) (hplain : ∀ c ∈ label, c ∉ delimiters) {s : Shape}
    {c : Char} (hc : c ∈ '"' :: delimiters) (hclosing : s.closing.head? ≠ some c)
    (rest : List Char) : (label ++ (s.closing ++ rest)).head? ≠ some c := by
  cases label with
  | nil =>
      obtain ⟨stop, closing, hstop, -⟩ := exists_closing_cons s
      rw [hstop] at hclosing ⊢
      exact hclosing
  | cons d label =>
      intro hd
      have hdc : d = c := Option.some.inj hd
      subst hdc
      rcases List.mem_cons.1 hc with rfl | hdelimiter
      · exact hquote List.mem_cons_self
      · exact hplain d List.mem_cons_self hdelimiter

/-- **A PLAIN LABEL IS READ BACK** with its shape without quotes as well, whatever
    follows it. -/
theorem Decoration.read?_bare (hquote : '"' ∉ label) (hplain : ∀ c ∈ label, c ∉ delimiters)
    (s : Shape) (rest : List Char) :
    Decoration.read? (s.opening ++ (label ++ (s.closing ++ rest)))
      = some ⟨⟨s, String.ofList label⟩, width (s.opening ++ (label ++ s.closing)), rest⟩ := by
  obtain ⟨stop, closing, hstop, hbarred⟩ := exists_closing_cons s
  have hread : (Enclosure.bare s).read? (s.opening ++ (label ++ (s.closing ++ rest)))
      = some ⟨label, width s.opening + width label + width s.closing, rest⟩ :=
    Enclosure.read?_written (e := Enclosure.bare s) hstop hbarred
      (fun c hc hin => hplain c hc (barred_subset_delimiters s c hin)) rest
  refine findSome?_of_first (bare_mem_all s) ?_ ?_
  · intro e he
    have hopening : after? e.opening (s.opening ++ (label ++ (s.closing ++ rest))) = none := by
      rcases opening_clashes_or_continues s e he with hclash | ⟨c, hc, hlead, hclosing⟩
      · exact after?_of_clashes hclash _
      · exact after?_of_continues hlead (head?_label_ne hquote hplain hc hclosing rest)
    rw [Enclosure.read?, hopening]
    rfl
  · rw [hread, Option.map_some, Decoration.unquote_eq_self hquote, width_append, width_append,
      Nat.add_assoc]
    rfl

end Bare

/-! ## Tokens -/

/-- No opening bracket is a word character. -/
theorem opening_not_word (s : Shape) : s.opening.head?.map isWord = some false := by
  cases s <;> decide

/-- A word is read with the decoration directly after it, and alone where there is
    none. -/
theorem NodeToken.read?_word {id text : List Char} (hid : id ≠ [])
    (hword : ∀ c ∈ id, isWord c = true) (htext : ∀ c ∈ text.head?, isWord c = false) :
    NodeToken.read? (id ++ text)
      = some ((Decoration.read? text).elim (⟨String.ofList id, none, Text.width id⟩, text)
          fun r => (⟨String.ofList id, some r.value, Text.width id + r.width⟩, r.rest)) := by
  have hsome : id.isEmpty = false := List.isEmpty_eq_false_iff.2 hid
  simp only [NodeToken.read?, takeWhile_run hword htext, dropWhile_run hword htext, hsome,
    Bool.false_eq_true, if_false]
  cases Decoration.read? text with
  | none => rfl
  | some r => rfl

/-- **BOTH WAYS TO WRITE A NODE ARE READ BACK**.  A word with a label in the brackets
    of any shape is read as that word, shape and label, up to the closing bracket
    and no further: in quotes when the label holds none, and without them when it
    holds no bracket and no slash either.  The quotes are the only difference. -/
theorem NodeToken.enclosed_read_back (id label : String) (s : Shape) (rest : List Char)
    (hid : id ≠ "") (hword : ∀ c ∈ id.toList, isWord c = true) (hquote : '"' ∉ label.toList) :
    let quoted := id.toList ++ s.opening ++ ['"'] ++ label.toList ++ ['"'] ++ s.closing
    let bare := id.toList ++ s.opening ++ label.toList ++ s.closing
    NodeToken.read? (quoted ++ rest) = some (⟨id, some ⟨s, label⟩, Text.width quoted⟩, rest) ∧
      ((∀ c ∈ label.toList, c ∉ delimiters) →
        NodeToken.read? (bare ++ rest) = some (⟨id, some ⟨s, label⟩, Text.width bare⟩, rest) ∧
          Text.width bare + 2 = Text.width quoted) := by
  intro quoted bare
  have hne : id.toList ≠ [] := fun hnil => hid (String.toList_eq_nil_iff.1 hnil)
  constructor
  · have htext : quoted ++ rest = id.toList
        ++ (s.opening ++ '"' :: (label.toList ++ '"' :: (s.closing ++ rest))) := by
      simp [quoted]
    have hstop := head?_append_eq_false (opening_not_word s)
      ('"' :: (label.toList ++ '"' :: (s.closing ++ rest)))
    rw [htext, read?_word hne hword hstop, Decoration.read?_quoted hquote s rest]
    simp [quoted]
  · intro hplain
    have htext : bare ++ rest
        = id.toList ++ (s.opening ++ (label.toList ++ (s.closing ++ rest))) := by
      simp [bare]
    have hstop := head?_append_eq_false (opening_not_word s)
      (label.toList ++ (s.closing ++ rest))
    constructor
    · rw [htext, read?_word hne hword hstop, Decoration.read?_bare hquote hplain s rest]
      simp [bare]
    · have hmark : Text.width ['"'] = 1 := rfl
      simp only [bare, quoted, width_append, hmark]
      omega

/-- An arrow inside the brackets belongs to the label, and a bracket after them to
    what follows. -/
theorem NodeToken.enclosed_read_back_arrow :
    NodeToken.read? "Größe[\"a --> ü\"]] --> B".toList
        = some (⟨"Größe", some ⟨.rectangle, "a --> ü"⟩, 19⟩, "] --> B".toList) ∧
      NodeToken.read? "Größe[a --> ü]] --> B".toList
        = some (⟨"Größe", some ⟨.rectangle, "a --> ü"⟩, 17⟩, "] --> B".toList) := by
  have hword : ∀ c ∈ "Größe".toList, isWord c = true := List.all_eq_true.1 (by decide +kernel)
  have hplain : ∀ c ∈ "a --> ü".toList, c ∉ delimiters := by simp [delimiters]
  obtain ⟨hquoted, hbare⟩ := NodeToken.enclosed_read_back "Größe" "a --> ü" .rectangle
    "] --> B".toList (by decide) hword (by decide)
  exact ⟨hquoted, (hbare hplain).1⟩

end Flowchart
