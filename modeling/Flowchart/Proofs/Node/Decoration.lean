import Flowchart.Proofs.Node.Token

/-! # Decorations — the first enclosure that a text begins with

    `Enclosure.Holds` says what it is for a text to begin with an enclosure: it is
    the opening, a body without barred characters, the closing, and a rest.  Every
    closing begins with a character that its body cannot hold, so there is at most
    one such body (`Enclosure.Holds.unique`), and the recogniser, which looks no
    further than the first barred character, finds it (`Enclosure.read?_eq_some_iff`).
    A decoration is read in the first enclosure of the table that the text begins
    with, and none is read when there is no such enclosure
    (`Decoration.read?_first_fit`). -/

namespace Flowchart

open Text

/-! ## One enclosure -/

namespace Enclosure

variable {e : Enclosure} {text body rest : List Char}

/-- `text` is the opening of `e`, `body`, the closing and `rest`, and `body` holds
    no barred character. -/
structure Holds (e : Enclosure) (text body rest : List Char) : Prop where
  text_eq : text = e.opening ++ body ++ e.closing ++ rest
  free : ∀ c ∈ body, c ∉ e.barred

/-- `text` begins with `e`, around some body. -/
def Fits (e : Enclosure) (text : List Char) : Prop := ∃ body rest, e.Holds text body rest

/-- Every enclosure of the table is the quoted or the bare one of a shape. -/
theorem exists_shape_of_mem_all (he : e ∈ all) : ∃ s, e = quoted s ∨ e = bare s := by
  obtain ⟨s, -, he⟩ := List.mem_flatMap.1 he
  refine ⟨s, ?_⟩
  rcases List.mem_cons.1 he with rfl | he
  · exact Or.inl rfl
  · exact Or.inr (List.mem_singleton.1 he)

/-- Its closing begins with a character that its body cannot hold. -/
theorem exists_barred_stop (he : e ∈ all) :
    ∃ stop closing, e.closing = stop :: closing ∧ stop ∈ e.barred := by
  obtain ⟨s, rfl | rfl⟩ := exists_shape_of_mem_all he
  · exact ⟨'"', s.closing, rfl, List.mem_singleton_self _⟩
  · exact exists_closing_cons s

/-- **THE BODY IS READ** exactly when the text begins with the enclosure around
    it. -/
theorem read?_eq_some_iff (he : e ∈ all) {r : Reading (List Char)} :
    e.read? text = some r ↔
      e.Holds text r.value r.rest ∧ r.width = width (e.opening ++ r.value ++ e.closing) := by
  constructor
  · intro hread
    obtain ⟨htext, hfree, hwidth⟩ := read?_sound hread
    exact ⟨⟨htext, hfree⟩, hwidth⟩
  · rintro ⟨⟨htext, hfree⟩, hwidth⟩
    obtain ⟨stop, closing, hclosing, hstop⟩ := exists_barred_stop he
    have hread := read?_written hclosing hstop hfree r.rest
    rw [← width_append, ← width_append, ← hwidth] at hread
    rw [htext, List.append_assoc, List.append_assoc]
    exact hread

theorem Holds.read? (h : e.Holds text body rest) (he : e ∈ all) :
    e.read? text = some ⟨body, width (e.opening ++ body ++ e.closing), rest⟩ :=
  (read?_eq_some_iff he).2 ⟨h, rfl⟩

/-- There is at most one body, and one rest. -/
theorem Holds.unique {body' rest' : List Char} (h : e.Holds text body rest) (he : e ∈ all)
    (h' : e.Holds text body' rest') : body' = body ∧ rest' = rest := by
  have hread := h'.read? he
  rw [h.read? he, Option.some_inj, Reading.mk.injEq] at hread
  exact ⟨hread.1.symm, hread.2.2.symm⟩

theorem read?_eq_none_iff (he : e ∈ all) : e.read? text = none ↔ ¬e.Fits text := by
  constructor
  · rintro hnone ⟨body, rest, h⟩
    rw [h.read? he] at hnone
    exact nomatch hnone
  · intro hfits
    cases hread : e.read? text with
    | none => rfl
    | some r => exact absurd ⟨r.value, r.rest, ((read?_eq_some_iff he).1 hread).1⟩ hfits

/-- An enclosure and those before it are in the table. -/
theorem mem_all_of_split {earlier later : List Enclosure} (hall : all = earlier ++ e :: later) :
    e ∈ all ∧ ∀ d ∈ earlier, d ∈ all := by
  rw [hall]
  exact ⟨List.mem_append_right _ List.mem_cons_self, fun d hd => List.mem_append_left _ hd⟩

/-- `e` is the first enclosure of the table that `text` begins with. -/
structure FirstFit (e : Enclosure) (text body rest : List Char) : Prop where
  holds : e.Holds text body rest
  first : ∃ earlier later, all = earlier ++ e :: later ∧ ∀ d ∈ earlier, ¬d.Fits text

end Enclosure

/-! ## Labels -/

namespace Decoration

/-- `label` is `body` without a double quote at each end if it has both, and else
    all of it. -/
inductive Unquoted : List Char → List Char → Prop where
  | wrapped (label : List Char) : Unquoted ('"' :: (label ++ ['"'])) label
  | plain {body : List Char} (h : ∀ inner, body ≠ '"' :: (inner ++ ['"'])) : Unquoted body body

/-- Whatever the body, its label is what is left of it. -/
theorem unquoted_unquote (body : List Char) : Unquoted body (unquote body) := by
  rw [unquote.eq_def]
  split
  · next inner =>
      split
      · next hlast =>
          obtain ⟨label, rfl⟩ := List.getLast?_eq_some_iff.1 hlast
          rw [List.dropLast_concat]
          exact Unquoted.wrapped label
      · next hlast =>
          refine Unquoted.plain ?_
          rintro label heq
          rw [(List.cons.inj heq).2, List.getLast?_concat] at hlast
          exact hlast rfl
  · next hnot => exact Unquoted.plain fun inner => hnot (inner ++ ['"'])

/-- A body has one label. -/
theorem Unquoted.unquote_eq {body label : List Char} (h : Unquoted body label) :
    unquote body = label := by
  cases h with
  | wrapped =>
      show (if (label ++ ['"']).getLast? = some '"' then _ else _) = label
      rw [if_pos List.getLast?_concat, List.dropLast_concat]
  | @plain body h =>
      -- no pair of quotes was there to take away
      generalize hlabel : unquote body = label
      have hunquoted : Unquoted body label := hlabel ▸ unquoted_unquote body
      cases hunquoted with
      | wrapped label => exact absurd rfl (h label)
      | plain => rfl

/-! ## The whole table -/

variable {text : List Char}

/-- A decoration is read in the first enclosure that fits. -/
theorem read?_eq_some_iff {r : Reading Decoration} :
    read? text = some r ↔
      ∃ e body, Enclosure.FirstFit e text body r.rest ∧ r.value.shape = e.shape ∧
        Unquoted body r.value.label.toList ∧ r.width = width (e.opening ++ body ++ e.closing) := by
  rw [read?, List.findSome?_eq_some_iff]
  constructor
  · rintro ⟨earlier, e, later, hall, hread, hearlier⟩
    obtain ⟨he, hmem⟩ := Enclosure.mem_all_of_split hall
    obtain ⟨⟨body, w, rest⟩, hbody, rfl⟩ := Option.map_eq_some_iff.1 hread
    obtain ⟨hholds, hwidth⟩ := (Enclosure.read?_eq_some_iff he).1 hbody
    refine ⟨e, body, ⟨hholds, earlier, later, hall, ?_⟩, rfl, ?_, hwidth⟩
    · intro d hd
      exact (Enclosure.read?_eq_none_iff (hmem d hd)).1 (Option.map_eq_none_iff.1 (hearlier d hd))
    · rw [String.toList_ofList]
      exact unquoted_unquote body
  · rintro ⟨e, body, ⟨hholds, earlier, later, hall, hfirst⟩, hshape, hlabel, hwidth⟩
    obtain ⟨he, hmem⟩ := Enclosure.mem_all_of_split hall
    refine ⟨earlier, e, later, hall, ?_, ?_⟩
    · rw [hholds.read? he, Option.map_some, hlabel.unquote_eq, String.ofList_toList, ← hwidth,
        ← hshape]
    · intro d hd
      exact Option.map_eq_none_iff.2 ((Enclosure.read?_eq_none_iff (hmem d hd)).2 (hfirst d hd))

/-- No decoration is read exactly where no enclosure fits. -/
theorem read?_eq_none_iff : read? text = none ↔ ∀ e ∈ Enclosure.all, ¬e.Fits text := by
  rw [read?, List.findSome?_eq_none_iff]
  refine forall₂_congr fun e he => ?_
  rw [Option.map_eq_none_iff, Enclosure.read?_eq_none_iff he]

/-- **THE FIRST ENCLOSURE THAT FITS** is the one a decoration is read in, with its
    shape, the body without its quotes, and the bytes up to the rest; an enclosure
    fits around one body only.  None is read exactly where no enclosure fits, and
    exactly there a word before the text is a node by itself. -/
theorem read?_first_fit (text : List Char) :
    (∀ r : Reading Decoration, read? text = some r ↔
        ∃ e body, Enclosure.FirstFit e text body r.rest ∧ r.value.shape = e.shape ∧
          Unquoted body r.value.label.toList ∧
          r.width = width (e.opening ++ body ++ e.closing)) ∧
      (∀ e ∈ Enclosure.all, ∀ body rest body' rest', e.Holds text body rest →
        e.Holds text body' rest' → body' = body ∧ rest' = rest) ∧
      (read? text = none ↔ ∀ e ∈ Enclosure.all, ¬e.Fits text) ∧
      ∀ id : List Char, id ≠ [] → (∀ c ∈ id, isWord c = true) →
        (∀ c ∈ text.head?, isWord c = false) →
          (NodeToken.read? (id ++ text) = some (⟨String.ofList id, none, width id⟩, text) ↔
            ∀ e ∈ Enclosure.all, ¬e.Fits text) := by
  refine ⟨fun r => read?_eq_some_iff, fun e he _ _ _ _ h => h.unique he, read?_eq_none_iff, ?_⟩
  intro id hid hword htext
  rw [NodeToken.read?_word hid hword htext, ← read?_eq_none_iff]
  cases read? text with
  | none => exact iff_of_true rfl rfl
  | some r =>
      refine iff_of_false ?_ (Option.some_ne_none r)
      intro heq
      have hdecoration := congrArg (fun p => p.1.decoration) (Option.some.inj heq)
      exact nomatch hdecoration

/-- With a quote too many the quoted rectangle fails and the bare one fits; with a
    bracket too few nothing fits, and the word stands alone. -/
theorem read?_first_fit_stray_quotes :
    (∃ e body, Enclosure.FirstFit e "[\"a\"b\"] --> B".toList body " --> B".toList ∧
        e.shape = .rectangle ∧ Unquoted body "a\"b".toList ∧
        ∀ body' rest', e.Holds "[\"a\"b\"] --> B".toList body' rest' → body' = body) ∧
      NodeToken.read? ("Größe".toList ++ "[\"a) --> B".toList)
        = some (⟨"Größe", none, 7⟩, "[\"a) --> B".toList) := by
  obtain ⟨hsome, hunique, -, -⟩ := read?_first_fit "[\"a\"b\"] --> B".toList
  obtain ⟨-, -, hnone, hword⟩ := read?_first_fit "[\"a) --> B".toList
  constructor
  · obtain ⟨e, body, hfirst, hshape, hlabel, -⟩ :=
      (hsome ⟨⟨.rectangle, "a\"b"⟩, 7, " --> B".toList⟩).1 rfl
    obtain ⟨earlier, later, hall, -⟩ := hfirst.first
    refine ⟨e, body, hfirst, hshape.symm, hlabel, ?_⟩
    intro body' rest' hholds
    exact (hunique e (Enclosure.mem_all_of_split hall).1 _ _ _ _ hfirst.holds hholds).1
  · have hid : ∀ c ∈ "Größe".toList, isWord c = true := List.all_eq_true.1 (by decide +kernel)
    have hstop : ∀ c ∈ "[\"a) --> B".toList.head?, isWord c = false := by
      intro c hc
      rw [← Option.some.inj hc]
      rfl
    exact (hword "Größe".toList (by decide) hid hstop).2 (hnone.1 rfl)

end Decoration

end Flowchart
