import Flowchart.Proofs.Text.Trim
import Flowchart.Syntax.Enclosure

/-! # Enclosures — the first that fits is the one written

    A body without barred characters is read in the enclosure it was written in
    (`Enclosure.read?_written`).  Openings share their first brackets, so an
    enclosure tried earlier could fit as well; but with the label in quotes every
    one of them clashes with what stands there (`opening_clashes`).  So a label in
    quotes is read back with its shape (`Decoration.read?_quoted`). -/

namespace Flowchart

open Text

/-! ## The first enclosure that fits -/

/-- The texts differ at some place that both have. -/
def clashes : List Char → List Char → Bool
  | c :: lead, d :: text => c != d || clashes lead text
  | _, _ => false

/-- A text that clashes with a lead does not begin with it, whatever follows. -/
theorem after?_of_clashes {lead front : List Char} (h : clashes lead front = true)
    (rest : List Char) : after? lead (front ++ rest) = none := by
  induction lead generalizing front with
  | nil => exact nomatch h
  | cons c lead ih =>
      cases front with
      | nil => exact nomatch h
      | cons d front =>
          rw [List.cons_append, after?]
          by_cases hcd : c = d
          · have htail : clashes lead front = true := by simpa [clashes, hcd] using h
            rw [if_pos hcd, ih htail]
          · rw [if_neg hcd]

/-- The first entry with an answer gives it. -/
theorem findSome?_of_first {α β : Type} [DecidableEq α] {f : α → Option β} {x : α} {y : β}
    {xs : List α} (hmem : x ∈ xs) (hbefore : ∀ z ∈ xs.takeWhile (· != x), f z = none)
    (hx : f x = some y) : xs.findSome? f = some y := by
  induction xs with
  | nil => exact absurd hmem List.not_mem_nil
  | cons z xs ih =>
      by_cases hz : z = x
      · rw [hz, List.findSome?_cons, hx]
      · rw [List.takeWhile_cons_of_pos (p := (· != x)) (bne_iff_ne.2 hz)] at hbefore
        rw [List.findSome?_cons, hbefore z List.mem_cons_self]
        refine ih ((List.mem_cons.1 hmem).resolve_left (Ne.symm hz)) ?_
        intro w hw
        exact hbefore w (List.mem_cons_of_mem z hw)

/-- Every enclosure tried before the quoted one of a shape has an opening that
    clashes with it. -/
theorem opening_clashes (s : Shape) :
    ∀ e ∈ Enclosure.all.takeWhile (· != Enclosure.quoted s),
      clashes e.opening (Enclosure.quoted s).opening = true := by
  cases s <;> decide

theorem quoted_mem_all (s : Shape) : Enclosure.quoted s ∈ Enclosure.all := by
  cases s <;> decide

/-- A body without barred characters is read in its enclosure, when the closing
    begins with a barred one. -/
theorem Enclosure.read?_written {e : Enclosure} {body closing : List Char} {stop : Char}
    (hclosing : e.closing = stop :: closing) (hstop : stop ∈ e.barred)
    (hbody : ∀ c ∈ body, c ∉ e.barred) (rest : List Char) :
    e.read? (e.opening ++ (body ++ (e.closing ++ rest)))
      = some ⟨body, width e.opening + width body + width e.closing, rest⟩ := by
  have hfree : ∀ c ∈ body, (!e.barred.contains c) = true := by
    intro c hc
    rw [Bool.not_eq_true', List.contains_eq_mem]
    exact decide_eq_false (hbody c hc)
  have hend : ∀ c ∈ (e.closing ++ rest).head?, (!e.barred.contains c) = false := by
    intro c hc
    rw [hclosing] at hc
    rw [← Option.some.inj hc, Bool.not_eq_false', List.contains_eq_mem]
    exact decide_eq_true hstop
  have htake := takeWhile_run hfree hend
  have hdrop := dropWhile_run hfree hend
  have hopening : after? e.opening (e.opening ++ (body ++ (e.closing ++ rest)))
      = some (body ++ (e.closing ++ rest)) := after?_eq_some_iff.2 rfl
  have hclose : after? e.closing (e.closing ++ rest) = some rest := after?_eq_some_iff.2 rfl
  simp only [Enclosure.read?, hopening, htake, hdrop, hclose]

/-! ## Labels in quotes -/

/-- A label without quotes is its own label. -/
theorem Decoration.unquote_eq_self {label : List Char} (h : '"' ∉ label) :
    Decoration.unquote label = label := by
  rw [Decoration.unquote.eq_def]
  split
  · next inner => exact absurd List.mem_cons_self h
  · rfl

/-- **A LABEL IN QUOTES IS READ BACK** with its shape, whatever it holds besides
    quotes and whatever follows it. -/
theorem Decoration.read?_quoted {label : List Char} (h : '"' ∉ label) (s : Shape)
    (rest : List Char) :
    Decoration.read? (s.opening ++ '"' :: (label ++ '"' :: (s.closing ++ rest)))
      = some ⟨⟨s, String.ofList label⟩,
          width (s.opening ++ '"' :: (label ++ '"' :: s.closing)), rest⟩ := by
  have htext : s.opening ++ '"' :: (label ++ '"' :: (s.closing ++ rest))
      = (Enclosure.quoted s).opening ++ (label ++ ((Enclosure.quoted s).closing ++ rest)) := by
    simp [Enclosure.quoted]
  have hwidth : width (Enclosure.quoted s).opening + width label
      + width (Enclosure.quoted s).closing
        = width (s.opening ++ '"' :: (label ++ '"' :: s.closing)) := by
    simp only [Enclosure.quoted, width_append, width_cons, width_nil]
    omega
  have hread := Enclosure.read?_written (e := Enclosure.quoted s) rfl
    (List.mem_singleton_self _) (fun c hc hbarred => h (List.mem_singleton.1 hbarred ▸ hc)) rest
  rw [htext]
  refine findSome?_of_first (quoted_mem_all s) ?_ ?_
  · intro e he
    have hclash := after?_of_clashes (opening_clashes s e he)
      (label ++ ((Enclosure.quoted s).closing ++ rest))
    rw [Enclosure.read?, hclash]
    rfl
  · rw [hread, Option.map_some, hwidth, Decoration.unquote_eq_self h]
    rfl

/-- Where a blank or the end stands there is no decoration. -/
theorem Decoration.read?_of_spaced {rest : List Char} (h : Spaced rest) :
    Decoration.read? rest = none := by
  have hall : ∀ e ∈ Enclosure.all, e.opening.head?.map isBlank = some false := by decide +kernel
  refine List.findSome?_eq_none_iff.2 ?_
  intro e he
  have hopening : after? e.opening rest = none := by
    cases hafter : after? e.opening rest with
    | none => rfl
    | some tail =>
        -- the text would begin with the bracket, which is no blank
        obtain ⟨c, hc, hblank⟩ := Option.map_eq_some_iff.1 (hall e he)
        have hhead : c ∈ rest.head? := by
          rw [after?_eq_some_iff.1 hafter, List.head?_append, hc]
          rfl
        rw [h c hhead] at hblank
        exact nomatch hblank
  rw [Enclosure.read?, hopening]
  rfl

end Flowchart
