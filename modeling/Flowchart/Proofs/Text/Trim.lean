import Mathlib.Data.List.TakeWhile
import Flowchart.Text.Blank

/-! # Trimming — what is left when blanks go

    Blanks written before or after a text do not change what trimming leaves of
    it (`trimStart_append`, `trim_append`), and a text that neither begins nor
    ends with a blank is left as it is (`trim_eq_self`).  Recognisers take such
    runs of characters of one kind off a text; `takeWhile_run` and `dropWhile_run`
    say where they stop. -/

namespace Flowchart.Text

/-! ## Runs -/

section Run

variable {p : Char → Bool} {run rest : List Char}

/-- A run ends where the first other character stands. -/
theorem takeWhile_run (hrun : ∀ c ∈ run, p c = true) (hrest : ∀ c ∈ rest.head?, p c = false) :
    (run ++ rest).takeWhile p = run := by
  rw [List.takeWhile_append_of_pos hrun]
  cases rest with
  | nil => exact List.append_nil run
  | cons c rest =>
      have hc : ¬p c = true := Bool.eq_false_iff.1 (hrest c rfl)
      rw [List.takeWhile_cons_of_neg hc, List.append_nil]

/-- What follows a run is left. -/
theorem dropWhile_run (hrun : ∀ c ∈ run, p c = true) (hrest : ∀ c ∈ rest.head?, p c = false) :
    (run ++ rest).dropWhile p = rest := by
  rw [List.dropWhile_append_of_pos hrun]
  cases rest with
  | nil => rfl
  | cons c rest => exact List.dropWhile_cons_of_neg (Bool.eq_false_iff.1 (hrest c rfl))

/-- A text begins as the lead in front of it does. -/
theorem head?_append_eq_false {lead : List Char} (h : lead.head?.map p = some false)
    (text : List Char) : ∀ c ∈ (lead ++ text).head?, p c = false := by
  intro c hc
  cases lead with
  | nil => exact nomatch h
  | cons first others =>
      rw [← Option.some.inj hc]
      exact Option.some.inj h

/-- A run holds characters of its kind only. -/
theorem forall_mem_takeWhile (p : Char → Bool) (text : List Char) :
    ∀ c ∈ text.takeWhile p, p c = true := by
  intro c hc
  exact List.all_eq_true.1 List.all_takeWhile c hc

/-- A text with a run at its start begins with a character of that kind. -/
theorem exists_cons_of_takeWhile_ne_nil {text : List Char} (h : text.takeWhile p ≠ []) :
    ∃ c rest, text = c :: rest ∧ p c = true := by
  cases text with
  | nil => exact absurd rfl h
  | cons c rest =>
      refine ⟨c, rest, rfl, ?_⟩
      cases hc : p c with
      | true => rfl
      | false =>
          rw [List.takeWhile_cons_of_neg (Bool.eq_false_iff.1 hc)] at h
          exact absurd rfl h

end Run

section Before

variable {stop : Char} {body : List Char}

theorem forall_mem_bne (h : stop ∉ body) : ∀ c ∈ body, (c != stop) = true := by
  intro c hc
  rw [bne_iff_ne]
  rintro rfl
  exact h hc

theorem head?_bne (rest : List Char) : ∀ c ∈ (stop :: rest).head?, (c != stop) = false := by
  intro c hc
  rw [← Option.some.inj hc]
  exact bne_self_eq_false stop

/-- The text before the first of a character. -/
theorem takeWhile_before (h : stop ∉ body) (rest : List Char) :
    (body ++ stop :: rest).takeWhile (· != stop) = body :=
  takeWhile_run (forall_mem_bne h) (head?_bne rest)

/-- The text from the first of a character on. -/
theorem dropWhile_before (h : stop ∉ body) (rest : List Char) :
    (body ++ stop :: rest).dropWhile (· != stop) = stop :: rest :=
  dropWhile_run (forall_mem_bne h) (head?_bne rest)

end Before

/-- A run of blanks, perhaps empty. -/
def Blanks (text : List Char) : Prop := ∀ c ∈ text, isBlank c = true

theorem blanks_nil : Blanks [] := by
  intro c hc
  exact absurd hc List.not_mem_nil

theorem blanks_singleton {c : Char} (h : isBlank c = true) : Blanks [c] := by
  intro d hd
  rw [List.mem_singleton.1 hd]
  exact h

/-- The text neither begins nor ends with a blank. -/
structure Trimmed (text : List Char) : Prop where
  first : ∀ c ∈ text.head?, isBlank c = false
  last : ∀ c ∈ text.getLast?, isBlank c = false

/-- The text is empty, or begins with a blank. -/
def Spaced (text : List Char) : Prop := ∀ c ∈ text.head?, isBlank c = true

theorem spaced_nil : Spaced [] := by
  intro c hc
  exact nomatch hc

/-- No word goes on where a blank or the end stands. -/
theorem Spaced.not_word {text : List Char} (h : Spaced text) :
    ∀ c ∈ text.head?, isWord c = false := by
  intro c hc
  exact isWord_eq_false_of_isBlank (h c hc)

/-- A word character is no blank. -/
theorem isBlank_eq_false_of_isWord {c : Char} (h : isWord c = true) : isBlank c = false := by
  cases hblank : isBlank c with
  | false => rfl
  | true =>
      rw [isWord_eq_false_of_isBlank hblank] at h
      exact nomatch h

/-! ## At the start -/

theorem blanks_takeWhile (text : List Char) : Blanks (text.takeWhile isBlank) :=
  forall_mem_takeWhile isBlank text

/-- The blanks at the start, and what trimming leaves after them. -/
theorem takeWhile_append_trimStart (text : List Char) :
    text.takeWhile isBlank ++ trimStart text = text :=
  List.takeWhile_append_dropWhile

/-- Blanks at the start go. -/
theorem trimStart_append {blanks text : List Char} (h : Blanks blanks) :
    trimStart (blanks ++ text) = trimStart text :=
  List.dropWhile_append_of_pos h

/-- A text that does not begin with a blank keeps its start. -/
theorem trimStart_eq_self {text : List Char} (h : ∀ c ∈ text.head?, isBlank c = false) :
    trimStart text = text :=
  dropWhile_run blanks_nil h

/-! ## At the end -/

/-- Blanks at the end go. -/
theorem trimEnd_append {blanks text : List Char} (h : Blanks blanks) :
    trimEnd (text ++ blanks) = trimEnd text := by
  have hreverse : ∀ c ∈ blanks.reverse, isBlank c = true := by
    intro c hc
    exact h c (List.mem_reverse.1 hc)
  rw [trimEnd, List.reverse_append, List.dropWhile_append_of_pos hreverse, trimEnd]

/-- A text that does not end with a blank keeps its end. -/
theorem trimEnd_eq_self {text : List Char} (h : ∀ c ∈ text.getLast?, isBlank c = false) :
    trimEnd text = text := by
  have hreverse : ∀ c ∈ text.reverse.head?, isBlank c = false := by
    intro c hc
    rw [List.head?_reverse] at hc
    exact h c hc
  have hkeep : text.reverse.dropWhile isBlank = text.reverse := trimStart_eq_self hreverse
  rw [trimEnd, hkeep, List.reverse_reverse]

/-! ## At both ends -/

/-- Blanks after a text do not change what trimming leaves of it. -/
theorem trim_append {text blanks : List Char} (h : Blanks blanks) :
    trim (text ++ blanks) = trim text := by
  have hsplit : trimStart (text ++ blanks)
      = if (trimStart text).isEmpty then trimStart blanks else trimStart text ++ blanks :=
    List.dropWhile_append
  rw [trim, trim, hsplit]
  split
  · next hempty =>
      -- nothing but blanks on either side
      have hnone : trimStart blanks = [] := List.dropWhile_eq_nil_iff.2 h
      rw [hnone, List.isEmpty_iff.1 hempty]
  · exact trimEnd_append h

/-- **TRIMMING LEAVES A TRIMMED TEXT**. -/
theorem trimmed_trim (text : List Char) : Trimmed (trim text) := by
  have hlast : ∀ c ∈ (trim text).getLast?, isBlank c = false := by
    intro c hc
    have hstop := List.head?_dropWhile_not isBlank (trimStart text).reverse
    rw [trim, trimEnd, List.getLast?_reverse] at hc
    rw [hc] at hstop
    simpa using hstop
  refine ⟨?_, hlast⟩
  intro c hc
  -- a text that is not empty begins as it did before its end was trimmed
  have hprefix : trim text <+: trimStart text := by
    have hsuffix := (List.dropWhile_suffix isBlank (l := (trimStart text).reverse)).reverse
    rwa [List.reverse_reverse] at hsuffix
  have hfirst := List.head?_dropWhile_not isBlank text
  obtain ⟨rest, hrest⟩ := hprefix
  have hhead : c ∈ (trimStart text).head? := by
    rw [← hrest, List.head?_append, hc]
    rfl
  rw [trimStart] at hhead
  rw [hhead] at hfirst
  simpa using hfirst

/-- Trimming adds nothing. -/
theorem mem_of_mem_trim {text : List Char} {c : Char} (h : c ∈ trim text) : c ∈ text := by
  have hstart : c ∈ trimStart text := by
    rw [trim, trimEnd, List.mem_reverse] at h
    exact List.mem_reverse.1 ((List.dropWhile_sublist isBlank).subset h)
  exact (List.dropWhile_sublist isBlank).subset hstart

/-- A text without blanks at its ends stays as it is. -/
theorem trim_eq_self {text : List Char} (h : Trimmed text) : trim text = text := by
  rw [trim, trimStart_eq_self h.first, trimEnd_eq_self h.last]

end Flowchart.Text
