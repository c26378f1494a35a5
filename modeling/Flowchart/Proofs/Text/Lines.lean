import Flowchart.Proofs.Text.Trim
import Flowchart.Text.Lines

/-! # Lines — which of them count, however they end

    Reading a source text looks at its lines only after trimming them, and passes
    over those that are then empty or comments: `significantLines` are the rest.
    A carriage return at the end of a line is trimmed away, so writing one before
    every line feed changes no trimmed line (`map_trim_lines_withReturns`).  Lines
    that are already as reading wants them are found again in the text that holds
    one after the other (`significantLines_intercalate`). -/

namespace Flowchart.Text

/-- The trimmed lines of `text` that are neither empty nor comments. -/
def significantLines (text : List Char) : List (List Char) :=
  ((lines text).map trim).filter isSignificant

/-- The text with a carriage return before every line feed. -/
def withReturns (text : List Char) : List Char :=
  text.flatMap fun c => if c = '\n' then ['\r', '\n'] else [c]

/-- **LINE BY LINE**: what holds of every line without a line feed, and stays true
    when such a line and a line feed are put in front, holds of every text. -/
theorem lines_induction {P : List Char → Prop} (last : ∀ line, '\n' ∉ line → P line)
    (feed : ∀ line rest, '\n' ∉ line → P rest → P (line ++ '\n' :: rest)) (text : List Char) :
    P text := by
  -- along the text, with the line read so far in front
  have hfront : ∀ text front : List Char, '\n' ∉ front → P (front ++ text) := by
    intro text
    induction text with
    | nil =>
        intro front h
        rw [List.append_nil]
        exact last front h
    | cons c text ih =>
        intro front h
        by_cases hc : c = '\n'
        · subst hc
          exact feed front text h (ih [] List.not_mem_nil)
        · have hlonger : '\n' ∉ front ++ [c] := by
            rw [List.mem_append, List.mem_singleton, not_or]
            exact ⟨h, Ne.symm hc⟩
          have hp := ih (front ++ [c]) hlonger
          rwa [List.append_assoc, List.singleton_append] at hp
  exact hfront text [] List.not_mem_nil

/-- No line holds a line feed. -/
theorem not_mem_of_mem_lines {text line : List Char} (h : line ∈ lines text) : '\n' ∉ line := by
  induction text using lines_induction with
  | last only hsingle =>
      by_cases hempty : only = []
      · rw [hempty, lines_nil] at h
        exact absurd h List.not_mem_nil
      · rw [lines_of_not_mem hsingle hempty] at h
        rwa [List.mem_singleton.1 h]
  | feed first rest hsingle ih =>
      rw [lines_append_newline hsingle] at h
      rcases List.mem_cons.1 h with rfl | hrest
      · rw [dropReturn]
        split
        · exact fun hmem => hsingle ((List.dropLast_sublist first).subset hmem)
        · exact hsingle
      · exact ih hrest

/-- Nor does a significant one. -/
theorem not_mem_of_mem_significantLines {text line : List Char}
    (h : line ∈ significantLines text) : '\n' ∉ line := by
  obtain ⟨written, hwritten, rfl⟩ := List.mem_map.1 (List.mem_filter.1 h).1
  exact fun hmem => not_mem_of_mem_lines hwritten (mem_of_mem_trim hmem)

/-! ## Carriage returns -/

theorem blanks_return : Blanks ['\r'] := blanks_singleton (by decide)

/-- Trimming takes a carriage return at the end along. -/
theorem trim_dropReturn (line : List Char) : trim (dropReturn line) = trim line := by
  rw [dropReturn]
  split
  · next hreturn =>
      obtain ⟨front, rfl⟩ := List.getLast?_eq_some_iff.1 hreturn
      rw [List.dropLast_concat, trim_append blanks_return]
  · rfl

/-- A line without a line feed is unchanged. -/
theorem withReturns_of_not_mem {line : List Char} (h : '\n' ∉ line) : withReturns line = line := by
  induction line with
  | nil => rfl
  | cons c line ih =>
      obtain ⟨hc, hline⟩ := not_or.1 (List.mem_cons.not.1 h)
      have hstep : withReturns (c :: line) = c :: withReturns line := by
        rw [withReturns, List.flatMap_cons, if_neg (Ne.symm hc)]
        rfl
      rw [hstep, ih hline]

/-- A line feed gets a carriage return before it. -/
theorem withReturns_append_newline {line rest : List Char} (h : '\n' ∉ line) :
    withReturns (line ++ '\n' :: rest) = (line ++ ['\r']) ++ '\n' :: withReturns rest := by
  have hline := withReturns_of_not_mem h
  rw [withReturns] at hline ⊢
  rw [List.flatMap_append, List.flatMap_cons, hline, if_pos rfl, List.append_assoc]
  rfl

/-- **CARRIAGE RETURNS DO NOT COUNT**: before line feeds they change no trimmed
    line. -/
theorem map_trim_lines_withReturns (text : List Char) :
    (lines (withReturns text)).map trim = (lines text).map trim := by
  induction text using lines_induction with
  | last line h => rw [withReturns_of_not_mem h]
  | feed line rest h ih =>
      have hreturn : '\n' ∉ line ++ ['\r'] := by
        rw [List.mem_append, List.mem_singleton, not_or]
        exact ⟨h, by decide⟩
      rw [withReturns_append_newline h, lines_append_newline hreturn, lines_append_newline h,
        List.map_cons, List.map_cons, ih, trim_dropReturn, trim_dropReturn,
        trim_append blanks_return]

/-- Hence they change no significant line. -/
theorem significantLines_withReturns (text : List Char) :
    significantLines (withReturns text) = significantLines text := by
  rw [significantLines, map_trim_lines_withReturns, significantLines]

/-! ## Texts written line by line -/

/-- A text without a line feed gives its own line, if that counts. -/
theorem significantLines_of_not_mem {line : List Char} (h : '\n' ∉ line) :
    significantLines line = [trim line].filter isSignificant := by
  by_cases hempty : line = []
  · subst hempty
    rw [significantLines, lines_nil]
    rfl
  · rw [significantLines, lines_of_not_mem h hempty]
    rfl

/-- A line feed ends a line, which is followed by those after it. -/
theorem significantLines_append_newline {line rest : List Char} (h : '\n' ∉ line) :
    significantLines (line ++ '\n' :: rest)
      = [trim line].filter isSignificant ++ significantLines rest := by
  rw [significantLines, lines_append_newline h, List.map_cons, trim_dropReturn, significantLines,
    ← List.filter_append]
  rfl

/-- **TEXTS MEET AT A LINE FEED**: the lines that count are those before it and
    those after it, also where it follows a line feed or a carriage return. -/
theorem significantLines_append (text rest : List Char) :
    significantLines (text ++ '\n' :: rest) = significantLines text ++ significantLines rest := by
  induction text using lines_induction with
  | last line h =>
      rw [significantLines_append_newline h, significantLines_of_not_mem h]
  | feed line middle h ih =>
      rw [List.append_assoc, List.cons_append, significantLines_append_newline h, ih,
        significantLines_append_newline h, List.append_assoc]

/-- A line feed at the very end does not count. -/
theorem significantLines_append_final_newline (text : List Char) :
    significantLines (text ++ ['\n']) = significantLines text := by
  rw [significantLines_append, significantLines_of_not_mem List.not_mem_nil]
  exact List.append_nil _

/-- A line that reading finds as it was written. -/
structure Plain (line : List Char) : Prop where
  single : '\n' ∉ line
  trimmed : Trimmed line
  significant : isSignificant line = true

theorem Plain.filter_trim {line : List Char} (h : Plain line) :
    [trim line].filter isSignificant = [line] := by
  rw [trim_eq_self h.trimmed, List.filter_cons_of_pos h.significant, List.filter_nil]

/-- **PLAIN LINES ARE FOUND AGAIN** in the text that holds one after the other. -/
theorem significantLines_intercalate {written : List (List Char)}
    (h : ∀ line ∈ written, Plain line) :
    significantLines (['\n'].intercalate written) = written := by
  induction written with
  | nil => exact significantLines_of_not_mem List.not_mem_nil
  | cons line written ih =>
      have hline := h line List.mem_cons_self
      have hrest : ∀ line ∈ written, Plain line := by
        intro next hnext
        exact h next (List.mem_cons_of_mem line hnext)
      cases written with
      | nil =>
          rw [List.intercalate_singleton, significantLines_of_not_mem hline.single,
            hline.filter_trim]
      | cons next written =>
          rw [List.intercalate_cons_cons, List.append_assoc, List.singleton_append,
            significantLines_append_newline hline.single, hline.filter_trim, ih hrest]
          rfl

/-! ## The first significant line -/

/-- A plain line alone is its own first significant line. -/
theorem Plain.firstSignificant? {line : List Char} (h : Plain line) :
    firstSignificant? line = some (line, 0) := by
  have hne : line ≠ [] := by
    rintro rfl
    exact absurd h.significant (by decide)
  rw [Text.firstSignificant?, lines_of_not_mem h.single hne, List.map_singleton,
    trim_eq_self h.trimmed]
  exact List.find?_cons_of_pos h.significant

/-- The first entry that passes a test, found with its place, begins the list of
    all that pass. -/
theorem filter_of_find?_zipIdx {α : Type} {p : α → Bool} {x : α} {i : Nat} (xs : List α) (k : Nat)
    (h : (xs.zipIdx k).find? (fun entry => p entry.1) = some (x, i)) :
    k ≤ i ∧ xs.filter p = x :: (xs.drop (i - k + 1)).filter p := by
  induction xs generalizing k with
  | nil => exact nomatch h
  | cons y xs ih =>
      rw [List.zipIdx_cons, List.find?_cons] at h
      cases hy : p y with
      | true =>
          rw [hy] at h
          obtain ⟨rfl, rfl⟩ := Prod.mk.inj (Option.some.inj h)
          refine ⟨Nat.le_refl _, ?_⟩
          rw [List.filter_cons_of_pos hy, Nat.sub_self]
          rfl
      | false =>
          rw [hy] at h
          obtain ⟨hle, hfilter⟩ := ih (k + 1) h
          refine ⟨by omega, ?_⟩
          have hplace : i - k + 1 = (i - (k + 1) + 1) + 1 := by omega
          rw [List.filter_cons_of_neg (by rw [hy]; exact Bool.false_ne_true), hfilter, hplace,
            List.drop_succ_cons]

/-- The first significant line is followed by those of the lines after it. -/
theorem significantLines_of_firstSignificant? {text line : List Char} {i : Nat}
    (h : firstSignificant? text = some (line, i)) :
    significantLines text
      = line :: (((lines text).drop (i + 1)).map trim).filter isSignificant := by
  obtain ⟨-, hfilter⟩ := filter_of_find?_zipIdx _ 0 h
  rw [significantLines, hfilter, List.map_drop, Nat.sub_zero]

/-- Where no first significant line is found there is none. -/
theorem significantLines_of_firstSignificant?_none {text : List Char}
    (h : firstSignificant? text = none) : significantLines text = [] := by
  rw [significantLines, List.filter_eq_nil_iff]
  intro line hline
  obtain ⟨i, hi⟩ := List.mem_iff_getElem?.1 hline
  exact List.find?_eq_none.1 h (line, i) (List.mk_mem_zipIdx_iff_getElem?.2 hi)

end Flowchart.Text
