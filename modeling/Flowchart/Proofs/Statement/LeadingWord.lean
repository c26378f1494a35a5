import Flowchart.Proofs.Text.Lines
import Flowchart.Syntax.Statement

/-! # Leading words — what a line cannot say

    Directives and the opening of a subgraph are recognised by the word that
    leads the line, the longest run of word characters there
    (`takeWhile_of_afterWord?`).  A line led by an id that is not reserved is
    therefore none of them, however the id begins: it is a chain, a declaration
    or nothing known (`read_of_free`). -/

namespace Flowchart

open Text

namespace Statement

/-- Every reserved word is one word. -/
theorem isWord_of_mem_reservedWords :
    ∀ word ∈ reservedWords, ∀ c ∈ word.toList, isWord c = true := by
  have hall : ∀ word ∈ reservedWords, word.toList.all isWord = true := by decide +kernel
  intro word hword
  exact List.all_eq_true.1 (hall word hword)

/-- A line read as a word and blanks is led by that word. -/
theorem takeWhile_of_afterWord? {word : String} (hword : word ∈ reservedWords)
    {line rest : List Char} (h : afterWord? word line = some rest) :
    line.takeWhile isWord = word.toList := by
  rw [afterWord?] at h
  split at h
  · exact nomatch h
  · next tail htail =>
      split at h
      · next hblank =>
          rw [after?_eq_some_iff.1 htail]
          refine takeWhile_run (isWord_of_mem_reservedWords word hword) ?_
          intro c hc
          rw [hc] at hblank
          exact isWord_eq_false_of_isBlank hblank
      · exact nomatch h

variable {line : List Char}

theorem afterWord?_eq_none {word : String} (hword : word ∈ reservedWords)
    (h : line.takeWhile isWord ≠ word.toList) : afterWord? word line = none := by
  cases hread : afterWord? word line with
  | none => rfl
  | some rest => exact absurd (takeWhile_of_afterWord? hword hread) h

theorem isDirection_eq_false (h : line.takeWhile isWord ≠ "direction".toList) :
    isDirection line = false := by
  rw [isDirection, afterWord?_eq_none (by decide) h]

theorem isStyling_eq_false (h : ∀ word ∈ stylingWords, line.takeWhile isWord ≠ word.toList) :
    isStyling line = false := by
  have hreserved : ∀ word ∈ stylingWords, word ∈ reservedWords := by decide
  rw [isStyling, List.any_eq_false]
  intro word hword
  rw [afterWord?_eq_none (hreserved word hword) (h word hword)]
  exact Bool.false_ne_true

theorem readOpening?_eq_none (h : line.takeWhile isWord ≠ "subgraph".toList) :
    readOpening? line = none := by
  rw [readOpening?, afterWord?_eq_none (by decide) h]

/-- A line that begins with a word is neither empty nor a comment. -/
theorem isSignificant_of_word (h : line.takeWhile isWord ≠ []) : isSignificant line = true := by
  obtain ⟨c, rest, rfl, hword⟩ := exists_cons_of_takeWhile_ne_nil h
  have hpercent : '%' ≠ c := by
    rintro rfl
    exact absurd hword (by decide)
  simp [isSignificant, startsWith, after?, hpercent]

/-- A line that begins with a word character and does not end with a blank is plain. -/
theorem plain_of_word {first : Char} {rest : List Char} (hword : isWord first = true)
    (hlast : ∀ c ∈ (first :: rest).getLast?, isBlank c = false) (hsingle : '\n' ∉ first :: rest) :
    Plain (first :: rest) := by
  have hfirst : ∀ c ∈ (first :: rest).head?, isBlank c = false := by
    intro c hc
    rw [← Option.some.inj hc]
    exact isBlank_eq_false_of_isWord hword
  have hlead : (first :: rest).takeWhile isWord ≠ [] := by
    rw [List.takeWhile_cons_of_pos hword]
    exact List.cons_ne_nil _ _
  exact ⟨hsingle, ⟨hfirst, hlast⟩, isSignificant_of_word hlead⟩

/-- A line that counts is read past the first two kinds. -/
theorem read_of_significant (h : isSignificant line = true) :
    read line =
      if isDirection line then .direction
      else if isStyling line then .styling
      else
        match readOpening? line with
        | some name => .openSubgraph name
        | none =>
            if line = "end".toList then .closeSubgraph
            else
              match Chain.read? line with
              | some chain => .edges chain
              | none =>
                  match readDeclaration? line with
                  | some token => .declaration token
                  | none => .other := by
  obtain ⟨hempty, hcomment⟩ := Bool.and_eq_true_iff.1 h
  rw [Bool.not_eq_true'] at hempty hcomment
  rw [read, hempty, hcomment]
  rfl

/-- **A FREE WORD LEADS NO DIRECTIVE**: a line led by an id that is not reserved is
    a chain, a declaration, or nothing known. -/
theorem read_of_free {id : String} (hid : line.takeWhile isWord = id.toList)
    (hne : id.toList ≠ []) (hfree : isReserved id = false) :
    read line =
      match Chain.read? line with
      | some chain => .edges chain
      | none =>
          match readDeclaration? line with
          | some token => .declaration token
          | none => .other := by
  have hdiffers : ∀ word ∈ reservedWords, line.takeWhile isWord ≠ word.toList := by
    intro word hword heq
    rw [hid, String.toList_inj] at heq
    rw [heq, isReserved, List.contains_iff_mem.2 hword] at hfree
    exact nomatch hfree
  have hstyling : ∀ word ∈ stylingWords, line.takeWhile isWord ≠ word.toList := by
    intro word hword
    have hreserved : ∀ word ∈ stylingWords, word ∈ reservedWords := by decide
    exact hdiffers word (hreserved word hword)
  have hend : line ≠ "end".toList := by
    rintro rfl
    exact hdiffers "end" (by decide) (by decide)
  rw [read_of_significant (isSignificant_of_word (hid ▸ hne)),
    isDirection_eq_false (hdiffers "direction" (by decide)), isStyling_eq_false hstyling,
    readOpening?_eq_none (hdiffers "subgraph" (by decide))]
  simp only [Bool.false_eq_true, if_false, hend]

end Statement

end Flowchart
