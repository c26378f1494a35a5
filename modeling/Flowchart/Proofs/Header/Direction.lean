import Mathlib.Data.List.Basic
import Flowchart.Proofs.Statement.LeadingWord
import Flowchart.Proofs.Text.Lines
import Flowchart.Syntax.Header

/-! # Directions — a header that is written is read

    A direction may be written with 54 characters, the ASCII letters and the two
    that fold to one; all that is said of them singly is checked on the list
    (`directionLetters`).  A keyword, a blank and such letters are a plain line
    that announces the letters in capitals (`readDirection?_written`).  Capitals
    stay as they are, so the direction of a header is announced again by a header
    that is written with it (`IsDirection.classify`). -/

namespace Flowchart.Header

open Text

/-! ## Letters -/

/-- The characters that a direction may be written with. -/
def directionLetters : List Char :=
  (List.range' 0x41 26 ++ List.range' 0x61 26).map Char.ofNat ++ ['\u017F', '\u212A']

/-- An ASCII capital or the Kelvin sign: what a direction is announced with. -/
def isCapital (c : Char) : Bool := c.isUpper || c == '\u212A'

theorem mem_directionLetters {c : Char} (h : isDirectionLetter c = true) :
    c ∈ directionLetters := by
  rw [isDirectionLetter, Bool.or_eq_true, Bool.or_eq_true, beq_iff_eq, beq_iff_eq] at h
  rw [directionLetters, List.mem_append]
  rcases h with (hletter | rfl) | rfl
  · left
    have hletter' : (decide (c.val ≥ 'A'.val ∧ c.val ≤ 'Z'.val)
        || decide (c.val ≥ 'a'.val) && decide (c.val ≤ 'z'.val)) = true := hletter
    have hcode : (0x41 ≤ c.toNat ∧ c.toNat ≤ 0x5A) ∨ (0x61 ≤ c.toNat ∧ c.toNat ≤ 0x7A) := by
      simpa [UInt32.le_iff_toNat_le] using hletter'
    refine List.mem_map.2 ⟨c.toNat, ?_, Char.ofNat_toNat c⟩
    rw [List.mem_append, List.mem_range'_1, List.mem_range'_1]
    omega
  · right
    exact List.mem_cons_self
  · right
    exact List.mem_cons_of_mem _ List.mem_cons_self

/-- What holds of each of the letters. -/
private theorem directionLetters_checked :
    ∀ c ∈ directionLetters, isBlank c = false ∧ isCapital (capital c) = true ∧
      (isCapital c = true → capital c = c) := by
  have hall : (directionLetters.all fun c =>
      !isBlank c && (isCapital (capital c) && (!isCapital c || capital c == c))) = true := by
    decide +kernel
  intro c hc
  have hchecked := List.all_eq_true.1 hall c hc
  simp only [Bool.and_eq_true, Bool.or_eq_true, Bool.not_eq_true', beq_iff_eq] at hchecked
  obtain ⟨hblank, hcapital, hself⟩ := hchecked
  exact ⟨hblank, hcapital, fun h => hself.resolve_left (by rw [h]; exact Bool.noConfusion)⟩

theorem isBlank_eq_false_of_isDirectionLetter {c : Char} (h : isDirectionLetter c = true) :
    isBlank c = false :=
  (directionLetters_checked c (mem_directionLetters h)).1

theorem isCapital_capital {c : Char} (h : isDirectionLetter c = true) :
    isCapital (capital c) = true :=
  (directionLetters_checked c (mem_directionLetters h)).2.1

theorem isDirectionLetter_of_isCapital {c : Char} (h : isCapital c = true) :
    isDirectionLetter c = true := by
  rw [isCapital, Bool.or_eq_true] at h
  rw [isDirectionLetter, Bool.or_eq_true, Bool.or_eq_true]
  refine h.imp_left fun hupper => Or.inl ?_
  show (c.isUpper || c.isLower) = true
  rw [hupper, Bool.true_or]

/-- A capital stays as it is. -/
theorem capital_eq_self {c : Char} (h : isCapital c = true) : capital c = c :=
  (directionLetters_checked c (mem_directionLetters (isDirectionLetter_of_isCapital h))).2.2 h

/-! ## Written headers -/

section Written

variable {keyword : String} {letters : List Char}

/-- No dialect begins as a keyword does. -/
theorem matchDialect?_written (h : keyword ∈ keywords) (rest : List Char) :
    matchDialect? (keyword.toList ++ rest) = none := by
  rcases List.mem_cons.1 h with rfl | h
  · rfl
  · rw [List.mem_singleton.1 h]
    rfl

/-- **A WRITTEN HEADER IS READ**: it announces its letters in capitals. -/
theorem readDirection?_written (h : keyword ∈ keywords) (hne : letters ≠ [])
    (hletters : ∀ c ∈ letters, isDirectionLetter c = true) :
    readDirection? (keyword.toList ++ ' ' :: letters) = some (letters.map capital) := by
  have hrest : keywords.findSome?
      (fun known => afterIgnoringCase? known.toList (keyword.toList ++ ' ' :: letters))
        = some (' ' :: letters) := by
    rcases List.mem_cons.1 h with rfl | h
    · rfl
    · rw [List.mem_singleton.1 h]
      rfl
  have hblank : (' ' :: letters).head?.any isBlank = true := by
    show isBlank ' ' = true
    decide
  have hfirst : ∀ c ∈ letters.head?, isBlank c = false := by
    intro c hc
    exact isBlank_eq_false_of_isDirectionLetter (hletters c (List.mem_of_mem_head? hc))
  have htrim : trimStart (' ' :: letters) = letters :=
    (trimStart_append (blanks_singleton (by decide))).trans (trimStart_eq_self hfirst)
  have htake : letters.takeWhile isDirectionLetter = letters :=
    List.takeWhile_eq_self_iff.2 hletters
  have hempty : letters.isEmpty = false := List.isEmpty_eq_false_iff.2 hne
  rw [readDirection?, hrest]
  simp only [hblank, htrim, htake, hempty, if_true, Bool.false_eq_true, if_false]

/-- A written header is a plain line. -/
theorem plain_written (h : keyword ∈ keywords) (hne : letters ≠ [])
    (hletters : ∀ c ∈ letters, isDirectionLetter c = true) :
    Plain (keyword.toList ++ ' ' :: letters) := by
  have hkeyword : ∀ keyword ∈ keywords,
      keyword.toList.takeWhile isWord ≠ [] ∧ '\n' ∉ keyword.toList := by
    decide +kernel
  obtain ⟨hlead, hkeywordSingle⟩ := hkeyword keyword h
  have hlast : ∀ c ∈ (keyword.toList ++ ' ' :: letters).getLast?, isBlank c = false := by
    intro c hc
    have hsplit : keyword.toList ++ ' ' :: letters = (keyword.toList ++ [' ']) ++ letters := by
      simp
    rw [hsplit, List.getLast?_append_of_ne_nil _ hne] at hc
    exact isBlank_eq_false_of_isDirectionLetter (hletters c (List.mem_of_getLast? hc))
  have hsingle : '\n' ∉ keyword.toList ++ ' ' :: letters := by
    rw [List.mem_append, List.mem_cons, not_or, not_or]
    refine ⟨hkeywordSingle, by decide, fun hmem => ?_⟩
    exact absurd (isBlank_eq_false_of_isDirectionLetter (hletters _ hmem)) (by decide)
  obtain ⟨first, rest, hfirst, hword⟩ := exists_cons_of_takeWhile_ne_nil hlead
  rw [hfirst] at hlast hsingle ⊢
  exact Statement.plain_of_word hword hlast hsingle

end Written

/-! ## Announced directions -/

/-- A direction as a header announces it: capitals, and at least one. -/
structure IsDirection (direction : List Char) : Prop where
  ne_nil : direction ≠ []
  capitals : ∀ c ∈ direction, isCapital c = true

/-- Every header that is accepted announces a direction. -/
theorem isDirection_of_readDirection? {line direction : List Char}
    (h : readDirection? line = some direction) : IsDirection direction := by
  rw [readDirection?] at h
  split at h
  · exact nomatch h
  · next rest _ =>
      simp only at h
      split at h
      · split at h
        · exact nomatch h
        · next hne =>
            obtain rfl := Option.some.inj h
            refine ⟨?_, ?_⟩
            · rwa [List.isEmpty_iff, ← List.map_eq_nil_iff (f := capital)] at hne
            · intro c hc
              obtain ⟨letter, hletter, rfl⟩ := List.mem_map.1 hc
              exact isCapital_capital (forall_mem_takeWhile isDirectionLetter _ _ hletter)
      · exact nomatch h

/-- Putting a direction in capitals again changes nothing. -/
theorem IsDirection.map_capital {direction : List Char} (h : IsDirection direction) :
    direction.map capital = direction := by
  have hself : direction.map capital = direction.map id :=
    List.map_congr_left fun c hc => capital_eq_self (h.capitals c hc)
  rw [hself, List.map_id]

/-- **A DIRECTION IS ANNOUNCED AGAIN** by a header that is written with it. -/
theorem IsDirection.classify {direction : List Char} (h : IsDirection direction) :
    classifyChars ("graph ".toList ++ direction) = .ok ⟨String.ofList direction, 0⟩ := by
  have hkeyword : "graph" ∈ keywords := List.mem_cons_self
  have hletters : ∀ c ∈ direction, isDirectionLetter c = true := by
    intro c hc
    exact isDirectionLetter_of_isCapital (h.capitals c hc)
  have hline : "graph ".toList ++ direction = "graph".toList ++ ' ' :: direction := rfl
  rw [hline, classifyChars, (plain_written hkeyword h.ne_nil hletters).firstSignificant?]
  simp only [matchDialect?_written hkeyword, readDirection?_written hkeyword h.ne_nil hletters,
    h.map_capital]

end Flowchart.Header
