import Flowchart.Proofs.Header.Direction

/-! # Verdicts — what the header decides

    `Header.Verdict` says what a text is taken for, case by case and without saying
    how it is found out: the first line that counts begins with a dialect, or
    announces a direction, or does neither, or there is no such line.  Several
    dialects may begin one line, and then one of them begins the other; the table
    lists the longer one first, so the one that is found is the longest
    (`find?_eq_some_iff_longest`).  No keyword begins a dialect or is begun by one
    (`not_begins_of_announces`), so the cases exclude each other, and reading the
    header gives the verdict of its text and no other one
    (`classify_eq_iff_verdict`). -/

namespace Flowchart.Header

open Text

/-! ## What a header is -/

/-- The text with its ASCII letters in lower case. -/
def folded (text : List Char) : List Char := text.map Char.toLower

/-- The line begins with the keyword, up to the case of ASCII letters. -/
def Begins (keyword : String) (line : List Char) : Prop :=
  ∃ lead rest, line = lead ++ rest ∧ folded lead = folded keyword.toList

/-- The line is neither empty nor a comment. -/
def Counts (line : List Char) : Prop := line ≠ [] ∧ ¬ ['%', '%'] <+: line

/-- The first line that counts is `line` when trimmed, and stands at place `i`. -/
structure FirstLine (text line : List Char) (i : Nat) : Prop where
  found : ((lines text).map trim)[i]? = some line
  counts : Counts line
  least : ∀ j < i, ∀ other, ((lines text).map trim)[j]? = some other → ¬ Counts other

/-- The line is a keyword in any case, blanks, and a run of direction letters that
    goes on as far as it can. -/
inductive Announces : List Char → List Char → Prop where
  | intro {keyword : String} {lead gap letters rest : List Char} (hkeyword : keyword ∈ keywords)
      (hlead : folded lead = folded keyword.toList) (hgap : Blanks gap) (hne : gap ≠ [])
      (hletters : ∀ c ∈ letters, isDirectionLetter c = true) (hsome : letters ≠ [])
      (hstop : ∀ c ∈ rest.head?, isDirectionLetter c = false) :
      Announces (lead ++ (gap ++ (letters ++ rest))) letters

/-- The code point of the upper case of a direction letter: an ASCII letter loses
    0x20, the long s becomes `S`, and the Kelvin sign is a capital. -/
def upperCode (code : Nat) : Nat :=
  if 0x61 ≤ code ∧ code ≤ 0x7A then code - 0x20 else if code = 0x17F then 0x53 else code

/-- The direction is the upper case of the letters. -/
def Uppercase (letters : List Char) (direction : String) : Prop :=
  direction.toList.map Char.toNat = letters.map fun c => upperCode c.toNat

/-- What a text is taken for. -/
inductive Verdict (text : List Char) : Except Unsupported Header → Prop where
  /-- No line counts. -/
  | nothing (h : ∀ line ∈ (lines text).map trim, ¬ Counts line) :
      Verdict text (.error (.header ""))
  /-- The longest of the dialects that the first line begins with. -/
  | dialect {line : List Char} {i : Nat} {keyword : String} (hfirst : FirstLine text line i)
      (hkeyword : keyword ∈ dialects) (hbegins : Begins keyword line)
      (hlongest : ∀ other ∈ dialects, Begins other line → other.length ≤ keyword.length) :
      Verdict text (.error (.dialect keyword))
  | accepted {line letters : List Char} {i : Nat} {direction : String}
      (hfirst : FirstLine text line i) (hnone : ∀ keyword ∈ dialects, ¬ Begins keyword line)
      (hletters : Announces line letters) (hdirection : Uppercase letters direction) :
      Verdict text (.ok ⟨direction, i⟩)
  | unknown {line : List Char} {i : Nat} (hfirst : FirstLine text line i)
      (hnone : ∀ keyword ∈ dialects, ¬ Begins keyword line)
      (hletters : ∀ letters, ¬ Announces line letters) :
      Verdict text (.error (.header (String.ofList line)))

/-! ## The first line -/

theorem isSignificant_iff {line : List Char} : isSignificant line = true ↔ Counts line := by
  have hcomment : startsWith ['%', '%'] line = true ↔ ['%', '%'] <+: line := by
    rw [startsWith, Option.isSome_iff_exists]
    simp only [after?_eq_some_iff]
    exact exists_congr fun rest => eq_comm
  rw [isSignificant, Bool.and_eq_true, Bool.not_eq_true', Bool.not_eq_true',
    List.isEmpty_eq_false_iff, ← Bool.not_eq_true, hcomment, Counts]

theorem firstSignificant?_eq_none_iff {text : List Char} :
    firstSignificant? text = none ↔ ∀ line ∈ (lines text).map trim, ¬ Counts line := by
  rw [firstSignificant?, List.find?_eq_none]
  constructor
  · intro h line hline
    obtain ⟨i, hi⟩ := List.mem_iff_getElem?.1 hline
    rw [← isSignificant_iff]
    exact h (line, i) (List.mk_mem_zipIdx_iff_getElem?.2 hi)
  · intro h entry hentry
    rw [isSignificant_iff]
    exact h entry.1 (List.mem_of_getElem? (List.mk_mem_zipIdx_iff_getElem?.1 hentry))

theorem firstSignificant?_eq_some_iff {text line : List Char} {i : Nat} :
    firstSignificant? text = some (line, i) ↔ FirstLine text line i := by
  rw [firstSignificant?, List.find?_eq_some_iff_getElem]
  constructor
  · rintro ⟨hcounts, place, hplace, heq, hbefore⟩
    rw [List.getElem_zipIdx, Nat.zero_add] at heq
    obtain ⟨rfl, rfl⟩ := Prod.mk.inj heq
    rw [List.length_zipIdx] at hplace
    refine ⟨List.getElem?_eq_getElem hplace, isSignificant_iff.1 hcounts, ?_⟩
    intro j hj other hother
    have hnot := hbefore j hj
    obtain ⟨hlt, rfl⟩ := List.getElem?_eq_some_iff.1 hother
    rw [List.getElem_zipIdx, Bool.not_eq_true'] at hnot
    rw [← isSignificant_iff, hnot]
    exact Bool.false_ne_true
  · intro h
    obtain ⟨hplace, hline⟩ := List.getElem?_eq_some_iff.1 h.found
    refine ⟨isSignificant_iff.2 h.counts, i, by rwa [List.length_zipIdx], ?_, ?_⟩
    · rw [List.getElem_zipIdx, Nat.zero_add, hline]
    · intro j hj
      have hlt : j < ((lines text).map trim).length := Nat.lt_trans hj hplace
      rw [List.getElem_zipIdx, Bool.not_eq_true', ← Bool.not_eq_true, isSignificant_iff]
      exact h.least j hj _ (List.getElem?_eq_getElem hlt)

/-! ## Keywords -/

/-- Reading past a lead takes as many characters, equal up to their case. -/
theorem afterIgnoringCase?_eq_some_iff {lead text rest : List Char} :
    afterIgnoringCase? lead text = some rest ↔
      ∃ front, text = front ++ rest ∧ folded front = folded lead := by
  induction lead generalizing text with
  | nil =>
      constructor
      · intro h
        exact ⟨[], Option.some.inj h, rfl⟩
      · rintro ⟨front, rfl, hfront⟩
        rw [List.map_eq_nil_iff.1 hfront]
        rfl
  | cons c lead ih =>
      cases text with
      | nil =>
          constructor
          · intro h
            exact nomatch h
          · rintro ⟨front, htext, hfront⟩
            rw [(List.append_eq_nil_iff.1 htext.symm).1] at hfront
            exact nomatch hfront
      | cons d text =>
          rw [afterIgnoringCase?]
          constructor
          · intro h
            split at h
            · next hcase =>
                obtain ⟨front, rfl, hfront⟩ := ih.1 h
                refine ⟨d :: front, rfl, ?_⟩
                show d.toLower :: folded front = c.toLower :: folded lead
                rw [hcase, hfront]
            · exact nomatch h
          · rintro ⟨front, htext, hfront⟩
            cases front with
            | nil => exact nomatch hfront
            | cons first front =>
                obtain ⟨rfl, rfl⟩ := List.cons.inj htext
                obtain ⟨hcase, htail⟩ := List.cons.inj hfront
                rw [if_pos hcase.symm]
                exact ih.2 ⟨front, rfl, htail⟩

theorem isSome_afterIgnoringCase?_iff {keyword : String} {line : List Char} :
    (afterIgnoringCase? keyword.toList line).isSome = true ↔ Begins keyword line := by
  rw [Option.isSome_iff_exists]
  simp only [afterIgnoringCase?_eq_some_iff]
  exact exists_comm

/-- Of two keywords that begin one line, the shorter one begins the other. -/
theorem prefix_of_begins {keyword other : String} {line : List Char} (h : Begins keyword line)
    (hother : Begins other line) (hle : keyword.length ≤ other.length) :
    folded keyword.toList <+: folded other.toList := by
  have hbegins : ∀ {word : String}, Begins word line → folded word.toList <+: folded line := by
    rintro word ⟨lead, rest, rfl, hlead⟩
    rw [← hlead, folded, folded, List.map_append]
    exact List.prefix_append _ _
  refine List.prefix_of_prefix_length_le (hbegins h) (hbegins hother) ?_
  rwa [folded, folded, List.length_map, List.length_map, String.length_toList,
    String.length_toList]

/-- **THE FIRST IS THE LONGEST** of the words that begin a line, in a list where no
    word begins a later one. -/
theorem find?_eq_some_iff_longest {words : List String}
    (h : words.Pairwise fun word later => ¬ folded word.toList <+: folded later.toList)
    {line : List Char} {keyword : String} :
    words.find? (fun word => (afterIgnoringCase? word.toList line).isSome) = some keyword ↔
      keyword ∈ words ∧ Begins keyword line ∧
        ∀ other ∈ words, Begins other line → other.length ≤ keyword.length := by
  -- whatever is found is as long as any other that begins the line, or longer
  have hfound : ∀ {word other : String} {before after : List String},
      words = before ++ word :: after → Begins word line →
      (∀ earlier ∈ before, ¬ Begins earlier line) → other ∈ words → Begins other line →
      other = word ∨ other.length < word.length := by
    intro word other before after hwords hword hbefore hother hbegins
    rw [hwords, List.pairwise_append, List.pairwise_cons] at h
    rw [hwords, List.mem_append, List.mem_cons] at hother
    rcases hother with hearlier | rfl | hlater
    · exact absurd hbegins (hbefore other hearlier)
    · exact Or.inl rfl
    · refine Or.inr (Nat.lt_of_not_le fun hle => ?_)
      exact h.2.1.1 other hlater (prefix_of_begins hword hbegins hle)
  rw [List.find?_eq_some_iff_append, isSome_afterIgnoringCase?_iff]
  simp only [Bool.not_eq_true', ← Bool.not_eq_true, isSome_afterIgnoringCase?_iff]
  constructor
  · rintro ⟨hbegins, before, after, hwords, hbefore⟩
    refine ⟨?_, hbegins, ?_⟩
    · rw [hwords]
      exact List.mem_append_right _ List.mem_cons_self
    · intro other hother hbegins'
      rcases hfound hwords hbegins hbefore hother hbegins' with rfl | hlt
      · exact Nat.le_refl _
      · exact Nat.le_of_lt hlt
  · rintro ⟨hmem, hbegins, hlongest⟩
    have hsome : (words.find? fun word => (afterIgnoringCase? word.toList line).isSome).isSome := by
      rw [List.find?_isSome]
      exact ⟨keyword, hmem, isSome_afterIgnoringCase?_iff.2 hbegins⟩
    obtain ⟨first, hfirst⟩ := Option.isSome_iff_exists.1 hsome
    rw [List.find?_eq_some_iff_append, isSome_afterIgnoringCase?_iff] at hfirst
    simp only [Bool.not_eq_true', ← Bool.not_eq_true, isSome_afterIgnoringCase?_iff] at hfirst
    obtain ⟨hbeginsFirst, before, after, hwords, hbefore⟩ := hfirst
    have hmemFirst : first ∈ words := by
      rw [hwords]
      exact List.mem_append_right _ List.mem_cons_self
    rcases hfound hwords hbeginsFirst hbefore hmem hbegins with rfl | hlt
    · exact ⟨hbegins, before, after, hwords, hbefore⟩
    · exact absurd (hlongest first hmemFirst hbeginsFirst) (Nat.not_le.2 hlt)

/-- No dialect begins one that comes after it in the table. -/
theorem dialects_pairwise :
    dialects.Pairwise fun word later => ¬ folded word.toList <+: folded later.toList := by
  decide +kernel

/-- No keyword begins another keyword or a dialect, and no dialect begins a keyword. -/
theorem keywords_apart :
    (∀ keyword ∈ keywords, ∀ other ∈ keywords,
        folded keyword.toList <+: folded other.toList → keyword = other) ∧
      ∀ keyword ∈ keywords, ∀ word ∈ dialects, ¬ folded keyword.toList <+: folded word.toList ∧
        ¬ folded word.toList <+: folded keyword.toList := by
  decide +kernel

theorem matchDialect?_eq_some_iff {line : List Char} {keyword : String} :
    matchDialect? line = some keyword ↔
      keyword ∈ dialects ∧ Begins keyword line ∧
        ∀ other ∈ dialects, Begins other line → other.length ≤ keyword.length :=
  find?_eq_some_iff_longest dialects_pairwise

theorem matchDialect?_eq_none_iff {line : List Char} :
    matchDialect? line = none ↔ ∀ keyword ∈ dialects, ¬ Begins keyword line := by
  rw [matchDialect?, List.find?_eq_none]
  exact forall₂_congr fun keyword _ => not_congr isSome_afterIgnoringCase?_iff

/-! ## Directions -/

/-- The rest of the line is read after the one keyword it begins with. -/
theorem findSome?_keywords_eq_some_iff {line rest : List Char} :
    keywords.findSome? (fun keyword => afterIgnoringCase? keyword.toList line) = some rest ↔
      ∃ keyword ∈ keywords, ∃ lead, line = lead ++ rest ∧
        folded lead = folded keyword.toList := by
  simp only [← afterIgnoringCase?_eq_some_iff]
  refine ⟨List.exists_of_findSome?_eq_some, ?_⟩
  rintro ⟨keyword, hmem, hrest⟩
  cases hfound : keywords.findSome? fun keyword => afterIgnoringCase? keyword.toList line with
  | none =>
      rw [List.findSome?_eq_none_iff.1 hfound keyword hmem] at hrest
      exact nomatch hrest
  | some found =>
      obtain ⟨first, hfirst, hread⟩ := List.exists_of_findSome?_eq_some hfound
      have hbegins : Begins keyword line ∧ Begins first line := by
        rw [← isSome_afterIgnoringCase?_iff, ← isSome_afterIgnoringCase?_iff, hrest, hread]
        exact ⟨rfl, rfl⟩
      have hsame : first = keyword := by
        rcases Nat.le_total first.length keyword.length with hle | hle
        · exact keywords_apart.1 first hfirst keyword hmem (prefix_of_begins hbegins.2 hbegins.1 hle)
        · exact (keywords_apart.1 keyword hmem first hfirst
            (prefix_of_begins hbegins.1 hbegins.2 hle)).symm
      rw [← hread, hsame, hrest]

/-- What is read is announced. -/
theorem exists_announces {line direction : List Char} (h : readDirection? line = some direction) :
    ∃ letters, Announces line letters ∧ direction = letters.map capital := by
  rw [readDirection?] at h
  split at h
  · cases h
  · next rest hrest =>
      obtain ⟨keyword, hkeyword, lead, rfl, hlead⟩ := findSome?_keywords_eq_some_iff.1 hrest
      dsimp only at h
      split at h
      · next hblank =>
          split at h
          · cases h
          · next hsome =>
              refine ⟨_, ?_, (Option.some.inj h).symm⟩
              have hgap : rest.takeWhile isBlank ≠ [] := by
                cases rest with
                | nil => cases hblank
                | cons c rest =>
                    have hc : isBlank c = true := hblank
                    rw [List.takeWhile_cons_of_pos hc]
                    exact List.cons_ne_nil _ _
              have hstop : ∀ c ∈ ((trimStart rest).dropWhile isDirectionLetter).head?,
                  isDirectionLetter c = false := by
                intro c hc
                have hnot := List.head?_dropWhile_not isDirectionLetter (trimStart rest)
                rwa [hc] at hnot
              have hannounces := Announces.intro hkeyword hlead (blanks_takeWhile rest) hgap
                (forall_mem_takeWhile isDirectionLetter (trimStart rest))
                (fun h => hsome (List.isEmpty_iff.2 h)) hstop
              rwa [List.takeWhile_append_dropWhile, takeWhile_append_trimStart] at hannounces
      · cases h

/-- What is announced is read in capitals. -/
theorem Announces.readDirection?_eq {line letters : List Char} (h : Announces line letters) :
    readDirection? line = some (letters.map capital) := by
  obtain ⟨hkeyword, hlead, hgap, hne, hletters, hsome, hstop⟩ := h
  next keyword lead gap rest =>
    have hread := findSome?_keywords_eq_some_iff.2
      ⟨keyword, hkeyword, lead, (rfl : lead ++ (gap ++ (letters ++ rest)) = _), hlead⟩
    have hblank : (gap ++ (letters ++ rest)).head?.any isBlank = true := by
      cases gap with
      | nil => exact absurd rfl hne
      | cons c gap => exact hgap c List.mem_cons_self
    -- the first letter is no blank, so the gap is all that trimming takes
    have htrim : trimStart (gap ++ (letters ++ rest)) = letters ++ rest := by
      refine (trimStart_append hgap).trans (trimStart_eq_self ?_)
      cases letters with
      | nil => exact absurd rfl hsome
      | cons c letters =>
          intro d hd
          rw [← Option.some.inj hd]
          exact isBlank_eq_false_of_isDirectionLetter (hletters c List.mem_cons_self)
    have htake : (letters ++ rest).takeWhile isDirectionLetter = letters :=
      takeWhile_run hletters hstop
    rw [readDirection?, hread]
    simp only [hblank, htrim, htake, List.isEmpty_eq_false_iff.2 hsome, if_true,
      Bool.false_eq_true, if_false]

theorem readDirection?_eq_none_iff {line : List Char} :
    readDirection? line = none ↔ ∀ letters, ¬ Announces line letters := by
  rw [Option.eq_none_iff_forall_ne_some]
  constructor
  · intro h letters hannounces
    exact h (letters.map capital) hannounces.readDirection?_eq
  · intro h direction hread
    obtain ⟨letters, hannounces, -⟩ := exists_announces hread
    exact h letters hannounces

/-- The letters that a line announces are direction letters. -/
theorem Announces.forall_mem {line letters : List Char} (h : Announces line letters) :
    ∀ c ∈ letters, isDirectionLetter c = true := by
  cases h with
  | intro _ _ _ _ hletters _ _ => exact hletters

/-- A direction letter is put in capitals by its code point. -/
theorem toNat_capital {c : Char} (h : isDirectionLetter c = true) :
    (capital c).toNat = upperCode c.toNat := by
  have hall : (directionLetters.all fun c => (capital c).toNat == upperCode c.toNat) = true := by
    decide +kernel
  exact beq_iff_eq.1 (List.all_eq_true.1 hall c (mem_directionLetters h))

/-- The capitals are the upper case, and there is no other one. -/
theorem uppercase_iff {letters : List Char} {direction : String}
    (h : ∀ c ∈ letters, isDirectionLetter c = true) :
    Uppercase letters direction ↔ direction = String.ofList (letters.map capital) := by
  have hcodes : (letters.map fun c => upperCode c.toNat) =
      (letters.map capital).map Char.toNat := by
    rw [List.map_map]
    exact List.map_congr_left fun c hc => (toNat_capital (h c hc)).symm
  have hinj : Function.Injective Char.toNat := fun c d hcd => Char.toNat_inj.1 hcd
  rw [Uppercase, hcodes, (List.map_injective_iff.2 hinj).eq_iff]
  constructor
  · intro hlist
    rw [← hlist, String.ofList_toList]
  · rintro rfl
    exact String.toList_ofList

/-- **NO LINE IS BOTH**: a line that announces a direction begins with no dialect. -/
theorem not_begins_of_announces {line letters : List Char} (h : Announces line letters) :
    ∀ word ∈ dialects, ¬ Begins word line := by
  obtain ⟨hkeyword, hlead, -, -, -, -, -⟩ := h
  next keyword lead gap rest =>
    intro word hword hbegins
    have hbegins' : Begins keyword (lead ++ (gap ++ (letters ++ rest))) := ⟨lead, _, rfl, hlead⟩
    obtain ⟨hshort, hlong⟩ := keywords_apart.2 keyword hkeyword word hword
    rcases Nat.le_total keyword.length word.length with hle | hle
    · exact hshort (prefix_of_begins hbegins' hbegins hle)
    · exact hlong (prefix_of_begins hbegins hbegins' hle)

/-! ## The verdict -/

/-- The header that is read is the verdict of the text. -/
theorem verdict_classifyChars (text : List Char) : Verdict text (classifyChars text) := by
  cases hfirst : firstSignificant? text with
  | none =>
      rw [classifyChars, hfirst]
      exact .nothing (firstSignificant?_eq_none_iff.1 hfirst)
  | some entry =>
      obtain ⟨line, i⟩ := entry
      have hfirst' := firstSignificant?_eq_some_iff.1 hfirst
      rw [classifyChars, hfirst]
      cases hdialect : matchDialect? line with
      | some keyword =>
          obtain ⟨hkeyword, hbegins, hlongest⟩ := matchDialect?_eq_some_iff.1 hdialect
          simpa only [hdialect] using Verdict.dialect hfirst' hkeyword hbegins hlongest
      | none =>
          have hnone := matchDialect?_eq_none_iff.1 hdialect
          cases hdirection : readDirection? line with
          | none =>
              have hletters := readDirection?_eq_none_iff.1 hdirection
              simpa only [hdialect, hdirection] using Verdict.unknown hfirst' hnone hletters
          | some direction =>
              obtain ⟨letters, hletters, rfl⟩ := exists_announces hdirection
              have hupper := (uppercase_iff hletters.forall_mem).2 rfl
              simpa only [hdialect, hdirection] using
                Verdict.accepted hfirst' hnone hletters hupper

/-- A text has no verdict but the header that is read. -/
theorem Verdict.classifyChars_eq {text : List Char} {outcome : Except Unsupported Header}
    (h : Verdict text outcome) : classifyChars text = outcome := by
  rw [classifyChars]
  cases h with
  | nothing h => rw [firstSignificant?_eq_none_iff.2 h]
  | dialect hfirst hkeyword hbegins hlongest =>
      rw [firstSignificant?_eq_some_iff.2 hfirst]
      simp only [matchDialect?_eq_some_iff.2 ⟨hkeyword, hbegins, hlongest⟩]
  | accepted hfirst hnone hletters hdirection =>
      obtain rfl := (uppercase_iff hletters.forall_mem).1 hdirection
      rw [firstSignificant?_eq_some_iff.2 hfirst]
      simp only [matchDialect?_eq_none_iff.2 hnone, hletters.readDirection?_eq]
  | unknown hfirst hnone hletters =>
      rw [firstSignificant?_eq_some_iff.2 hfirst]
      simp only [matchDialect?_eq_none_iff.2 hnone, readDirection?_eq_none_iff.2 hletters]

/-- **A HEADER IS ITS VERDICT**: reading the header of a text gives the outcome that
    the cases say, and that one only; and the case of a dialect and the case of a
    direction exclude each other. -/
theorem classify_eq_iff_verdict :
    (∀ source outcome, classify source = outcome ↔ Verdict source.toList outcome) ∧
      ∀ line letters, Announces line letters → ∀ word ∈ dialects, ¬ Begins word line := by
  refine ⟨fun source outcome => ⟨?_, Verdict.classifyChars_eq⟩, ?_⟩
  · rintro rfl
    exact verdict_classifyChars source.toList
  · exact fun _ _ => not_begins_of_announces

/-- The longer of two dialects that begin a line is named, whatever follows it; and a
    keyword in capitals before a no-break space, a long s and a Kelvin sign is a header. -/
theorem classify_eq_iff_verdict_folded :
    Verdict "%% old\n\n  STATEdiagram-V2é x".toList (.error (.dialect "stateDiagram-v2")) ∧
      Verdict "%% new\n GRAPH\u00A0ſ\u212Ar2".toList (.ok ⟨"S\u212AR", 1⟩) ∧
      ∀ word ∈ dialects, ¬ Begins word "graph td".toList := by
  refine ⟨(classify_eq_iff_verdict.1 "%% old\n\n  STATEdiagram-V2é x" _).1 ?_,
    (classify_eq_iff_verdict.1 "%% new\n GRAPH\u00A0ſ\u212Ar2" _).1 ?_,
    classify_eq_iff_verdict.2 "graph td".toList "td".toList ?_⟩
  · decide +kernel
  · decide +kernel
  · have hall : "td".toList.all isDirectionLetter = true := by decide
    have hletters : ∀ c ∈ "td".toList, isDirectionLetter c = true := List.all_eq_true.1 hall
    show Announces ("graph".toList ++ ([' '] ++ ("td".toList ++ []))) "td".toList
    exact Announces.intro List.mem_cons_self rfl (blanks_singleton (by decide))
      (List.cons_ne_nil _ _) hletters (List.cons_ne_nil _ _) (fun _ hc => nomatch hc)

end Flowchart.Header
