import Flowchart.Parse
import Flowchart.Proofs.Text.Trim

/-! # Slices — reading a line by byte positions

    A reader that keeps byte positions into its line takes a slice of the line at
    each of them, and a slice is taken only where a character begins or the line
    ends.  The positions are sums of the widths of what was read before, so here
    the parser is written out over positions, each slice checked (`Checked`), and
    never comes to a position that is not there (`Checked.parse_eq`).  One law
    carries this: a slice at a position leads to a slice behind anything it begins
    with (`Text.sliceFrom?_add`). -/

namespace Flowchart

/-! ## Slices -/

namespace Text

/-- The text from byte `n` on; none unless a character begins there, or the text
    ends. -/
def sliceFrom? : List Char → Nat → Option (List Char)
  | text, 0 => some text
  | [], _ + 1 => none
  | c :: text, n + 1 => if c.utf8Size ≤ n + 1 then sliceFrom? text (n + 1 - c.utf8Size) else none

/-- Behind a front of the text there is the rest of it. -/
theorem sliceFrom?_append (front rest : List Char) :
    sliceFrom? (front ++ rest) (width front) = some rest := by
  induction front with
  | nil => rw [width_nil, List.nil_append, sliceFrom?]
  | cons c front ih =>
      have hpos := c.utf8Size_pos
      obtain ⟨n, hn⟩ : ∃ n, width (c :: front) = n + 1 :=
        Nat.exists_eq_succ_of_ne_zero (by rw [width_cons]; omega)
      have hback : n + 1 - c.utf8Size = width front := by rw [← hn, width_cons]; omega
      have hle : c.utf8Size ≤ n + 1 := by rw [← hn, width_cons]; omega
      rw [hn, List.cons_append, sliceFrom?, if_pos hle, hback, ih]

/-- A slice is what follows a front of that many bytes. -/
theorem sliceFrom?_eq_some_iff {text rest : List Char} {n : Nat} :
    sliceFrom? text n = some rest ↔ ∃ front, text = front ++ rest ∧ width front = n := by
  constructor
  · intro h
    fun_induction sliceFrom? text n with
    | case1 text => exact ⟨[], Option.some.inj h, rfl⟩
    | case2 => cases h
    | case3 c text n hle ih =>
        obtain ⟨front, rfl, hwidth⟩ := ih h
        exact ⟨c :: front, rfl, by rw [width_cons, hwidth]; omega⟩
    | case4 => cases h
  · rintro ⟨front, rfl, rfl⟩
    exact sliceFrom?_append front rest

/-- **FROM SLICE TO SLICE**: behind whatever a slice begins with there is another
    one. -/
theorem sliceFrom?_add {text front rest : List Char} {n : Nat}
    (h : sliceFrom? text n = some (front ++ rest)) :
    sliceFrom? text (n + width front) = some rest := by
  obtain ⟨before, rfl, rfl⟩ := sliceFrom?_eq_some_iff.1 h
  rw [← width_append, ← List.append_assoc]
  exact sliceFrom?_append (before ++ front) rest

/-- The number of bytes of a string is the width of its characters. -/
theorem utf8ByteSize_ofList (text : List Char) :
    (String.ofList text).utf8ByteSize = width text := by
  induction text with
  | nil => rfl
  | cons c text ih =>
      rw [String.ofList_cons, String.utf8ByteSize_append, String.utf8ByteSize_singleton, ih,
        width_cons]

/-- There is a slice at exactly the positions of the string. -/
theorem isSome_sliceFrom?_iff {text : List Char} {n : Nat} :
    (sliceFrom? text n).isSome ↔ String.Pos.Raw.IsValid (String.ofList text) ⟨n⟩ := by
  rw [String.Pos.Raw.isValid_ofList, Option.isSome_iff_exists]
  constructor
  · rintro ⟨rest, h⟩
    obtain ⟨front, rfl, hwidth⟩ := sliceFrom?_eq_some_iff.1 h
    refine ⟨front.length, ?_⟩
    rw [List.take_left, utf8ByteSize_ofList, hwidth]
  · rintro ⟨i, hi⟩
    refine ⟨text.drop i, sliceFrom?_eq_some_iff.2 ⟨text.take i, ?_, ?_⟩⟩
    · rw [List.take_append_drop]
    · rw [← utf8ByteSize_ofList, ← hi]

/-- The bytes of the blanks at the front. -/
def blankWidth (text : List Char) : Nat := width text - width (trimStart text)

/-- Behind the blanks of a slice there is the slice without them. -/
theorem sliceFrom?_blankWidth {text slice : List Char} {n : Nat}
    (h : sliceFrom? text n = some slice) :
    sliceFrom? text (n + blankWidth slice) = some (trimStart slice) := by
  have hsplit : slice.takeWhile isBlank ++ trimStart slice = slice :=
    takeWhile_append_trimStart slice
  have hwidth : blankWidth slice = width (slice.takeWhile isBlank) := by
    rw [blankWidth, ← Nat.add_sub_cancel (width (slice.takeWhile isBlank)), ← width_append, hsplit]
  rw [hwidth]
  exact sliceFrom?_add (by rw [hsplit, h])

end Text

/-! ## The parser over positions

    The outer option is none where a slice fails; what the parser does not find
    is none within it. -/

open Text (sliceFrom? blankWidth)

namespace Checked

/-- The node token at the front of `text`; what can be its decoration is a slice. -/
def nodeToken (text : List Char) : Option (Option NodeToken) := do
  let id := text.takeWhile Text.isWord
  if id.isEmpty then return none
  else
    match Decoration.read? (← sliceFrom? text (Text.width id)) with
    | some r => return some ⟨String.ofList id, some r.value, Text.width id + r.width⟩
    | none => return some ⟨String.ofList id, none, Text.width id⟩

/-- The label between bars at the front of `text`, and the bytes of it. -/
def edgeLabel (text : List Char) : Option String × Nat :=
  match readEdgeLabel? text with
  | some r => (r.value, r.width)
  | none => (none, 0)

/-- The hop at position `pos` of a line, and the position behind it. -/
def hop (line : List Char) (pos : Nat) : Option (Option (Hop × Nat)) := do
  let cursor := pos + blankWidth (← sliceFrom? line pos)
  match Arrow.read? (← sliceFrom? line cursor) with
  | none => return none
  | some (arrow, _) =>
      let cursor := cursor + Text.width arrow.lexeme
      let (label, taken) := edgeLabel (← sliceFrom? line cursor)
      let cursor := cursor + taken
      let remainder ← sliceFrom? line cursor
      if remainder.head?.all Text.isBlank then
        let cursor := cursor + blankWidth remainder
        match ← nodeToken (← sliceFrom? line cursor) with
        | none => return none
        | some target => return some (⟨arrow, label, target⟩, cursor + target.width)
      else return none

theorem nodeToken_eq (text : List Char) :
    nodeToken text = some ((NodeToken.read? text).map Prod.fst) := by
  have hslice : sliceFrom? text (Text.width (text.takeWhile Text.isWord))
      = some (text.dropWhile Text.isWord) := by
    have h := Text.sliceFrom?_append (text.takeWhile Text.isWord) (text.dropWhile Text.isWord)
    rwa [List.takeWhile_append_dropWhile] at h
  simp only [nodeToken, NodeToken.read?, hslice, Option.bind_eq_bind, Option.bind_some]
  split
  · rfl
  · cases Decoration.read? (text.dropWhile Text.isWord) <;> rfl

/-- Behind the token that a slice begins with there is what is left of it. -/
theorem sliceFrom?_nodeToken {line text rest : List Char} {n : Nat} {token : NodeToken}
    (h : sliceFrom? line n = some text) (hread : NodeToken.read? text = some (token, rest)) :
    sliceFrom? line (n + token.width) = some rest := by
  obtain ⟨front, rfl, hwidth, -⟩ := NodeToken.read?_sound hread
  rw [← hwidth]
  exact Text.sliceFrom?_add h

/-- The label at a slice is the label that is read there, and what is left is the
    slice behind it. -/
theorem edgeLabel_of_slice {line text : List Char} {n : Nat} (h : sliceFrom? line n = some text) :
    (edgeLabel text).1 = (Hop.readLabel text).1 ∧
      sliceFrom? line (n + (edgeLabel text).2) = some (Hop.readLabel text).2 := by
  rw [edgeLabel, Hop.readLabel]
  cases hread : readEdgeLabel? text with
  | none => exact ⟨rfl, h⟩
  | some r =>
      obtain ⟨front, rfl, hwidth⟩ := readEdgeLabel?_splits hread
      refine ⟨rfl, ?_⟩
      show sliceFrom? line (n + r.width) = some r.rest
      rw [← hwidth]
      exact Text.sliceFrom?_add h

/-- The hop at a slice is the hop that is read there, and what is left is the
    slice behind it. -/
theorem hop_of_slice {line text : List Char} {pos : Nat} (h : sliceFrom? line pos = some text) :
    (Hop.read? text = none ∧ hop line pos = some none) ∨
      ∃ step rest behind, Hop.read? text = some (step, rest) ∧
        hop line pos = some (some (step, behind)) ∧ sliceFrom? line behind = some rest := by
  -- blanks, arrow, label, blanks: what each leaves is the slice at the next position
  have hcursor := Text.sliceFrom?_blankWidth h
  simp only [hop, Hop.read?, h, hcursor, Option.bind_eq_bind, Option.bind_some]
  cases harrow : Arrow.read? (Text.trimStart text) with
  | none => exact Or.inl ⟨rfl, rfl⟩
  | some found =>
      obtain ⟨arrow, afterArrow⟩ := found
      rw [(Arrow.read?_sound harrow).2] at hcursor
      have hafter := Text.sliceFrom?_add hcursor
      obtain ⟨hlabel, hremainder⟩ := edgeLabel_of_slice hafter
      have htarget := Text.sliceFrom?_blankWidth hremainder
      simp only [hafter, hremainder, htarget, nodeToken_eq, hlabel, Option.bind_some]
      cases hhead : (Hop.readLabel afterArrow).2 with
      | nil => exact Or.inl ⟨rfl, rfl⟩
      | cons c rest =>
          rw [hhead] at htarget
          cases hblank : Text.isBlank c with
          | false =>
              simp only [List.head?_cons, Option.all_some, Option.any_some, hblank]
              exact Or.inl ⟨rfl, rfl⟩
          | true =>
              simp only [List.head?_cons, Option.all_some, Option.any_some, hblank, if_true]
              cases hread : NodeToken.read? (Text.trimStart (c :: rest)) with
              | none => exact Or.inl ⟨rfl, rfl⟩
              | some found =>
                  obtain ⟨target, left⟩ := found
                  exact Or.inr ⟨_, left, _, rfl, rfl, sliceFrom?_nodeToken htarget hread⟩

/-- Less of the line is left behind a hop than at it. -/
theorem length_slice_lt {line : List Char} {pos behind : Nat} {step : Hop}
    (h : hop line pos = some (some (step, behind))) :
    ((sliceFrom? line behind).getD []).length < ((sliceFrom? line pos).getD []).length := by
  cases hslice : sliceFrom? line pos with
  | none =>
      rw [hop, hslice] at h
      cases h
  | some text =>
      rcases hop_of_slice hslice with ⟨-, hnone⟩ | ⟨step, rest, behind, hread, hstep, hrest⟩
      · cases h.symm.trans hnone
      · cases h.symm.trans hstep
        rw [hrest]
        exact Hop.read?_shorter hread

/-- The hops from position `pos` on, as many as there are. -/
def hops (line : List Char) (pos : Nat) : Option (List Hop) :=
  match _found : hop line pos with
  | none => none
  | some none => some []
  | some (some (step, behind)) => (hops line behind).map (step :: ·)
termination_by ((sliceFrom? line pos).getD []).length
decreasing_by exact length_slice_lt _found

/-- The chain at the front of `line`. -/
def chain (line : List Char) : Option (Option Chain) := do
  match ← nodeToken line with
  | none => return none
  | some first =>
      match ← hops line first.width with
      | [] => return none
      | step :: steps => return some ⟨first, step :: steps⟩

/-- The node that the line declares: a token as wide as the line. -/
def declaration (line : List Char) : Option (Option NodeToken) := do
  match ← nodeToken line with
  | none => return none
  | some token =>
      if token.width = Text.width line ∧ ¬isReserved token.id then return some token
      else return none

/-- What `line` says. -/
def statement (line : List Char) : Option Statement := do
  if line.isEmpty then return .blank
  else if Text.startsWith ['%', '%'] line then return .comment
  else if Statement.isDirection line then return .direction
  else if Statement.isStyling line then return .styling
  else
    match Statement.readOpening? line with
    | some name => return .openSubgraph name
    | none =>
        if line = "end".toList then return .closeSubgraph
        else
          match ← chain line with
          | some chain => return .edges chain
          | none =>
              match ← declaration line with
              | some token => return .declaration token
              | none => return .other

/-- The builder after one more line. -/
def readLine (b : Builder) (line : List Char) : Option Builder := do
  return (b.execute (← statement (Text.trim line))).1

/-- The graph that `source` describes. -/
def parse (source : String) : Option (Except Unsupported Graph) :=
  match Header.classifyChars source.toList with
  | .error reason => some (.error reason)
  | .ok header => do
      let b ← ((Text.lines source.toList).drop (header.lineIndex + 1)).foldlM readLine
        (Builder.new header.direction)
      return .ok b.graph

/-! ## No slice fails -/

theorem hops_of_none {line : List Char} {pos : Nat} (h : hop line pos = some none) :
    hops line pos = some [] := by
  rw [hops]
  split
  · next hfound => cases h.symm.trans hfound
  · rfl
  · next hfound => cases h.symm.trans hfound

theorem hops_of_some {line : List Char} {pos behind : Nat} {step : Hop}
    (h : hop line pos = some (some (step, behind))) :
    hops line pos = (hops line behind).map (step :: ·) := by
  rw [hops]
  split
  · next hfound => cases h.symm.trans hfound
  · next hfound => cases h.symm.trans hfound
  · next hfound =>
      cases h.symm.trans hfound
      rfl

/-- The hops from a slice on are those that are read there. -/
theorem hops_of_slice {line text : List Char} {pos : Nat} (h : sliceFrom? line pos = some text) :
    hops line pos = some (Hop.readAll text).1 := by
  -- along the hops that are read; the position is another one each time
  fun_induction Hop.readAll text generalizing pos with
  | case1 text hread =>
      rcases hop_of_slice h with ⟨-, hstep⟩ | ⟨step, rest, behind, hfound, -⟩
      · rw [hops_of_none hstep]
      · cases hread.symm.trans hfound
  | case2 text step rest hread steps final hall ih =>
      rcases hop_of_slice h with ⟨hnone, -⟩ | ⟨step, rest, behind, hfound, hstep, hslice⟩
      · cases hread.symm.trans hnone
      · cases hread.symm.trans hfound
        have hrest := ih hslice
        rw [hall] at hrest
        rw [hops_of_some hstep, hrest]
        rfl

theorem chain_eq (line : List Char) : chain line = some (Chain.read? line) := by
  simp only [chain, Chain.read?, nodeToken_eq, Option.bind_eq_bind, Option.bind_some]
  cases hread : NodeToken.read? line with
  | none => rfl
  | some found =>
      obtain ⟨first, rest⟩ := found
      have hslice : sliceFrom? line first.width = some rest := by
        obtain ⟨front, hsplit, hwidth, -⟩ := NodeToken.read?_sound hread
        exact Text.sliceFrom?_eq_some_iff.2 ⟨front, hsplit, hwidth⟩
      simp only [Option.map_some, hops_of_slice hslice, Option.bind_some]
      cases (Hop.readAll rest).1 <;> rfl

/-- A token is as wide as the line exactly when nothing is left. -/
theorem declaration_eq (line : List Char) :
    declaration line = some (Statement.readDeclaration? line) := by
  simp only [declaration, Statement.readDeclaration?, nodeToken_eq, Option.bind_eq_bind,
    Option.bind_some]
  cases hread : NodeToken.read? line with
  | none => rfl
  | some found =>
      obtain ⟨token, rest⟩ := found
      obtain ⟨front, hsplit, hwidth, -⟩ := NodeToken.read?_sound hread
      have hwhole : Text.width line = token.width + Text.width rest := by
        rw [hsplit, Text.width_append, hwidth]
      cases rest with
      | nil =>
          have heq : token.width = Text.width line := hwhole.symm
          by_cases hword : isReserved token.id <;>
            simp only [Option.map_some, heq, hword, not_true, and_false, if_false, if_true] <;> rfl
      | cons c rest =>
          -- one character more makes the line wider than its token
          have hpos := c.utf8Size_pos
          have hne : token.width ≠ Text.width line := by
            rw [hwhole, Text.width_cons]
            omega
          simp only [Option.map_some, hne, false_and, if_false]
          rfl

theorem statement_eq (line : List Char) : statement line = some (Statement.read line) := by
  simp only [statement, Statement.read, chain_eq, declaration_eq, Option.bind_eq_bind,
    Option.bind_some]
  split
  · rfl
  split
  · rfl
  split
  · rfl
  split
  · rfl
  cases Statement.readOpening? line with
  | some name => rfl
  | none =>
      simp only
      split
      · rfl
      cases Chain.read? line with
      | some chain => rfl
      | none => cases Statement.readDeclaration? line <;> rfl

theorem readLine_eq (b : Builder) (line : List Char) :
    readLine b line = some (b.readLine (Text.trim line)).1 := by
  rw [readLine, statement_eq]
  rfl

/-- **NO SLICE FAILS**: the parser over positions takes every slice it asks for,
    and finds what the parser finds. -/
theorem parse_eq (source : String) : parse source = some (Flowchart.parse source) := by
  have hlines : readLine = fun b line => pure (b.readLine (Text.trim line)).1 := by
    funext b line
    exact readLine_eq b line
  rw [parse, Flowchart.parse, parseChars]
  cases Header.classifyChars source.toList with
  | error reason => rfl
  | ok header =>
      simp only [hlines, List.foldlM_pure]
      rfl

end Checked

end Flowchart
