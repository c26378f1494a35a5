import Flowchart.Parse
import Flowchart.Proofs.Text.Lines

/-! # Parsing — only the significant lines matter

    The header is looked for among all lines, and the body starts at the line
    after it, counted with the blank lines and the comments.  Both agree with
    reading the list of significant lines: the first is the header and the others
    are the body (`parseChars_eq_parseSignificant`), since a blank line or a
    comment leaves the builder as it is. -/

namespace Flowchart

/-- The builder after the given significant lines. -/
def Builder.readSignificant (b : Builder) (body : List (List Char)) : Builder :=
  body.foldl (fun b line => (b.readLine line).1) b

/-- The graph of a text with the given significant lines. -/
def parseSignificant : List (List Char) → Except Unsupported Graph
  | [] => .error (.header "")
  | line :: body =>
      match matchDialect? line with
      | some keyword => .error (.dialect keyword)
      | none =>
          match Header.readDirection? line with
          | none => .error (.header (String.ofList line))
          | some direction =>
              .ok ((Builder.new (String.ofList direction)).readSignificant body).graph

namespace Builder

/-- A line that does not count leaves the builder as it is. -/
theorem readLine_of_not_significant {b : Builder} {line : List Char}
    (h : Text.isSignificant line = false) : (b.readLine line).1 = b := by
  rw [readLine, Statement.read]
  cases hempty : line.isEmpty with
  | true => rfl
  | false =>
      have hcomment : Text.startsWith ['%', '%'] line = true := by
        simpa [Text.isSignificant, hempty] using h
      rw [if_neg Bool.false_ne_true, if_pos hcomment]
      rfl

/-- Reading lines carries out the significant ones. -/
theorem readLines_eq_readSignificant (b : Builder) (lines : List (List Char)) :
    b.readLines lines = b.readSignificant ((lines.map Text.trim).filter Text.isSignificant) := by
  induction lines generalizing b with
  | nil => rfl
  | cons line lines ih =>
      show ((b.readLine (Text.trim line)).1).readLines lines = _
      rw [ih, List.map_cons]
      cases hline : Text.isSignificant (Text.trim line) with
      | true =>
          rw [List.filter_cons_of_pos hline]
          rfl
      | false =>
          rw [List.filter_cons_of_neg (by rw [hline]; exact Bool.false_ne_true),
            readLine_of_not_significant hline]

end Builder

/-- **PARSING READS THE SIGNIFICANT LINES** and nothing else. -/
theorem parseChars_eq_parseSignificant (text : List Char) :
    parseChars text = parseSignificant (Text.significantLines text) := by
  rw [parseChars, Header.classifyChars]
  cases hfirst : Text.firstSignificant? text with
  | none =>
      rw [Text.significantLines_of_firstSignificant?_none hfirst]
      rfl
  | some entry =>
      obtain ⟨line, index⟩ := entry
      rw [Text.significantLines_of_firstSignificant? hfirst, parseSignificant]
      cases hdialect : matchDialect? line with
      | some keyword => simp only [hdialect]
      | none =>
          cases hdirection : Header.readDirection? line with
          | none => simp only [hdialect, hdirection]
          | some direction =>
              simp only [hdialect, hdirection, Builder.readLines_eq_readSignificant]

/-- **BLANKS AND COMMENTS DO NOT MATTER**: texts with the same significant lines
    have the same graph or are rejected alike, and carriage returns before line
    feeds change nothing. -/
theorem parse_eq_of_significantLines :
    (∀ source other : String,
        Text.significantLines source.toList = Text.significantLines other.toList →
          parse source = parse other) ∧
      ∀ source : String,
        parse (String.ofList (Text.withReturns source.toList)) = parse source := by
  constructor
  · intro source other h
    rw [parse, parse, parseChars_eq_parseSignificant, parseChars_eq_parseSignificant, h]
  · intro source
    rw [parse, parse, parseChars_eq_parseSignificant, parseChars_eq_parseSignificant,
      String.toList_ofList, Text.significantLines_withReturns]

/-- A comment before the header, a blank line in the body and blanks around the
    lines, against the same diagram without them. -/
theorem parse_eq_of_significantLines_spaced :
    Text.significantLines "%% plan\n  graph TD \r\n\t\n  A --> B\t".toList
        = Text.significantLines "graph TD\nA --> B\n".toList ∧
      parse "%% plan\n  graph TD \r\n\t\n  A --> B\t" = parse "graph TD\nA --> B\n" :=
  ⟨by decide +kernel, parse_eq_of_significantLines.1 _ _ (by decide +kernel)⟩

end Flowchart
