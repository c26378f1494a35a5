import Flowchart.Proofs.Builder.Growth
import Flowchart.Proofs.Parse.SignificantLine

/-! # Continuations — what is read when a text goes on

    The significant lines of a text that goes on after a line feed are its own,
    followed by those of the rest.  The first of them is the header, so what is
    decided there stays decided: a text that is rejected is rejected however it
    goes on, and the graph of one that is accepted only grows
    (`parse_append_newline`).  A text without a significant line has no say. -/

namespace Flowchart

/-- Lines one after the other grow the graph. -/
theorem Builder.growsTo_readSignificant (b : Builder) (body : List (List Char)) :
    b.graph.GrowsTo (b.readSignificant body).graph :=
  growsTo_foldl (fun b line => b.growsTo_execute (Statement.read line)) b body

/-- A header that is accepted has the lines after it as its body. -/
theorem parseSignificant_append_of_ok {lines : List (List Char)} {g : Graph}
    (h : parseSignificant lines = .ok g) (more : List (List Char)) :
    ∃ later, parseSignificant (lines ++ more) = .ok later ∧ g.GrowsTo later := by
  cases lines with
  | nil => cases h
  | cons line body =>
      rw [parseSignificant] at h
      rw [List.cons_append, parseSignificant]
      split at h
      · cases h
      · split at h
        · cases h
        · next direction _ =>
            obtain rfl := Except.ok.inj h
            refine ⟨_, rfl, ?_⟩
            rw [Builder.readSignificant, Builder.readSignificant, List.foldl_append]
            exact Builder.growsTo_readSignificant _ more

/-- A header that is rejected is rejected for its own sake. -/
theorem parseSignificant_append_of_error {lines : List (List Char)} {reason : Unsupported}
    (h : parseSignificant lines = .error reason) (hlines : lines ≠ []) (more : List (List Char)) :
    parseSignificant (lines ++ more) = .error reason := by
  cases lines with
  | nil => exact absurd rfl hlines
  | cons line body =>
      rw [parseSignificant] at h
      rw [List.cons_append, parseSignificant]
      split at h
      · exact h
      · split at h
        · exact h
        · cases h

theorem Text.significantLines_eq_nil_iff {text : List Char} :
    significantLines text = [] ↔ firstSignificant? text = none := by
  constructor
  · intro h
    cases hfirst : firstSignificant? text with
    | none => rfl
    | some entry =>
        rw [significantLines_of_firstSignificant? hfirst] at h
        cases h
  · exact significantLines_of_firstSignificant?_none

/-- Going on after a line feed puts the significant lines one after the other. -/
theorem parse_append_newline_eq (source more : String) :
    parse (source ++ "\n" ++ more)
      = parseSignificant
          (Text.significantLines source.toList ++ Text.significantLines more.toList) := by
  have hchars : (source ++ "\n" ++ more).toList = source.toList ++ '\n' :: more.toList := by
    rw [String.toList_append, String.toList_append, List.append_assoc]
    rfl
  rw [parse, parseChars_eq_parseSignificant, hchars, Text.significantLines_append]

/-- **A TEXT THAT GOES ON** after a line feed keeps what it had.  If it is
    accepted it stays accepted and its graph only grows; if its first significant
    line is rejected it stays rejected for the same reason; and if it has no
    significant line, what comes after is read as if alone. -/
theorem parse_append_newline (source more : String) :
    (∀ g, parse source = .ok g →
        ∃ later, parse (source ++ "\n" ++ more) = .ok later ∧ g.GrowsTo later) ∧
      (∀ reason, parse source = .error reason → Text.firstSignificant? source.toList ≠ none →
        parse (source ++ "\n" ++ more) = .error reason) ∧
      (Text.firstSignificant? source.toList = none →
        parse (source ++ "\n" ++ more) = parse more) := by
  rw [parse_append_newline_eq, parse, parse, parseChars_eq_parseSignificant,
    parseChars_eq_parseSignificant]
  refine ⟨fun g h => parseSignificant_append_of_ok h _, fun reason h hfirst => ?_, fun hfirst => ?_⟩
  · exact parseSignificant_append_of_error h (mt Text.significantLines_eq_nil_iff.1 hfirst) _
  · rw [Text.significantLines_eq_nil_iff.2 hfirst, List.nil_append]

/-- A subgraph that is still open, with a carriage return at the seam; a rejected
    header that a proper one follows; and a comment alone. -/
theorem parse_append_newline_open_subgraph :
    let source := "graph TD\nsubgraph s\na[A]\r"
    let more := "b\nb --> c\nend\nd --> a"
    let g : Graph :=
      { direction := "TD"
        subgraphs := [⟨"s", ["a"]⟩]
        labels := .ofList [("a", "A")]
        shapes := .ofList [("a", Shape.rectangle)] }
    (parse source = .ok g ∧
        ∃ later, parse (source ++ "\n" ++ more) = .ok later ∧ g.GrowsTo later) ∧
      (parse "pie\n" = .error (.dialect "pie") ∧ Text.firstSignificant? "pie\n".toList ≠ none ∧
        parse ("pie\n" ++ "\n" ++ "graph TD") = .error (.dialect "pie")) ∧
      Text.firstSignificant? " %% plan".toList = none ∧
        parse (" %% plan" ++ "\n" ++ "graph TD") = parse "graph TD" := by
  intro source more g
  have hopen : parse source = .ok g := by decide +kernel +zetaReduce
  have hpie : parse "pie\n" = .error (.dialect "pie") := by decide +kernel
  have hheader : Text.firstSignificant? "pie\n".toList ≠ none := by decide +kernel
  have hnone : Text.firstSignificant? " %% plan".toList = none := by decide +kernel
  exact ⟨⟨hopen, (parse_append_newline source more).1 g hopen⟩,
    ⟨hpie, hheader, (parse_append_newline _ _).2.1 _ hpie hheader⟩,
    hnone, (parse_append_newline _ _).2.2 hnone⟩

end Flowchart
