import Flowchart.Proofs.Header.Direction
import Flowchart.Proofs.Parse.SignificantLine
import Flowchart.Proofs.Script.Line

/-! # Written scripts — the graph they mean comes back

    The header and the items of a script are plain lines: each begins with a word,
    ends with a word character, a bracket or a quote, and holds no line feed
    (`plain_of_mem_lines`).  So they are the significant lines of the written text,
    the first gives the direction (`readDirection?_header`) and the others do what
    their items mean.  Hence parsing a written script gives the graph that the
    script means (`parse_text`). -/

namespace Flowchart

namespace Script

open Text

/-! ## Plain lines -/

/-- The text does not end with a blank. -/
def EndsSolid (text : List Char) : Prop := ∀ c ∈ text.getLast?, isBlank c = false

/-- What a text ends with decides. -/
theorem EndsSolid.append {back : List Char} (h : EndsSolid back) (hne : back ≠ [])
    (front : List Char) : EndsSolid (front ++ back) := by
  intro c hc
  rw [List.getLast?_append_of_ne_nil front hne] at hc
  exact h c hc

/-- A text without blanks does not end with one. -/
theorem endsSolid_of_any {text : List Char} (h : text.any isBlank = false) :
    EndsSolid text := by
  intro c hc
  exact Bool.eq_false_iff.2 (List.any_eq_false.1 h c (List.mem_of_getLast? hc))

/-! ## Nodes -/

/-- Brackets hold neither blanks nor line feeds. -/
theorem closing_plain (s : Shape) :
    s.closing ≠ [] ∧ s.closing.any isBlank = false ∧ '\n' ∉ s.closing := by
  cases s <;> decide

theorem opening_plain (s : Shape) : '\n' ∉ s.opening := by
  cases s <;> decide

theorem Node.endsSolid_write (node : Node) : EndsSolid node.write := by
  rw [Node.write]
  cases node.decoration with
  | none =>
      rw [Option.elim_none, List.append_nil]
      refine endsSolid_of_any (List.any_eq_false.2 ?_)
      intro c hc
      exact Bool.eq_false_iff.1 (isBlank_eq_false_of_isWord (node.isWord_of_mem c hc))
  | some d =>
      obtain ⟨hne, hblank, -⟩ := closing_plain d.shape
      have hsplit : node.id.toList ++ writeDecoration d
          = (node.id.toList ++ d.shape.opening ++ '"' :: d.label.toList ++ ['"'])
            ++ d.shape.closing := by
        simp [writeDecoration]
      rw [Option.elim_some, hsplit]
      exact (endsSolid_of_any hblank).append hne _

/-- A written node is one line. -/
theorem Node.single_write (node : Node) : '\n' ∉ node.write := by
  have hid : '\n' ∉ node.id.toList := by
    intro h
    exact absurd (node.isWord_of_mem _ h) (by decide)
  rw [Node.write, List.mem_append, not_or]
  refine ⟨hid, ?_⟩
  cases hd : node.decoration with
  | none => exact List.not_mem_nil
  | some d =>
      have hopening := opening_plain d.shape
      obtain ⟨-, -, hclosing⟩ := closing_plain d.shape
      have hlabel := (node.label_plain d hd).2
      simp [writeDecoration, hopening, hlabel, hclosing]

/-! ## Links -/

/-- A link ends with a node. -/
theorem Link.endsSolid_write (link : Link) (front : List Char) :
    EndsSolid (front ++ link.write) := by
  have hne : link.target.write ≠ [] := by
    intro h
    exact link.target.id_ne_nil (List.append_eq_nil_iff.1 h).1
  have hsplit : front ++ link.write
      = (front ++ ' ' :: (link.arrow.lexeme ++ (link.label.elim [] Label.write ++ [' '])))
        ++ link.target.write := by
    simp [Link.write]
  rw [hsplit]
  exact link.target.endsSolid_write.append hne _

/-- A written link is within one line. -/
theorem Link.single_write (link : Link) : '\n' ∉ link.write := by
  have hlexeme : ∀ a ∈ Arrow.all, '\n' ∉ a.lexeme := by decide
  have hlabel : '\n' ∉ link.label.elim [] Label.write := by
    cases link.label with
    | none => exact List.not_mem_nil
    | some label => simp [Label.write, label.text_plain.2]
  simp [Link.write, hlexeme _ link.arrow_mem, hlabel, link.target.single_write]

/-- Links after a solid text leave it solid. -/
theorem endsSolid_writeLinks {front : List Char} (h : EndsSolid front) (links : List Link) :
    EndsSolid (front ++ writeLinks links) := by
  induction links generalizing front with
  | nil =>
      rw [writeLinks, List.flatMap_nil, List.append_nil]
      exact h
  | cons link links ih =>
      rw [writeLinks, List.flatMap_cons, ← List.append_assoc]
      exact ih (link.endsSolid_write front)

theorem single_writeLinks (links : List Link) : '\n' ∉ writeLinks links := by
  intro h
  obtain ⟨link, -, hlink⟩ := List.mem_flatMap.1 h
  exact link.single_write hlink

/-! ## Items -/

/-- A node and the links after it are a plain line. -/
theorem Node.plain_write (node : Node) (links : List Link) :
    Plain (node.write ++ writeLinks links) := by
  have hsolid := endsSolid_writeLinks node.endsSolid_write links
  have hsingle : '\n' ∉ node.write ++ writeLinks links := by
    rw [List.mem_append, not_or]
    exact ⟨node.single_write, single_writeLinks links⟩
  have hlead : (node.write ++ writeLinks links).takeWhile isWord ≠ [] := by
    rw [(node.takeWhile_write (spaced_writeLinks links)).1]
    exact node.id_ne_nil
  -- the line begins with the first character of the id
  obtain ⟨first, rest, hline, hword⟩ := exists_cons_of_takeWhile_ne_nil hlead
  rw [hline] at hsolid hsingle ⊢
  exact Statement.plain_of_word hword hsolid hsingle

/-- Every written item is a plain line. -/
theorem Item.plain_write (item : Item) : Plain item.write := by
  cases item with
  | openSubgraph name =>
      have hsplit : (openSubgraph name).write
          = ("subgraph ".toList ++ '"' :: name.text.toList) ++ ['"'] := rfl
      have hsolid : EndsSolid (openSubgraph name).write := by
        rw [hsplit]
        exact (endsSolid_of_any (by decide)).append (List.cons_ne_nil _ _) _
      have hsingle : '\n' ∉ (openSubgraph name).write := by
        have hquoted : '\n' ∉ '"' :: name.text.toList := List.not_mem_cons_of_ne_of_not_mem
          (by decide) name.text_plain.2
        rw [hsplit, List.mem_append, List.mem_append, not_or, not_or]
        exact ⟨⟨by decide, hquoted⟩, by decide⟩
      exact Statement.plain_of_word (by decide) hsolid hsingle
  | closeSubgraph =>
      have hsolid : EndsSolid "end".toList := endsSolid_of_any (by decide)
      exact Statement.plain_of_word (by decide) hsolid (by decide)
  | declare node =>
      have hplain := node.plain_write []
      rwa [writeLinks, List.flatMap_nil, List.append_nil] at hplain
  | chain first link links => exact first.plain_write (link :: links)

/-! ## The header -/

theorem isDirectionLetter_of_mem (script : Script) :
    ∀ c ∈ script.direction.toList, Header.isDirectionLetter c = true := by
  intro c hc
  rw [Header.isDirectionLetter, script.isAlpha_of_mem c hc]
  rfl

/-- An ASCII letter is put in upper case as every character is. -/
theorem capital_eq_toUpper {c : Char} (h : c.isAlpha = true) : Header.capital c = c.toUpper := by
  have hlong : c ≠ '\u017F' := by
    rintro rfl
    exact absurd h (by decide)
  rw [Header.capital, if_neg hlong]

theorem keyword_mem : "flowchart" ∈ Header.keywords := List.mem_cons_of_mem _ List.mem_cons_self

theorem plain_header (script : Script) : Plain script.header :=
  Header.plain_written keyword_mem script.direction_ne_nil script.isDirectionLetter_of_mem

/-- The header gives the direction, in capitals. -/
theorem readDirection?_header (script : Script) :
    Header.readDirection? script.header = some (script.direction.toList.map Header.capital) :=
  Header.readDirection?_written keyword_mem script.direction_ne_nil script.isDirectionLetter_of_mem

/-! ## The graph -/

/-- Reading the written items does what they mean. -/
theorem readSignificant_write (b : Builder) (items : List Item) :
    b.readSignificant (items.map Item.write) = items.foldl Item.build b := by
  induction items generalizing b with
  | nil => rfl
  | cons item items ih =>
      have hline : (b.readLine item.write).1 = item.build b := by
        rw [Builder.readLine, item.read_write, item.execute_statement]
      show ((b.readLine item.write).1).readSignificant (items.map Item.write) = _
      rw [hline, ih]
      rfl

/-- The lines of a script are its header and its items. -/
theorem plain_of_mem_lines (script : Script) : ∀ line ∈ script.lines, Plain line := by
  intro line hline
  rcases List.mem_cons.1 hline with rfl | hitem
  · exact script.plain_header
  · obtain ⟨item, -, rfl⟩ := List.mem_map.1 hitem
    exact item.plain_write

/-- Lines that are those of a script have its graph. -/
theorem parseSignificant_lines (script : Script) :
    parseSignificant script.lines = .ok script.graph := by
  have hdirection : String.ofList (script.direction.toList.map Header.capital)
      = script.direction.toUpper := by
    have hcapitals : script.direction.toList.map Header.capital
        = script.direction.toList.map Char.toUpper := by
      refine List.map_congr_left ?_
      intro c hc
      exact capital_eq_toUpper (script.isAlpha_of_mem c hc)
    rw [hcapitals, ← String.toList_map, String.ofList_toList]
    rfl
  have hdialect : matchDialect? script.header = none := Header.matchDialect?_written keyword_mem _
  show parseSignificant (script.header :: script.items.map Item.write) = _
  simp only [parseSignificant, hdialect, script.readDirection?_header,
    hdirection, readSignificant_write]
  rfl

/-- **A WRITTEN SCRIPT COMES BACK**: parsing its text succeeds and gives the graph
    that it means, whether or not a line feed ends the text. -/
theorem parse_text (script : Script) :
    parse script.text = .ok script.graph ∧ parse (script.text ++ "\n") = .ok script.graph := by
  have hlines : significantLines script.text.toList = script.lines := by
    rw [text, String.toList_ofList, significantLines_intercalate script.plain_of_mem_lines]
  have hfinal : significantLines (script.text ++ "\n").toList = script.lines := by
    rw [String.toList_append]
    exact (significantLines_append_final_newline _).trans hlines
  rw [parse, parse, parseChars_eq_parseSignificant, parseChars_eq_parseSignificant, hlines,
    hfinal, script.parseSignificant_lines]
  exact ⟨rfl, rfl⟩

/-- Ids that begin like directives, labels that hold arrows and brackets, and an
    arrow with two heads. -/
theorem parse_text_misleading :
    let script : Script :=
      { direction := "td"
        items :=
          [.openSubgraph { text := "a --> b" },
            .declare { id := "styleX", decoration := some ⟨.rounded, "end)"⟩ },
            .closeSubgraph,
            .chain { id := "directions" }
              { arrow := ⟨['-', '-', '>'], .arrow, false⟩
                label := some { text := "x [y]" }
                target := { id := "B" } }
              [{ arrow := ⟨['<', '-', '-', '>'], .arrow, true⟩
                 target := { id := "ends", decoration := some ⟨.diamond, "%% C"⟩ } }]] }
    let source := "flowchart td\nsubgraph \"a --> b\"\nstyleX(\"end)\")\nend\n"
      ++ "directions -->|x [y]| B <--> ends\x7b\"%% C\"\x7d"
    let g : Graph :=
      { direction := "TD"
        subgraphs := [⟨"a --> b", ["styleX"]⟩]
        edges := [⟨"directions", "B", some "x [y]", .arrow⟩, ⟨"B", "ends", none, .arrow⟩,
          ⟨"ends", "B", none, .arrow⟩]
        labels := .ofList [("styleX", "end)"), ("ends", "%% C")]
        shapes := .ofList [("styleX", Shape.rounded), ("ends", Shape.diamond)] }
    script.text = source ∧ script.graph = g ∧
      parse source = .ok g ∧ parse (source ++ "\n") = .ok g := by
  intro script source g
  have htext : script.text = source := by decide +kernel +zetaReduce
  have hgraph : script.graph = g := by decide +kernel +zetaReduce
  refine ⟨htext, hgraph, ?_⟩
  rw [← htext, ← hgraph]
  exact parse_text script

end Script

end Flowchart
