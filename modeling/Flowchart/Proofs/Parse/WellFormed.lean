import Flowchart.Proofs.Builder.Invariant
import Flowchart.Proofs.Header.Direction
import Flowchart.Proofs.Parse.SignificantLine

/-! # Well-formed graphs — what parsing promises

    A builder starts sound with no labels, every line keeps it so, and none
    touches the direction.  What is left at the end of the text is a graph of
    distinct, well-formed parts (`wellFormed_of_parse`). -/

namespace Flowchart

namespace Graph

/-- The parts of the graph are what ids, names, labels and directions are made
    of, and only nodes have labels. -/
structure WellFormed (g : Graph) : Prop where
  /-- The ends of an edge are ids, and the label it may have is one: not empty,
      trimmed, without bars and line feeds. -/
  edges : ∀ e ∈ g.edges, e.Sound
  /-- The members of a subgraph are distinct ids, and its name holds no quote and
      no line feed. -/
  subgraphs : ∀ s ∈ g.subgraphs, s.Sound
  labelled_id : ∀ id ∈ g.labels, IsId id
  paired : ∀ id, id ∈ g.labels ↔ id ∈ g.shapes
  labelled_node : ∀ id ∈ g.labels, id ∈ g.nodeNames
  /-- The direction is made of capitals, at least one. -/
  direction : Header.IsDirection g.direction.toList
  capitals : g.direction.toList.map Header.capital = g.direction.toList
  /-- The direction can be announced again. -/
  announced : classify ("graph " ++ g.direction) = .ok ⟨g.direction, 0⟩

end Graph

namespace Builder

/-! ## Runs -/

/-- What holds from line to line. -/
structure Good (b : Builder) : Prop where
  sound : b.Sound
  labelled : b.Labelled

/-- A builder starts with nothing that could be wrong. -/
theorem good_new (direction : String) : (new direction).Good where
  sound :=
    { edges := fun _ h => absurd h List.not_mem_nil
      subgraphs := fun _ h => absurd h List.not_mem_nil
      paired := fun _ => iff_of_false Std.ExtTreeMap.not_mem_empty Std.ExtTreeMap.not_mem_empty }
  labelled _ h := absurd h Std.ExtTreeMap.not_mem_empty

theorem Good.readLine {b : Builder} (h : b.Good) {line : List Char} (hsingle : '\n' ∉ line) :
    (b.readLine line).1.Good :=
  have hstatement : (Statement.read line).Sound := Statement.sound_read hsingle
  ⟨sound_execute h.sound hstatement, labelled_execute h.labelled hstatement⟩

/-- **A RUN KEEPS A BUILDER GOOD**, whatever its lines say. -/
theorem Good.readSignificant {b : Builder} (h : b.Good) {body : List (List Char)}
    (hbody : ∀ line ∈ body, '\n' ∉ line) : (b.readSignificant body).Good :=
  List.foldlRecOn _ _ h fun _ hb line hline => hb.readLine (hbody line hline)

theorem direction_readSignificant (b : Builder) (body : List (List Char)) :
    (b.readSignificant body).direction = b.direction :=
  foldl_keeps Builder.direction (fun b line => direction_execute b (Statement.read line)) b body

/-- A node is an id. -/
theorem Sound.isId_of_mentions {b : Builder} (h : b.Sound) {id : String} (hid : b.Mentions id) :
    IsId id := by
  rcases mentions_iff.1 hid with ⟨s, hs, hmember⟩ | ⟨e, he, rfl | rfl⟩
  · exact (h.subgraphs s hs).members id hmember
  · exact (h.edges e he).source
  · exact (h.edges e he).target

/-- The graph of a good builder with an announced direction. -/
theorem Good.wellFormed {b : Builder} (h : b.Good)
    (hdirection : Header.IsDirection b.direction.toList) : b.graph.WellFormed where
  edges := h.sound.edges
  subgraphs := h.sound.subgraphs
  labelled_id id hid := h.sound.isId_of_mentions (h.labelled id hid)
  paired := h.sound.paired
  labelled_node := h.labelled
  direction := hdirection
  capitals := hdirection.map_capital
  announced := by
    show classify ("graph " ++ b.direction) = .ok ⟨b.direction, 0⟩
    rw [classify, String.toList_append, hdirection.classify, String.ofList_toList]

end Builder

/-! ## Graphs of texts -/

/-- A graph comes from the lines after a header, with the direction read there. -/
theorem exists_lines_of_parse {source : String} {g : Graph} (h : parse source = .ok g) :
    ∃ header body direction, Text.significantLines source.toList = header :: body ∧
      Header.readDirection? header = some direction ∧
      g = ((Builder.new (String.ofList direction)).readSignificant body).graph := by
  rw [parse, parseChars_eq_parseSignificant] at h
  cases hlines : Text.significantLines source.toList with
  | nil =>
      rw [hlines] at h
      cases h
  | cons header body =>
      rw [hlines, parseSignificant] at h
      split at h
      · cases h
      · split at h
        · cases h
        · next direction hread =>
            exact ⟨header, body, direction, rfl, hread, (Except.ok.inj h).symm⟩

/-- The direction is a direction, and no line after the header has a line feed. -/
theorem exists_builder_of_parse {source : String} {g : Graph} (h : parse source = .ok g) :
    ∃ direction body, Header.IsDirection direction ∧ (∀ line ∈ body, '\n' ∉ line) ∧
      g = ((Builder.new (String.ofList direction)).readSignificant body).graph := by
  obtain ⟨header, body, direction, hlines, hread, hg⟩ := exists_lines_of_parse h
  refine ⟨direction, body, Header.isDirection_of_readDirection? hread, ?_, hg⟩
  intro line hline
  have hmem : line ∈ Text.significantLines source.toList := by
    rw [hlines]
    exact List.mem_cons_of_mem _ hline
  exact Text.not_mem_of_mem_significantLines hmem

/-- The graph of a text is what a good builder has at its end. -/
theorem exists_good_of_parse {source : String} {g : Graph} (h : parse source = .ok g) :
    ∃ b : Builder, b.Good ∧ g = b.graph := by
  obtain ⟨direction, body, -, hbody, rfl⟩ := exists_builder_of_parse h
  exact ⟨_, (Builder.good_new _).readSignificant hbody, rfl⟩

/-- **A PARSED GRAPH IS WELL FORMED**, whatever the text says. -/
theorem wellFormed_of_parse {source : String} {g : Graph} (h : parse source = .ok g) :
    g.WellFormed := by
  obtain ⟨direction, body, hdirection, hbody, rfl⟩ := exists_builder_of_parse h
  refine ((Builder.good_new _).readSignificant hbody).wellFormed ?_
  rw [Builder.direction_readSignificant, Builder.new, String.toList_ofList]
  exact hdirection

/-- A direction that folds, a declaration in a subgraph, a chain with labels at
    both of its ends, and a declaration at top level, which makes no node. -/
theorem wellFormed_of_parse_folded :
    let source := "flowchart l\u017F\u212A\nsubgraph \"one two\"\nc((C))\nend\n"
      ++ "a[A] -->| x | b(B)\nd[D]"
    let g : Graph :=
      { direction := "LS\u212A"
        subgraphs := [⟨"one two", ["c"]⟩]
        edges := [⟨"a", "b", some "x", .arrow⟩]
        labels := .ofList [("a", "A"), ("b", "B"), ("c", "C")]
        shapes := .ofList [("a", Shape.rectangle), ("b", Shape.rounded), ("c", Shape.circle)] }
    parse source = .ok g ∧ g.WellFormed := by
  intro source g
  have h : parse source = .ok g := by decide +kernel +zetaReduce
  exact ⟨h, wellFormed_of_parse h⟩

end Flowchart
