import Flowchart.Export.Elements
import Flowchart.Export.Summary
import Flowchart.Proofs.Access.Cycle
import Flowchart.Proofs.Access.Slice
import Flowchart.Proofs.Cycle.Report

/-! # Exports — every place that is looked up is there

    An export looks up colors by subgraph, legend entries by place, the first
    node of a cycle and the edge at a place.  Each is there for a reason of its
    own: the remainder by the length of a palette is below it, the place of a
    home is one among the subgraphs, a simple cycle has a node, and a cyclic edge
    is an edge.  With the look-ups of the parser and of the walks, none is left
    that could fail (`Checked.no_access_fails`). -/

namespace Flowchart

namespace Checked

/-! ## The exports -/

/-- The color of the subgraph at `index`; none when there are no colors. -/
def colorFor (config : ExportConfig) (index : Nat) : Option (Option String) := do
  if config.palette.isEmpty then return none
  else return some (← config.palette[index % config.palette.length]?)

/-- The color of the entry in `legend` for the subgraph that `id` belongs to. -/
def legendColor (g : Graph) (legend : List LegendEntry) (id : String) : Option (Option String) := do
  match g.subgraphs.findIdx? (·.contains id) with
  | none => return none
  | some place => return (← legend[place]?).color

def node (g : Graph) (legend : List LegendEntry) (id : String) : Option NodeElement := do
  let color ← legendColor g legend id
  return {
    id
    label := g.labelOf id
    shape := g.shapes[id]?
    subgraph := (g.home? id).map (·.name)
    color }

/-- The legend entry of the subgraph at place `i`. -/
def legendEntry (config : ExportConfig) (s : Subgraph) (i : Nat) : Option LegendEntry := do
  return ⟨s.name, ← colorFor config i⟩

noncomputable def elements (g : Graph) (config : ExportConfig) (selected : Option String) :
    Option Elements := do
  let report ← cycleReport g
  let legend ← g.subgraphs.zipIdx.mapM fun entry => legendEntry config entry.1 entry.2
  let nodes ← g.nodeNames.mapM (node g legend)
  return {
    direction := g.direction
    nodes
    edges := g.edges.zipIdx.map fun entry => Elements.edgeOf report entry.1 entry.2
    legend
    cycles := if config.includeCycles then some report.cycles else none
    highlight := ← selected.mapM (highlight g) }

/-- The line of a cycle, which must have a first node to come back to. -/
def cycleLine (cycle : List String) : Option String := do
  return "  " ++ " -> ".intercalate (cycle ++ [← cycle[0]?])

/-- The lines about cycles; the line of an edge fails where there is no edge. -/
noncomputable def cycleLines (g : Graph) : Option (List String) := do
  let report ← cycleReport g
  if report.isAcyclic then return ["cycles: none"]
  else
    let cycles ← report.cycles.mapM cycleLine
    let edges ← report.cyclicEdges.toList.mapM (Summary.edgeLine g)
    return ("cycles: " ++ Nat.repr report.cycles.length) :: cycles
      ++ ("cyclic edges: " ++ Nat.repr report.cyclicEdges.size) :: edges

noncomputable def selectionLines (g : Graph) (node : String) : Option (List String) := do
  let split ← highlight g node
  return ["selected: " ++ split.selected,
    "  highlighted: " ++ ", ".intercalate split.highlightedNodes,
    "  dimmed: " ++ ", ".intercalate split.dimmedNodes]

noncomputable def summary (g : Graph) (selected : Option String) : Option String := do
  let cycles ← cycleLines g
  let selection ← selected.mapM (selectionLines g)
  let lines := ["flowchart " ++ g.direction,
      "nodes: " ++ Nat.repr g.nodeNames.length,
      "edges: " ++ Nat.repr g.edges.length,
      "subgraphs: " ++ Nat.repr g.subgraphs.length]
    ++ g.subgraphs.map Summary.subgraphLine
    ++ cycles
    ++ selection.getD []
  return String.join (lines.map (· ++ "\n"))

/-! ## Nothing is out of range -/

/-- With colors, the remainder by their number is the place of one. -/
theorem colorFor_eq (config : ExportConfig) (index : Nat) :
    colorFor config index = some (config.colorFor? index) := by
  rw [colorFor, ExportConfig.colorFor?]
  cases hpalette : config.palette with
  | nil => rfl
  | cons color colors =>
      have hlt : index % (color :: colors).length < (color :: colors).length :=
        Nat.mod_lt index (Nat.succ_pos _)
      rw [List.getElem?_eq_getElem hlt]
      rfl

theorem legendEntry_eq (config : ExportConfig) (s : Subgraph) (i : Nat) :
    legendEntry config s i = some ⟨s.name, config.colorFor? i⟩ := by
  rw [legendEntry, colorFor_eq]
  rfl

/-- The legend has an entry for every subgraph. -/
theorem legendColor_eq (g : Graph) (config : ExportConfig) (id : String) :
    legendColor g (Elements.legendOf g config) id
      = some (Elements.nodeOf g (Elements.legendOf g config) id).color := by
  rw [legendColor]
  simp only [Elements.nodeOf]
  cases hplace : g.subgraphs.findIdx? (·.contains id) with
  | none => rfl
  | some place =>
      obtain ⟨hlt, -⟩ := List.findIdx?_eq_some_iff_getElem.1 hplace
      have hlegend : place < (Elements.legendOf g config).length := by
        rw [Elements.legendOf, List.length_map, List.length_zipIdx]
        exact hlt
      simp only [List.getElem?_eq_getElem hlegend, Option.bind_eq_bind, Option.bind_some]
      rfl

theorem node_eq (g : Graph) (config : ExportConfig) (id : String) :
    node g (Elements.legendOf g config) id
      = some (Elements.nodeOf g (Elements.legendOf g config) id) := by
  rw [node, legendColor_eq]
  rfl

theorem mapM_option_of_forall {α β : Type} {visit : α → Option β} {value : α → β}
    (h : ∀ a, visit a = some (value a)) (a : Option α) :
    a.mapM visit = some (a.map value) := by
  cases a with
  | none => rfl
  | some a => exact congrArg (Option.map some) (h a)

theorem elements_eq (g : Graph) (config : ExportConfig) (selected : Option String) :
    elements g config selected = some (Elements.ofGraph g config selected) := by
  have hlegend : g.subgraphs.zipIdx.mapM (fun entry => legendEntry config entry.1 entry.2)
      = some (Elements.legendOf g config) :=
    mapM_of_forall fun entry _ => legendEntry_eq config entry.1 entry.2
  have hnodes : g.nodeNames.mapM (node g (Elements.legendOf g config))
      = some (g.nodeNames.map (Elements.nodeOf g (Elements.legendOf g config))) :=
    mapM_of_forall fun id _ => node_eq g config id
  rw [elements, cycleReport_eq]
  simp only [hlegend, hnodes, mapM_option_of_forall (highlight_eq g), Option.bind_eq_bind,
    Option.bind_some]
  rfl

/-- A simple cycle has a first node. -/
theorem cycleLine_eq {cycle : List String} (h : cycle ≠ []) :
    cycleLine cycle = some (Summary.cycleLine cycle) := by
  cases cycle with
  | nil => exact absurd rfl h
  | cons first others => rfl

/-- A cyclic edge is an edge. -/
theorem isSome_edgeLine {g : Graph} {i : Nat} (h : i ∈ g.cyclicEdges) :
    (Summary.edgeLine g i).isSome := by
  have hplace := (g.index.cyclicEdges_sublist g.index.forward.components).subset h
  rw [Graph.index_arcs_edge, List.mem_range] at hplace
  rw [Summary.edgeLine, List.getElem?_eq_getElem hplace]
  rfl

theorem cycleLines_eq (g : Graph) : cycleLines g = some (Summary.cycleLines g) := by
  have hcycles : g.cycleReport.cycles.mapM cycleLine
      = some (g.cycleReport.cycles.map Summary.cycleLine) :=
    mapM_of_forall fun cycle hcycle => cycleLine_eq (Graph.mem_simpleCycles_iff.1 hcycle).nonempty
  have hedges : g.cycleReport.cyclicEdges.toList.mapM (Summary.edgeLine g)
      = some (g.cycleReport.cyclicEdges.toList.filterMap (Summary.edgeLine g)) :=
    mapM_of_isSome fun i hi => isSome_edgeLine hi
  simp only [cycleLines, Summary.cycleLines, cycleReport_eq, hcycles, hedges, Option.bind_eq_bind,
    Option.bind_some]
  split <;> rfl

theorem selectionLines_eq (g : Graph) (node : String) :
    selectionLines g node = some (Summary.selectionLines g node) := by
  rw [selectionLines, highlight_eq]
  rfl

theorem summary_eq (g : Graph) (selected : Option String) :
    summary g selected = some (g.summary selected) := by
  rw [summary, cycleLines_eq]
  simp only [mapM_option_of_forall (selectionLines_eq g), Option.bind_eq_bind, Option.bind_some]
  rfl

/-- **NO ACCESS FAILS**: a slice is there at the positions of the string alone,
    and an entry of a table below its size alone; and with every slice, every
    table and every place checked, each function of the pipeline comes to its
    result. -/
theorem no_access_fails :
    ((∀ text n, (Text.sliceFrom? text n).isSome ↔
        String.Pos.Raw.IsValid (String.ofList text) ⟨n⟩) ∧
      (∀ {n : Nat} {α : Type} (t : Table n α) (i : Nat), (Table.read? t i).isSome ↔ i < n) ∧
      ∀ {n : Nat} {α : Type} (t : Table n α) (i : Nat) (x : α),
        (Table.put? t i x).isSome ↔ i < n) ∧
    (∀ text, nodeToken text = some ((NodeToken.read? text).map Prod.fst)) ∧
    (∀ line, chain line = some (Chain.read? line)) ∧
    (∀ source, parse source = some (Flowchart.parse source)) ∧
    (∀ g, cycleReport g = some g.cycleReport) ∧
    (∀ g node, highlight g node = some (g.highlight node)) ∧
    (∀ g config selected, elements g config selected = some (Elements.ofGraph g config selected)) ∧
    (∀ g selected, summary g selected = some (g.summary selected)) := by
  refine ⟨⟨?_, ?_, ?_⟩, nodeToken_eq, chain_eq, parse_eq, cycleReport_eq, highlight_eq,
    elements_eq, summary_eq⟩
  · exact fun text n => Text.isSome_sliceFrom?_iff
  · exact fun t i => Table.isSome_read?_iff
  · exact fun t i x => Table.isSome_put?_iff

end Checked

end Flowchart
