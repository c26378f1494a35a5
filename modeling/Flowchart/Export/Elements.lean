import Flowchart.Export.Config
import Flowchart.Graph.Cycle

/-! # Elements — a graph as a list of things to draw

    Every node and every edge becomes an element that carries all a drawing
    needs: label, shape and color of a node, style of an edge and whether it
    lies on a cycle.  The legend gives each subgraph its color.  A node that is
    in several subgraphs belongs to the one declared first. -/

namespace Flowchart

/-- A node to draw. -/
structure NodeElement where
  id : String
  label : String
  shape : Option Shape
  /-- The name of the subgraph it belongs to. -/
  subgraph : Option String
  color : Option String
deriving DecidableEq, Repr

/-- An edge to draw. -/
structure EdgeElement where
  /-- The place of the edge in the graph. -/
  id : Nat
  source : String
  target : String
  label : Option String
  style : ArrowStyle
  cyclic : Bool
deriving DecidableEq, Repr

/-- A subgraph and its color. -/
structure LegendEntry where
  name : String
  color : Option String
deriving DecidableEq, Repr

/-- All there is to draw. -/
structure Elements where
  direction : String
  nodes : List NodeElement
  edges : List EdgeElement
  legend : List LegendEntry
  cycles : Option (List (List String))
  highlight : Option Highlight
deriving DecidableEq, Repr

namespace Elements

/-- The legend of a graph: a color for each subgraph in turn. -/
def legendOf (g : Graph) (config : ExportConfig) : List LegendEntry :=
  g.subgraphs.zipIdx.map fun (s, i) => ⟨s.name, config.colorFor? i⟩

/-- The element of the node `id`, its color taken from `legend`. -/
def nodeOf (g : Graph) (legend : List LegendEntry) (id : String) : NodeElement where
  id := id
  label := g.labelOf id
  shape := g.shapes[id]?
  subgraph := (g.home? id).map (·.name)
  color := do
    let place ← g.subgraphs.findIdx? (·.contains id)
    let entry ← legend[place]?
    entry.color

/-- The element of the edge at place `i`. -/
def edgeOf (report : CycleReport) (e : Edge) (i : Nat) : EdgeElement where
  id := i
  source := e.source
  target := e.target
  label := e.label
  style := e.style
  cyclic := report.isCyclicEdge i

/-- The elements of a graph, with the split made by `selected` if a node is
    given. -/
def ofGraph (g : Graph) (config : ExportConfig) (selected : Option String) : Elements :=
  let report := g.cycleReport
  let legend := legendOf g config
  { direction := g.direction
    nodes := g.nodeNames.map (nodeOf g legend)
    edges := g.edges.zipIdx.map fun (e, i) => edgeOf report e i
    legend
    cycles := if config.includeCycles then some report.cycles else none
    highlight := selected.map g.highlight }

end Elements

end Flowchart
