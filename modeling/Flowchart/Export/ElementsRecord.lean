import Flowchart.Export.Elements
import Flowchart.Graph.Record
import Flowchart.Json.Reader
import Flowchart.Json.Writer

/-! # Element records — elements as a JSON value

    The fields are written in the order of the structures.  Optional fields are
    left out when there is nothing to say; all others must be there to be read. -/

namespace Flowchart

def NodeElement.fieldNames : List String := ["id", "label", "shape", "subgraph", "color"]

/-- The value of a node element. -/
def NodeElement.toJson (e : NodeElement) : Json :=
  .object ([("id", .string e.id), ("label", .string e.label)]
    ++ Json.present "shape" (fun shape : Shape => .string shape.name) e.shape
    ++ Json.present "subgraph" .string e.subgraph
    ++ Json.present "color" .string e.color)

/-- The node element with the given value. -/
def NodeElement.ofJson? (value : Json) : Option NodeElement := do
  let record ← value.record? NodeElement.fieldNames
  let id ← record.required? "id" Json.text?
  let label ← record.required? "label" Json.text?
  let shape ← record.optional? "shape" (Json.choice? Shape.ofName?)
  let subgraph ← record.optional? "subgraph" Json.text?
  let color ← record.optional? "color" Json.text?
  return { id, label, shape, subgraph, color }

def EdgeElement.fieldNames : List String := ["id", "source", "target", "label", "style", "cyclic"]

/-- The value of an edge element. -/
def EdgeElement.toJson (e : EdgeElement) : Json :=
  .object ([("id", .number e.id), ("source", .string e.source), ("target", .string e.target)]
    ++ Json.present "label" .string e.label
    ++ [("style", .string e.style.name), ("cyclic", .bool e.cyclic)])

/-- The edge element with the given value. -/
def EdgeElement.ofJson? (value : Json) : Option EdgeElement := do
  let record ← value.record? EdgeElement.fieldNames
  let id ← record.required? "id" Json.index?
  let source ← record.required? "source" Json.text?
  let target ← record.required? "target" Json.text?
  let label ← record.optional? "label" Json.text?
  let style ← record.required? "style" (Json.choice? ArrowStyle.ofName?)
  let cyclic ← record.required? "cyclic" Json.bool?
  return { id, source, target, label, style, cyclic }

def LegendEntry.fieldNames : List String := ["name", "color"]

/-- The value of a legend entry. -/
def LegendEntry.toJson (e : LegendEntry) : Json :=
  .object (("name", .string e.name) :: Json.present "color" .string e.color)

/-- The legend entry with the given value. -/
def LegendEntry.ofJson? (value : Json) : Option LegendEntry := do
  let record ← value.record? LegendEntry.fieldNames
  let name ← record.required? "name" Json.text?
  let color ← record.optional? "color" Json.text?
  return { name, color }

def Highlight.fieldNames : List String :=
  ["selected", "highlighted_nodes", "dimmed_nodes", "highlighted_edges", "dimmed_edges"]

/-- The value of a split. -/
def Highlight.toJson (h : Highlight) : Json :=
  .object
    [("selected", .string h.selected),
     ("highlighted_nodes", Json.texts h.highlightedNodes),
     ("dimmed_nodes", Json.texts h.dimmedNodes),
     ("highlighted_edges", Json.numbers h.highlightedEdges),
     ("dimmed_edges", Json.numbers h.dimmedEdges)]

/-- The split with the given value. -/
def Highlight.ofJson? (value : Json) : Option Highlight := do
  let record ← value.record? Highlight.fieldNames
  let selected ← record.required? "selected" Json.text?
  let highlightedNodes ← record.required? "highlighted_nodes" (Json.list? Json.text?)
  let dimmedNodes ← record.required? "dimmed_nodes" (Json.list? Json.text?)
  let highlightedEdges ← record.required? "highlighted_edges" (Json.list? Json.index?)
  let dimmedEdges ← record.required? "dimmed_edges" (Json.list? Json.index?)
  return { selected, highlightedNodes, dimmedNodes, highlightedEdges, dimmedEdges }

/-- The value of a list of cycles. -/
def cyclesToJson (cycles : List (List String)) : Json := .array (cycles.map Json.texts)

namespace Elements

def fieldNames : List String := ["direction", "nodes", "edges", "legend", "cycles", "highlight"]

/-- The value of elements. -/
def toJson (e : Elements) : Json :=
  .object
    ([("direction", .string e.direction),
      ("nodes", .array (e.nodes.map NodeElement.toJson)),
      ("edges", .array (e.edges.map EdgeElement.toJson)),
      ("legend", .array (e.legend.map LegendEntry.toJson))]
      ++ Json.present "cycles" cyclesToJson e.cycles
      ++ Json.present "highlight" Highlight.toJson e.highlight)

/-- The elements with the given value. -/
def ofJson? (value : Json) : Option Elements := do
  let record ← value.record? fieldNames
  let direction ← record.required? "direction" Json.text?
  let nodes ← record.required? "nodes" (Json.list? NodeElement.ofJson?)
  let edges ← record.required? "edges" (Json.list? EdgeElement.ofJson?)
  let legend ← record.required? "legend" (Json.list? LegendEntry.ofJson?)
  let cycles ← record.optional? "cycles" (Json.list? (Json.list? Json.text?))
  let highlight ← record.optional? "highlight" Highlight.ofJson?
  return { direction, nodes, edges, legend, cycles, highlight }

/-- The elements as text, in the layout of the settings. -/
def render (e : Elements) (config : ExportConfig) : String :=
  if config.pretty then e.toJson.pretty else e.toJson.compact

/-- The elements that `text` stands for. -/
def read? (text : String) : Option Elements := (Json.read? text).bind ofJson?

end Elements

/-- The graph that `text` stands for. -/
def Graph.read? (text : String) : Option Graph := (Json.read? text).bind Graph.ofJson?

/-- The elements of a graph as text. -/
def Graph.renderElements (g : Graph) (config : ExportConfig) (selected : Option String) :
    String :=
  (Elements.ofGraph g config selected).render config

end Flowchart
