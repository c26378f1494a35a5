import Flowchart.Graph.Basic
import Flowchart.Json.Decode

/-! # Graph records — a graph as a JSON value

    The fields are written in the order of the structures, the maps in the order
    of their keys.  The label of an edge is left out when there is none; a style
    that is not given is that of a plain arrow. -/

namespace Flowchart

def Edge.fieldNames : List String := ["source", "target", "label", "style"]

def Edge.toJson (e : Edge) : Json :=
  .object ([("source", .string e.source), ("target", .string e.target)]
    ++ Json.present "label" .string e.label
    ++ [("style", .string e.style.name)])

def Edge.ofJson? (value : Json) : Option Edge := do
  let record ← value.record? Edge.fieldNames
  let source ← record.required? "source" Json.text?
  let target ← record.required? "target" Json.text?
  let label ← record.optional? "label" Json.text?
  let style ← record.defaulted? "style" (Json.choice? ArrowStyle.ofName?) .arrow
  return { source, target, label, style }

def Subgraph.fieldNames : List String := ["name", "nodes"]

def Subgraph.toJson (s : Subgraph) : Json :=
  .object [("name", .string s.name), ("nodes", Json.texts s.nodes)]

def Subgraph.ofJson? (value : Json) : Option Subgraph := do
  let record ← value.record? Subgraph.fieldNames
  let name ← record.required? "name" Json.text?
  let nodes ← record.required? "nodes" (Json.list? Json.text?)
  return { name, nodes }

/-- The value of a map from ids. -/
def mapToJson {α : Type} (encode : α → Json) (m : Std.ExtTreeMap String α) : Json :=
  .object (m.toList.map fun entry => (entry.1, encode entry.2))

/-- The map from ids with the given value. -/
def mapOfJson? {α : Type} (decode : Json → Option α) (value : Json) :
    Option (Std.ExtTreeMap String α) := do
  let members ← value.members?
  let entries ← members.mapM fun member => (decode member.2).map fun v => (member.1, v)
  return .ofList entries

namespace Graph

def fieldNames : List String := ["direction", "subgraphs", "edges", "labels", "shapes"]

def toJson (g : Graph) : Json :=
  .object
    [("direction", .string g.direction),
     ("subgraphs", .array (g.subgraphs.map Subgraph.toJson)),
     ("edges", .array (g.edges.map Edge.toJson)),
     ("labels", mapToJson .string g.labels),
     ("shapes", mapToJson (fun shape => .string shape.name) g.shapes)]

def ofJson? (value : Json) : Option Graph := do
  let record ← value.record? fieldNames
  let direction ← record.required? "direction" Json.text?
  let subgraphs ← record.required? "subgraphs" (Json.list? Subgraph.ofJson?)
  let edges ← record.required? "edges" (Json.list? Edge.ofJson?)
  let labels ← record.required? "labels" (mapOfJson? Json.text?)
  let shapes ← record.required? "shapes" (mapOfJson? (Json.choice? Shape.ofName?))
  return { direction, subgraphs, edges, labels, shapes }

end Graph

end Flowchart
