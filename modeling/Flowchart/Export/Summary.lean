import Flowchart.Graph.Cycle

/-! # Summaries — a graph in a few lines of text

    The summary counts what is there, lists the subgraphs with their members,
    and then the cycles and the edges on them.  A selected node adds the two
    halves of the split it makes. -/

namespace Flowchart.Summary

/-- The line of a subgraph. -/
def subgraphLine (s : Subgraph) : String := "  " ++ s.name ++ ": " ++ ", ".intercalate s.nodes

/-- The line of a cycle, back to its first node. -/
def cycleLine (cycle : List String) : String :=
  "  " ++ " -> ".intercalate (cycle ++ (cycle.head?).toList)

/-- The line of the edge at place `i`. -/
def edgeLine (g : Graph) (i : Nat) : Option String :=
  g.edges[i]?.map fun e => "  #" ++ Nat.repr i ++ " " ++ e.source ++ " -> " ++ e.target

/-- The lines about cycles. -/
def cycleLines (g : Graph) : List String :=
  let report := g.cycleReport
  if report.isAcyclic then ["cycles: none"]
  else
    ("cycles: " ++ Nat.repr report.cycles.length) :: report.cycles.map cycleLine
      ++ ("cyclic edges: " ++ Nat.repr report.cyclicEdges.size)
        :: report.cyclicEdges.toList.filterMap (edgeLine g)

/-- The lines about a selected node. -/
def selectionLines (g : Graph) (node : String) : List String :=
  let split := g.highlight node
  ["selected: " ++ split.selected,
   "  highlighted: " ++ ", ".intercalate split.highlightedNodes,
   "  dimmed: " ++ ", ".intercalate split.dimmedNodes]

/-- The lines of a summary. -/
def lines (g : Graph) (selected : Option String) : List String :=
  ["flowchart " ++ g.direction,
   "nodes: " ++ Nat.repr g.nodeNames.length,
   "edges: " ++ Nat.repr g.edges.length,
   "subgraphs: " ++ Nat.repr g.subgraphs.length]
    ++ g.subgraphs.map subgraphLine
    ++ cycleLines g
    ++ (selected.map (selectionLines g)).getD []

end Flowchart.Summary

namespace Flowchart

/-- The summary of a graph: its lines, each with a line feed. -/
def Graph.summary (g : Graph) (selected : Option String) : String :=
  String.join ((Summary.lines g selected).map (· ++ "\n"))

end Flowchart
