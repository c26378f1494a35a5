import Flowchart.Graph.Index

/-! # Reach — what lies before and after a node

    A node reaches what edges lead to from it, and is reached by what edges lead
    to it from.  Selecting a node splits the graph into the part that reaches it
    or is reached by it, and the rest. -/

namespace Flowchart

namespace Adjacency

/-- The number of successors of all nodes. -/
def arcCount {n : Nat} (next : Adjacency n) : Nat := total List.length next.toList

/-- No node has more successors than all nodes together. -/
theorem length_get_le_arcCount {n : Nat} (next : Adjacency n) (v : Fin n) :
    (next.get v).length ≤ next.arcCount :=
  le_total List.length (Table.get_mem_toList next v)

/-- Mark all that can be reached from the pending nodes without passing through
    a node already seen. -/
def spread {n : Nat} (next : Adjacency n) (pending : List (Fin n)) (seen : Table n Bool) :
    Table n Bool :=
  match pending with
  | [] => seen
  | v :: rest =>
      if _unseen : seen.get v = false then
        next.spread (next.get v ++ rest) (Table.put seen v true)
      else next.spread rest seen
termination_by Table.count seen (!·) * (next.arcCount + 1) + pending.length
decreasing_by
  · have hlen := next.length_get_le_arcCount v
    have hput := Table.count_put (x := true) (p := (!·)) (by rw [_unseen]; rfl) rfl
    rw [← hput, Nat.succ_mul, List.length_append, List.length_cons]
    omega
  · rw [List.length_cons]
    omega

/-- All that can be reached from `start`, itself included. -/
def reach {n : Nat} (next : Adjacency n) (start : Fin n) : Table n Bool :=
  next.spread [start] (Table.fill n false)

end Adjacency

/-- Both ends of the edge are among `nodes`. -/
def Edge.within (nodes : Std.TreeSet String) (e : Edge) : Bool :=
  nodes.contains e.source && nodes.contains e.target

/-- The part of a graph that belongs to a node. -/
structure Reachability where
  /-- The node, what it reaches, and what reaches it. -/
  nodes : Std.TreeSet String
  /-- The places of the edges with both ends among the nodes, ascending. -/
  edges : List Nat

namespace Graph

/-- The places of the edges that `keep` accepts, ascending. -/
def edgesWhere (g : Graph) (keep : Edge → Bool) : List Nat :=
  (g.edges.zipIdx.filter fun entry => keep entry.1).map (·.2)

/-- The ids related to `node`: what it reaches and what reaches it.  An id that
    is not a node is related to none. -/
def related (g : Graph) (node : String) : List String :=
  let ix := g.index
  match ix.node? node with
  | none => []
  | some start =>
      let below := ix.forward.reach start
      let above := ix.backward.reach start
      ((List.finRange ix.order).filter fun v => below.get v || above.get v).map ix.name

/-- The part of the graph that belongs to `node`.  The node itself is always in
    it, whether the graph mentions it or not. -/
def reachable (g : Graph) (node : String) : Reachability :=
  let nodes := Std.TreeSet.ofList (node :: g.related node)
  { nodes, edges := g.edgesWhere (Edge.within nodes) }

end Graph

/-- A graph split by a selected node. -/
structure Highlight where
  selected : String
  highlightedNodes : List String
  dimmedNodes : List String
  highlightedEdges : List Nat
  dimmedEdges : List Nat
deriving DecidableEq, Repr

/-- Split the nodes and edges by whether they belong to `node`. -/
def Graph.highlight (g : Graph) (node : String) : Highlight :=
  let part := g.reachable node
  { selected := node
    highlightedNodes := part.nodes.toList
    dimmedNodes := g.nodeNames.filter fun id => !part.nodes.contains id
    highlightedEdges := part.edges
    dimmedEdges := g.edgesWhere fun e => !e.within part.nodes }

end Flowchart
