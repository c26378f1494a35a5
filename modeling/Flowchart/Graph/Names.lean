import Std.Data.TreeSet
import Std.Data.TreeSet.Lemmas
import Flowchart.Graph.Basic

/-! # Names — the nodes of a graph, in order

    A graph has no list of nodes of its own.  Its nodes are the ids it mentions:
    the members of its subgraphs and the ends of its edges, each once, in the
    order of their code points. -/

namespace Flowchart

/-- Comparing strings finds them in order exactly when the first is smaller. -/
theorem compare_eq_lt_iff {a b : String} : compare a b = .lt ↔ a < b := by
  show compareOfLessAndEq a b = .lt ↔ a < b
  rw [compareOfLessAndEq]
  by_cases h : a < b
  · simp [h]
  · by_cases he : a = b <;> simp [h, he]

/-- The given ids, each once, in ascending order. -/
def ascending (ids : List String) : List String := (Std.TreeSet.ofList ids).toList

/-- Putting ids in order loses none and adds none. -/
@[simp] theorem mem_ascending {ids : List String} {id : String} :
    id ∈ ascending ids ↔ id ∈ ids := by
  rw [ascending, Std.TreeSet.mem_toList, Std.TreeSet.mem_ofList, List.contains_iff_mem]

/-- The order is strict. -/
theorem pairwise_ascending (ids : List String) : (ascending ids).Pairwise (· < ·) :=
  Std.TreeSet.ordered_toList.imp compare_eq_lt_iff.1

/-- No id is listed twice. -/
theorem nodup_ascending (ids : List String) : (ascending ids).Nodup :=
  (pairwise_ascending ids).imp fun {a b} (h : a < b) (heq : a = b) =>
    String.lt_irrefl b (heq ▸ h)

namespace Graph

/-- Every mention of an id as a member or an end. -/
def mentions (g : Graph) : List String :=
  g.subgraphs.flatMap (·.nodes) ++ g.edges.flatMap fun e => [e.source, e.target]

/-- The nodes of the graph in ascending order. -/
def nodeNames (g : Graph) : List String := ascending g.mentions

/-- A node is a member of a subgraph or an end of an edge. -/
theorem mem_nodeNames {g : Graph} {id : String} :
    id ∈ g.nodeNames ↔
      (∃ s ∈ g.subgraphs, id ∈ s.nodes) ∨ ∃ e ∈ g.edges, id = e.source ∨ id = e.target := by
  simp [nodeNames, mentions]

theorem pairwise_nodeNames (g : Graph) : g.nodeNames.Pairwise (· < ·) :=
  pairwise_ascending g.mentions

theorem nodup_nodeNames (g : Graph) : g.nodeNames.Nodup := nodup_ascending g.mentions

/-- The first subgraph that has `id` as a member. -/
def home? (g : Graph) (id : String) : Option Subgraph := g.subgraphs.find? (·.contains id)

end Graph

end Flowchart
