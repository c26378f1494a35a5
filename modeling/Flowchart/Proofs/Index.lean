import Mathlib.Data.List.Nodup
import Flowchart.Proofs.Reach.Spread

/-! # Faithful indices — a graph over numbers says what it said over ids

    All walks run on the index of a graph.  `Graph.FaithfulIndex` lists what that
    takes: the numbers stand for the node names in order, every edge is one arc at
    its own place, and the neighbours that are read off the arcs, forwards and
    backwards, are those that the edges give (`mem_neighbours_iff`). -/

namespace Flowchart

namespace Graph

/-- `ix` is `g` over numbered nodes, with nothing lost and nothing added. -/
structure FaithfulIndex (g : Graph) (ix : Index) : Prop where
  names : (List.finRange ix.order).map ix.name = g.nodeNames
  name_lt : ∀ v w, v < w → ix.name v < ix.name w
  node?_name : ∀ v, ix.node? (ix.name v) = some v
  name_node? : ∀ id v, ix.node? id = some v → ix.name v = id
  node?_eq_none_iff : ∀ id, ix.node? id = none ↔ id ∉ g.nodeNames
  edgeCount : ix.edgeCount = g.edges.length
  /-- The place of every edge is found on one arc. -/
  count_edge : ∀ i < g.edges.length, (ix.arcs.map (·.edge)).count i = 1
  /-- Every arc joins the nodes of the ends of the edge at its place. -/
  joins : ∀ a ∈ ix.arcs, ∃ h : a.edge < g.edges.length,
    ix.node? g.edges[a.edge].source = some a.source ∧
      ix.node? g.edges[a.edge].target = some a.target
  successors_ascending : ∀ a, (ix.successors a).Pairwise (· < ·)
  mem_successors_iff : ∀ a b, b ∈ ix.successors a ↔ g.Leads a b
  predecessors_ascending : ∀ a, (ix.predecessors a).Pairwise (· < ·)
  mem_predecessors_iff : ∀ a b, b ∈ ix.predecessors a ↔ g.Leads b a
  dual : ∀ a b, b ∈ ix.successors a ↔ a ∈ ix.predecessors b

variable {g : Graph} {a b id : String}

/-! ## Nodes -/

/-- Greater numbers stand for greater names. -/
theorem name_lt_name {v w : Fin g.index.order} (h : v < w) : g.index.name v < g.index.name w :=
  List.pairwise_iff_getElem.1 g.pairwise_nodeNames v w v.isLt w.isLt h

/-! ## Neighbours -/

theorem pairwise_neighbours (ix : Index) (next : Adjacency ix.order) (id : String) :
    (ix.neighbours next id).Pairwise (· < ·) := by
  rw [Index.neighbours]
  split
  · exact List.Pairwise.nil
  · exact pairwise_ascending _

/-- Neighbours along arcs that agree with a relation between ids are the ids in that
    relation. -/
theorem mem_neighbours_iff {next : Adjacency g.index.order} {r : String → String → Prop}
    (hagree : ∀ v w, next.Leads v w ↔ r (g.index.name v) (g.index.name w))
    (hnodes : r a b → a ∈ g.nodeNames ∧ b ∈ g.nodeNames) :
    b ∈ g.index.neighbours next a ↔ r a b := by
  rw [Index.neighbours]
  cases hnode : g.index.node? a with
  | none =>
      have hout : ¬ r a b := fun hr => node?_eq_none_iff.1 hnode (hnodes hr).1
      exact iff_of_false List.not_mem_nil hout
  | some v =>
      obtain rfl : g.index.name v = a := index_node?_eq_some_iff.1 hnode
      rw [mem_ascending, List.mem_map]
      constructor
      · rintro ⟨w, hw, rfl⟩
        exact (hagree v w).1 hw
      · intro hr
        obtain ⟨w, rfl⟩ := mem_nodeNames_iff_name.1 (hnodes hr).2
        exact ⟨w, (hagree v w).2 hr, rfl⟩

/-- **THE SUCCESSORS ARE WHERE EDGES LEAD.** -/
theorem mem_successors_iff : b ∈ g.index.successors a ↔ g.Leads a b :=
  mem_neighbours_iff (fun _ _ => forward_leads_iff) Leads.mem_nodeNames

/-- **THE PREDECESSORS ARE WHERE EDGES COME FROM.** -/
theorem mem_predecessors_iff : b ∈ g.index.predecessors a ↔ g.Leads b a :=
  mem_neighbours_iff (r := fun a b => g.Leads b a)
    (fun _ _ => Index.backward_leads_iff.trans forward_leads_iff)
    fun hlead => (Leads.mem_nodeNames hlead).symm

/-! ## The index -/

/-- **THE INDEX OF A GRAPH IS FAITHFUL**: numbers and ids translate into each other
    in order, no edge is passed over, and successors and predecessors are dual. -/
theorem index_faithful (g : Graph) : g.FaithfulIndex g.index where
  names := g.nodeNames_eq_map_name.symm
  name_lt _ _ h := name_lt_name h
  node?_name _ := index_node?_eq_some_iff.2 rfl
  name_node? _ _ h := index_node?_eq_some_iff.1 h
  node?_eq_none_iff _ := node?_eq_none_iff
  edgeCount := by
    have hlength := congrArg List.length g.index_arcs_edge
    rwa [List.length_map, List.length_range] at hlength
  count_edge i hi := by
    rw [index_arcs_edge]
    exact List.count_eq_one_of_mem List.nodup_range (List.mem_range.2 hi)
  joins a ha := by
    obtain ⟨hlt, hsource, htarget⟩ := exists_arc_iff.1 ha
    exact ⟨hlt, index_node?_eq_some_iff.2 hsource.symm, index_node?_eq_some_iff.2 htarget.symm⟩
  successors_ascending _ := pairwise_neighbours _ _ _
  mem_successors_iff _ _ := mem_successors_iff
  predecessors_ascending _ := pairwise_neighbours _ _ _
  mem_predecessors_iff _ _ := mem_predecessors_iff
  dual _ _ := mem_successors_iff.trans mem_predecessors_iff.symm

end Graph

end Flowchart
