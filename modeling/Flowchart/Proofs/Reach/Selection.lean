import Flowchart.Proofs.Reach.Spread

/-! # Selections — the part of a graph that belongs to a node

    The walks from a node mark what it reaches and what reaches it, so the part
    of a node is the node itself with what lies before and after it
    (`Graph.reachable_exact`).  A selection splits the nodes and the edges by that
    part.  The part is closed at the selected node: an edge there joins it to a
    node before or after it, so such an edge is never left out, and an edge is
    left out only where one of its ends is (`Graph.highlight_splits`). -/

namespace Flowchart

/-! ## The part of a node -/

namespace Graph

variable {g : Graph} {node id : String}

/-- What lies after or before a node is the node itself or a node of the graph. -/
theorem eq_or_mem_nodeNames_of_reaches (h : g.Reaches node id ∨ g.Reaches id node) :
    id = node ∨ id ∈ g.nodeNames ∧ node ∈ g.nodeNames := by
  rcases h with hafter | hbefore
  · rcases hafter.eq_or_mem_nodeNames with rfl | ⟨hnode, hid⟩
    · exact Or.inl rfl
    · exact Or.inr ⟨hid, hnode⟩
  · exact hbefore.eq_or_mem_nodeNames

/-- The ids related to a node are what it reaches and what reaches it. -/
theorem mem_related_iff (h : node ∈ g.nodeNames) :
    id ∈ g.related node ↔ g.Reaches node id ∨ g.Reaches id node := by
  obtain ⟨start, hstart, rfl⟩ := exists_node?_eq_some h
  simp only [related, hstart, List.mem_map, List.mem_filter, List.mem_finRange, true_and,
    Bool.or_eq_true, Adjacency.get_reach_iff, forward_reaches_iff, backward_reaches_iff]
  constructor
  · rintro ⟨v, hreaches, rfl⟩
    exact hreaches
  · intro hreaches
    have hid : id ∈ g.nodeNames := by
      rcases eq_or_mem_nodeNames_of_reaches hreaches with rfl | ⟨hmem, -⟩
      · exact h
      · exact hmem
    obtain ⟨v, rfl⟩ := mem_nodeNames_iff_name.1 hid
    exact ⟨v, hreaches, rfl⟩

/-- **THE PART OF A NODE** is the node, what it reaches and what reaches it. -/
theorem mem_nodes_reachable_iff :
    id ∈ (g.reachable node).nodes ↔ id = node ∨ g.Reaches node id ∨ g.Reaches id node := by
  have hnodes : (g.reachable node).nodes = Std.TreeSet.ofList (node :: g.related node) := rfl
  rw [hnodes, Std.TreeSet.mem_ofList, List.contains_iff_mem, List.mem_cons]
  by_cases h : node ∈ g.nodeNames
  · rw [mem_related_iff h]
  · -- an id that is no node is related to none, and reaches only itself
    have hrelated : g.related node = [] := by
      simp only [related, node?_eq_none_iff.2 h]
    rw [hrelated]
    constructor
    · rintro (rfl | hmem)
      · exact Or.inl rfl
      · exact absurd hmem List.not_mem_nil
    · rintro (rfl | hreaches)
      · exact Or.inl rfl
      · exact Or.inl ((eq_or_mem_nodeNames_of_reaches hreaches).resolve_right fun hmem => h hmem.2)

theorem within_iff {nodes : Std.TreeSet String} {e : Edge} :
    e.within nodes = true ↔ e.source ∈ nodes ∧ e.target ∈ nodes := by
  rw [Edge.within, Bool.and_eq_true, Std.TreeSet.contains_iff_mem, Std.TreeSet.contains_iff_mem]

/-- The places that are kept are those of the edges that pass. -/
theorem mem_edgesWhere_iff {keep : Edge → Bool} {i : Nat} :
    i ∈ g.edgesWhere keep ↔ ∃ h : i < g.edges.length, keep g.edges[i] = true := by
  rw [edgesWhere, List.mem_map]
  constructor
  · rintro ⟨⟨e, j⟩, hmem, rfl⟩
    obtain ⟨hplace, hkeep⟩ := List.mem_filter.1 hmem
    obtain ⟨hlt, rfl⟩ := List.getElem?_eq_some_iff.1 (List.mk_mem_zipIdx_iff_getElem?.1 hplace)
    exact ⟨hlt, hkeep⟩
  · rintro ⟨hlt, hkeep⟩
    refine ⟨(g.edges[i], i), List.mem_filter.2 ⟨?_, hkeep⟩, rfl⟩
    exact List.mk_mem_zipIdx_iff_getElem?.2 (List.getElem?_eq_getElem hlt)

/-- They stand in strictly ascending order. -/
theorem pairwise_edgesWhere (keep : Edge → Bool) : (g.edgesWhere keep).Pairwise (· < ·) := by
  have hplaces : (g.edges.zipIdx.map (·.2)).Pairwise (· < ·) := by
    rw [List.zipIdx_map_snd, ← List.range_eq_range']
    exact List.pairwise_lt_range
  exact hplaces.sublist (List.filter_sublist.map _)

/-- The edges of the part are those with both ends in it. -/
theorem mem_edges_reachable_iff {i : Nat} :
    i ∈ (g.reachable node).edges ↔
      ∃ h : i < g.edges.length, g.edges[i].source ∈ (g.reachable node).nodes ∧
        g.edges[i].target ∈ (g.reachable node).nodes := by
  have hedges : (g.reachable node).edges
      = g.edgesWhere (Edge.within (g.reachable node).nodes) := rfl
  simp only [hedges, mem_edgesWhere_iff, within_iff]

/-- **WHAT BELONGS TO A NODE**: the node itself, whether or not the graph mentions
    it, all that edges lead to from it, all from which edges lead to it, and the
    edges with both ends among these, each once and in order. -/
theorem reachable_exact (g : Graph) (node : String) :
    (∀ id, id ∈ (g.reachable node).nodes ↔
        id = node ∨ g.Reaches node id ∨ g.Reaches id node) ∧
      (g.reachable node).edges.Pairwise (· < ·) ∧
      ∀ i, i ∈ (g.reachable node).edges ↔
        ∃ h : i < g.edges.length, g.edges[i].source ∈ (g.reachable node).nodes ∧
          g.edges[i].target ∈ (g.reachable node).nodes :=
  ⟨fun _ => mem_nodes_reachable_iff, pairwise_edgesWhere _, fun _ => mem_edges_reachable_iff⟩

end Graph

/-! ## Splitting by a selected node -/

/-- The two lists are in strictly ascending order, have nothing in common, and
    hold together just what is `whole`. -/
structure Splits {α : Type} [LT α] (kept dropped : List α) (whole : α → Prop) : Prop where
  kept_ascending : kept.Pairwise (· < ·)
  dropped_ascending : dropped.Pairwise (· < ·)
  apart : ∀ x ∈ kept, x ∉ dropped
  together : ∀ x, x ∈ kept ∨ x ∈ dropped ↔ whole x

namespace Graph

variable {g : Graph} {node id : String}

theorem mem_highlightedNodes_iff :
    id ∈ (g.highlight node).highlightedNodes ↔ id ∈ (g.reachable node).nodes :=
  Std.TreeSet.mem_toList

theorem mem_dimmedNodes_iff :
    id ∈ (g.highlight node).dimmedNodes ↔
      id ∈ g.nodeNames ∧ id ∉ (g.reachable node).nodes := by
  have hdimmed : (g.highlight node).dimmedNodes
      = g.nodeNames.filter fun id => !(g.reachable node).nodes.contains id := rfl
  rw [hdimmed, List.mem_filter, Bool.not_eq_true', Bool.eq_false_iff, ne_eq,
    Std.TreeSet.contains_iff_mem]

theorem mem_highlightedEdges_iff {i : Nat} :
    i ∈ (g.highlight node).highlightedEdges ↔
      ∃ h : i < g.edges.length, g.edges[i].source ∈ (g.reachable node).nodes ∧
        g.edges[i].target ∈ (g.reachable node).nodes :=
  mem_edges_reachable_iff

theorem mem_dimmedEdges_iff {i : Nat} :
    i ∈ (g.highlight node).dimmedEdges ↔
      ∃ h : i < g.edges.length, ¬ (g.edges[i].source ∈ (g.reachable node).nodes ∧
        g.edges[i].target ∈ (g.reachable node).nodes) := by
  have hdimmed : (g.highlight node).dimmedEdges
      = g.edgesWhere fun e => !e.within (g.reachable node).nodes := rfl
  simp only [hdimmed, mem_edgesWhere_iff, Bool.not_eq_true', Bool.eq_false_iff, ne_eq, within_iff]

/-- All nodes in the part of a node are nodes of the graph, but perhaps itself. -/
theorem mem_nodeNames_of_reachable (h : id ∈ (g.reachable node).nodes) :
    id ∈ g.nodeNames ∨ id = node := by
  rcases mem_nodes_reachable_iff.1 h with rfl | hreaches
  · exact Or.inr rfl
  · rcases eq_or_mem_nodeNames_of_reaches hreaches with rfl | ⟨hmem, -⟩
    · exact Or.inr rfl
    · exact Or.inl hmem

/-- **CLOSED AT THE SELECTION**: an edge at the node has both ends in its part. -/
theorem ends_mem_reachable_of_end {e : Edge} (he : e ∈ g.edges)
    (h : e.source = node ∨ e.target = node) :
    e.source ∈ (g.reachable node).nodes ∧ e.target ∈ (g.reachable node).nodes := by
  have hleads : g.Reaches e.source e.target :=
    Relation.ReflTransGen.single ⟨e, he, rfl, rfl⟩
  rcases h with rfl | rfl
  · exact ⟨mem_nodes_reachable_iff.2 (Or.inl rfl),
      mem_nodes_reachable_iff.2 (Or.inr (Or.inl hleads))⟩
  · exact ⟨mem_nodes_reachable_iff.2 (Or.inr (Or.inr hleads)),
      mem_nodes_reachable_iff.2 (Or.inl rfl)⟩

/-- The nodes, and the selection, are split. -/
theorem splits_nodes (g : Graph) (node : String) :
    Splits (g.highlight node).highlightedNodes (g.highlight node).dimmedNodes
      (fun id => id ∈ g.nodeNames ∨ id = node) where
  kept_ascending := Std.TreeSet.ordered_toList.imp compare_eq_lt_iff.1
  dropped_ascending := g.pairwise_nodeNames.sublist List.filter_sublist
  apart id hkept hdropped := (mem_dimmedNodes_iff.1 hdropped).2 (mem_highlightedNodes_iff.1 hkept)
  together id := by
    rw [mem_highlightedNodes_iff, mem_dimmedNodes_iff]
    constructor
    · rintro (hkept | ⟨hmem, -⟩)
      · exact mem_nodeNames_of_reachable hkept
      · exact Or.inl hmem
    · intro h
      by_cases hkept : id ∈ (g.reachable node).nodes
      · exact Or.inl hkept
      · refine Or.inr ⟨h.resolve_right ?_, hkept⟩
        rintro rfl
        exact hkept (mem_nodes_reachable_iff.2 (Or.inl rfl))

/-- The places of the edges are split. -/
theorem splits_edges (g : Graph) (node : String) :
    Splits (g.highlight node).highlightedEdges (g.highlight node).dimmedEdges
      (· < g.edges.length) where
  kept_ascending := pairwise_edgesWhere (Edge.within (g.reachable node).nodes)
  dropped_ascending := pairwise_edgesWhere fun e => !e.within (g.reachable node).nodes
  apart i hkept hdropped := by
    obtain ⟨_, hends⟩ := mem_highlightedEdges_iff.1 hkept
    obtain ⟨_, hmissing⟩ := mem_dimmedEdges_iff.1 hdropped
    exact hmissing hends
  together i := by
    rw [mem_highlightedEdges_iff, mem_dimmedEdges_iff]
    constructor
    · rintro (⟨hlt, -⟩ | ⟨hlt, -⟩)
      · exact hlt
      · exact hlt
    · intro hlt
      by_cases hends : g.edges[i].source ∈ (g.reachable node).nodes ∧
          g.edges[i].target ∈ (g.reachable node).nodes
      · exact Or.inl ⟨hlt, hends⟩
      · exact Or.inr ⟨hlt, hends⟩

/-- A dimmed edge has a dimmed end. -/
theorem exists_dimmed_end {i : Nat} (hlt : i < g.edges.length)
    (h : i ∈ (g.highlight node).dimmedEdges) :
    g.edges[i].source ∈ (g.highlight node).dimmedNodes ∨
      g.edges[i].target ∈ (g.highlight node).dimmedNodes := by
  obtain ⟨_, hmissing⟩ := mem_dimmedEdges_iff.1 h
  have hends := Leads.mem_nodeNames ⟨_, List.getElem_mem hlt, rfl, rfl⟩
  rw [mem_dimmedNodes_iff, mem_dimmedNodes_iff]
  by_cases hsource : g.edges[i].source ∈ (g.reachable node).nodes
  · exact Or.inr ⟨hends.2, fun htarget => hmissing ⟨hsource, htarget⟩⟩
  · exact Or.inl ⟨hends.1, hsource⟩

/-- **A SELECTION SPLITS THE GRAPH** and is closed at the selected node.  The
    nodes and the selection fall into highlighted and dimmed ones, and so do the
    edges.  An edge is highlighted exactly when both its ends are; every edge at
    the selected node is; and a dimmed edge has a dimmed end. -/
theorem highlight_splits (g : Graph) (node : String) :
    Splits (g.highlight node).highlightedNodes (g.highlight node).dimmedNodes
        (fun id => id ∈ g.nodeNames ∨ id = node) ∧
      Splits (g.highlight node).highlightedEdges (g.highlight node).dimmedEdges
        (· < g.edges.length) ∧
      ∀ i, ∀ h : i < g.edges.length,
        (i ∈ (g.highlight node).highlightedEdges ↔
            g.edges[i].source ∈ (g.highlight node).highlightedNodes ∧
              g.edges[i].target ∈ (g.highlight node).highlightedNodes) ∧
          (g.edges[i].source = node ∨ g.edges[i].target = node →
            i ∈ (g.highlight node).highlightedEdges) ∧
          (i ∈ (g.highlight node).dimmedEdges →
            g.edges[i].source ∈ (g.highlight node).dimmedNodes ∨
              g.edges[i].target ∈ (g.highlight node).dimmedNodes) := by
  refine ⟨g.splits_nodes node, g.splits_edges node, fun i hlt => ⟨?_, ?_, ?_⟩⟩
  · rw [mem_highlightedEdges_iff, mem_highlightedNodes_iff, mem_highlightedNodes_iff]
    exact exists_prop_of_true hlt
  · intro hend
    exact mem_highlightedEdges_iff.2 ⟨hlt, ends_mem_reachable_of_end (List.getElem_mem hlt) hend⟩
  · exact exists_dimmed_end hlt

end Graph

end Flowchart
