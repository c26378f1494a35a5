import Flowchart.Proofs.Builder.Growth
import Flowchart.Proofs.Component.Order
import Flowchart.Proofs.Cycle.Report
import Flowchart.Proofs.Reach.Selection

/-! # Growing graphs — what more edges keep

    When a graph grows its nodes may get other numbers, and the walks may take
    another course.  But the edges stay at their places, so every path stays a
    path (`Graph.GrowsTo.reaches`), and all that is said in terms of paths stays:
    cycles and cyclic edges, the nodes of one component, and what belongs to a
    node.  One more edge is the least growth (`Graph.withEdge_keeps`). -/

namespace Flowchart

namespace Graph

namespace GrowsTo

variable {g later : Graph} {a b id : String}

/-! ## Nodes, edges and paths -/

/-- An edge stays at its place. -/
theorem getElem_edges (h : g.GrowsTo later) {i : Nat} (hi : i < g.edges.length) :
    ∃ hi' : i < later.edges.length, later.edges[i] = g.edges[i] :=
  ⟨Nat.lt_of_lt_of_le hi h.edges.length_le, (h.edges.getElem hi).symm⟩

theorem leads (h : g.GrowsTo later) (hab : g.Leads a b) : later.Leads a b := by
  obtain ⟨e, he, hends⟩ := hab
  exact ⟨e, h.edges.subset he, hends⟩

/-- **PATHS STAY**. -/
theorem reaches (h : g.GrowsTo later) (hab : g.Reaches a b) : later.Reaches a b :=
  Relation.ReflTransGen.mono (fun _ _ => h.leads) a b hab

theorem nodeNames_subset (h : g.GrowsTo later) : g.nodeNames ⊆ later.nodeNames := by
  intro id hid
  rcases mem_nodeNames.1 hid with ⟨s, hs, hmem⟩ | ⟨e, he, hend⟩
  · obtain ⟨i, hi⟩ := List.mem_iff_getElem?.1 hs
    obtain ⟨s', hs', hgrows, -⟩ := h.subgraphs i s hi
    exact mem_nodeNames.2 (Or.inl ⟨s', List.mem_of_getElem? hs', hgrows.nodes.subset hmem⟩)
  · exact mem_nodeNames.2 (Or.inr ⟨e, h.edges.subset he, hend⟩)

/-! ## Cycles -/

theorem simpleCycle (h : g.GrowsTo later) {c : List String} (hc : g.SimpleCycle c) :
    later.SimpleCycle c where
  nonempty := hc.nonempty
  nodup := hc.nodup
  least := hc.least
  closed i hi := h.leads (hc.closed i hi)

theorem simpleCycles_subset (h : g.GrowsTo later) : g.simpleCycles ⊆ later.simpleCycles :=
  fun _ hc => mem_simpleCycles_iff.2 (h.simpleCycle (mem_simpleCycles_iff.1 hc))

/-- The cycle that passes along a cyclic edge still does. -/
theorem cyclicEdges_subset (h : g.GrowsTo later) : g.cyclicEdges ⊆ later.cyclicEdges := by
  intro i hi
  obtain ⟨hlt, c, hc, hpasses⟩ := mem_cyclicEdges_iff_passes.1 hi
  obtain ⟨hlt', hedge⟩ := h.getElem_edges hlt
  refine mem_cyclicEdges_iff_passes.2 ⟨hlt', c, h.simpleCycles_subset hc, ?_⟩
  rw [hedge]
  exact hpasses

/-! ## Components and selections -/

/-- **COMPONENTS ONLY MERGE**: each stays within one component. -/
theorem existsUnique_component (h : g.GrowsTo later) {c : List String} (hc : c ∈ g.components) :
    ∃! d, d ∈ later.components ∧ c ⊆ d := by
  obtain ⟨a, ha⟩ := List.exists_mem_of_ne_nil c (component_ne_nil hc)
  have hnode : a ∈ g.nodeNames := mem_flatten_components_iff.1 (List.mem_flatten.2 ⟨c, hc, ha⟩)
  obtain ⟨d, hd, had⟩ :=
    List.mem_flatten.1 (mem_flatten_components_iff.2 (h.nodeNames_subset hnode))
  refine ⟨d, ⟨hd, fun b hb => ?_⟩, ?_⟩
  · obtain ⟨hforth, hback⟩ := (mem_component_iff hc ha).1 hb
    exact (mem_component_iff hd had).2 ⟨h.reaches hforth, h.reaches hback⟩
  · rintro d' ⟨hd', hsub⟩
    exact component_eq_of_mem hd' hd (hsub ha) had

theorem mem_reachable (h : g.GrowsTo later) (hid : id ∈ (g.reachable a).nodes) :
    id ∈ (later.reachable a).nodes := by
  rw [mem_nodes_reachable_iff] at hid ⊢
  exact hid.imp_right (Or.imp h.reaches h.reaches)

theorem reachable_edges_subset (h : g.GrowsTo later) (node : String) :
    (g.reachable node).edges ⊆ (later.reachable node).edges := by
  intro i hi
  obtain ⟨hlt, hsource, htarget⟩ := mem_edges_reachable_iff.1 hi
  obtain ⟨hlt', hedge⟩ := h.getElem_edges hlt
  rw [← hedge] at hsource htarget
  exact mem_edges_reachable_iff.2 ⟨hlt', h.mem_reachable hsource, h.mem_reachable htarget⟩

end GrowsTo

/-! ## One more edge -/

/-- The graph with `e` as its last edge. -/
def withEdge (g : Graph) (e : Edge) : Graph := { g with edges := g.edges ++ [e] }

theorem growsTo_withEdge (g : Graph) (e : Edge) : g.GrowsTo (g.withEdge e) where
  direction := rfl
  edges := List.prefix_append g.edges [e]
  subgraphs _ s hs := ⟨s, hs, .refl s, fun _ => rfl⟩
  labels _ hid := hid

/-- **ONE MORE EDGE TAKES NOTHING AWAY**, whether its ends are nodes or not: cyclic
    edges stay cyclic, cycles stay cycles, each component stays within one
    component, and what belongs to a node still does. -/
theorem withEdge_keeps (g : Graph) (e : Edge) :
    g.cyclicEdges ⊆ (g.withEdge e).cyclicEdges ∧
      g.simpleCycles ⊆ (g.withEdge e).simpleCycles ∧
      (∀ c ∈ g.components, ∃! d, d ∈ (g.withEdge e).components ∧ c ⊆ d) ∧
      ∀ node,
        (∀ id ∈ (g.reachable node).nodes, id ∈ ((g.withEdge e).reachable node).nodes) ∧
          (g.reachable node).edges ⊆ ((g.withEdge e).reachable node).edges := by
  have hgrows := g.growsTo_withEdge e
  refine ⟨hgrows.cyclicEdges_subset, hgrows.simpleCycles_subset, ?_, fun node => ⟨?_, ?_⟩⟩
  · exact fun _ hc => hgrows.existsUnique_component hc
  · exact fun _ hid => hgrows.mem_reachable hid
  · exact hgrows.reachable_edges_subset node

/-- A new end that comes before all the nodes gives every node another number. -/
theorem withEdge_keeps_new_end :
    let g : Graph :=
      { direction := "LR",
        edges := [⟨"b", "c", none, .arrow⟩, ⟨"c", "b", none, .arrow⟩, ⟨"c", "d", none, .arrow⟩] }
    let later := g.withEdge ⟨"d", "a", none, .arrow⟩
    ["b", "c"] ∈ g.components ∧ (∃! d, d ∈ later.components ∧ ["b", "c"] ⊆ d) ∧
      "d" ∈ (g.reachable "b").nodes ∧ "d" ∈ (later.reachable "b").nodes := by
  intro g later
  have hmem : ["b", "c"] ∈ g.components := by decide +kernel +zetaReduce
  have hid : "d" ∈ (g.reachable "b").nodes := by decide +kernel +zetaReduce
  obtain ⟨-, -, hcomponents, hreachable⟩ := withEdge_keeps g ⟨"d", "a", none, .arrow⟩
  exact ⟨hmem, hcomponents _ hmem, hid, (hreachable "b").1 "d" hid⟩

end Graph

end Flowchart
