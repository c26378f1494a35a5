import Flowchart.Graph.Cycle
import Flowchart.Proofs.Component.Number

/-! # Cyclic edges — the edges that can be followed back

    An edge lies on a closed walk exactly when edges lead from its target back to
    its source.  An edge to its own node does so at once; any other does when its
    component holds both ends, and then the component has more than one node. -/

namespace Flowchart

namespace Index

/-- The places of the cyclic edges are among the places of the arcs, in order. -/
theorem cyclicEdges_sublist (ix : Index) (components : List (List (Fin ix.order))) :
    (ix.cyclicEdges components).Sublist (ix.arcs.map (·.edge)) :=
  List.filter_sublist.map _

/-- An arc is a step of the walks. -/
theorem forward_leads_of_arc {ix : Index} {a : Arc ix.order} (ha : a ∈ ix.arcs) :
    ix.forward.Leads a.source a.target := by
  show a.target ∈ ix.forward.get a.source
  rw [forward, Adjacency.get_ofArcs]
  exact List.mem_map_of_mem (List.mem_filter.2 ⟨ha, decide_eq_true rfl⟩)

/-- An arc is kept exactly when its target reaches its source. -/
theorem arc_kept_iff {ix : Index} {a : Arc ix.order} (ha : a ∈ ix.arcs) :
    a.source = a.target ∨
        ((componentNumbers ix.forward.components).get a.source).isSome ∧
          (componentNumbers ix.forward.components).get a.source
            = (componentNumbers ix.forward.components).get a.target ↔
      ix.forward.Reaches a.target a.source := by
  by_cases hloop : a.source = a.target
  · rw [hloop]
    exact ⟨fun _ => Relation.ReflTransGen.refl, fun _ => Or.inl rfl⟩
  · rw [same_number_iff_mutual hloop]
    constructor
    · intro h
      exact (h.resolve_left hloop).2
    · intro hback
      exact Or.inr ⟨Relation.ReflTransGen.single (forward_leads_of_arc ha), hback⟩

/-- The cyclic edges are the arcs whose target reaches their source. -/
theorem mem_cyclicEdges_iff {ix : Index} {i : Nat} :
    i ∈ ix.cyclicEdges ix.forward.components ↔
      ∃ a ∈ ix.arcs, ix.forward.Reaches a.target a.source ∧ a.edge = i := by
  rw [cyclicEdges, List.mem_map]
  refine exists_congr fun a => ?_
  rw [List.mem_filter, and_assoc]
  refine and_congr_right fun ha => and_congr_left fun _ => ?_
  rw [← arc_kept_iff ha]
  simp

end Index

namespace Graph

/-- The cyclic edges are in strictly ascending order. -/
theorem pairwise_cyclicEdges (g : Graph) : g.cyclicEdges.Pairwise (· < ·) := by
  have hsub := g.index.cyclicEdges_sublist g.index.forward.components
  rw [index_arcs_edge] at hsub
  exact List.pairwise_lt_range.sublist hsub

/-- The edge at a place has its arc between the nodes of its ends. -/
theorem exists_arc_of_lt {g : Graph} {i : Nat} (h : i < g.edges.length) :
    ∃ a ∈ g.index.arcs, a.edge = i ∧ g.index.name a.source = g.edges[i].source
      ∧ g.index.name a.target = g.edges[i].target := by
  have hends := Leads.mem_nodeNames ⟨_, List.getElem_mem h, rfl, rfl⟩
  obtain ⟨v, hv⟩ := mem_nodeNames_iff_name.1 hends.1
  obtain ⟨w, hw⟩ := mem_nodeNames_iff_name.1 hends.2
  exact ⟨⟨i, v, w⟩, exists_arc_iff.2 ⟨h, hv.symm, hw.symm⟩, rfl, hv, hw⟩

/-- An edge is cyclic exactly when its target leads back to its source. -/
theorem mem_cyclicEdges_iff_reaches {g : Graph} {i : Nat} :
    i ∈ g.cyclicEdges ↔
      ∃ h : i < g.edges.length, g.Reaches g.edges[i].target g.edges[i].source := by
  refine Index.mem_cyclicEdges_iff.trans ?_
  constructor
  · rintro ⟨a, ha, hback, rfl⟩
    obtain ⟨hlt, hsource, htarget⟩ := exists_arc_iff.1 ha
    refine ⟨hlt, ?_⟩
    rw [hsource, htarget]
    exact forward_reaches_iff.1 hback
  · rintro ⟨hlt, hback⟩
    obtain ⟨a, ha, rfl, hsource, htarget⟩ := exists_arc_of_lt hlt
    refine ⟨a, ha, ?_, rfl⟩
    rw [forward_reaches_iff, hsource, htarget]
    exact hback

/-- **THE CYCLIC EDGES** are in strictly ascending order, and they are the edges
    whose target leads back to their source. -/
theorem cyclicEdges_closed_walk (g : Graph) :
    g.cyclicEdges.Pairwise (· < ·) ∧
      ∀ i, i ∈ g.cyclicEdges ↔
        ∃ h : i < g.edges.length, g.Reaches g.edges[i].target g.edges[i].source :=
  ⟨g.pairwise_cyclicEdges, fun _ => mem_cyclicEdges_iff_reaches⟩

end Graph

end Flowchart
