import Mathlib.Data.List.Sort
import Mathlib.Data.String.Basic
import Flowchart.Proofs.Component.Partition
import Flowchart.Proofs.Reach.Selection

/-! # Mutual selections — nodes that select the same part

    What belongs to a node lies before or after it, so belonging is symmetric
    (`Graph.mem_reachable_comm`).  Of two nodes that reach each other each belongs
    to whatever the other belongs to, so they have the same part.  A split is
    determined by what it keeps (`Splits.eq_of_kept`); hence all the nodes of a
    component split the graph alike (`Graph.selection_constant`). -/

namespace Flowchart

namespace Splits

variable {α : Type} [Preorder α] {kept dropped kept' dropped' : List α} {whole : α → Prop}

/-- What is not kept is dropped. -/
theorem mem_dropped_iff (h : Splits kept dropped whole) {x : α} :
    x ∈ dropped ↔ whole x ∧ x ∉ kept := by
  constructor
  · intro hx
    exact ⟨(h.together x).1 (Or.inr hx), fun hmem => h.apart x hmem hx⟩
  · rintro ⟨hwhole, hoff⟩
    exact ((h.together x).2 hwhole).resolve_left hoff

/-- **A SPLIT IS DETERMINED BY WHAT IT KEEPS**. -/
theorem eq_of_kept (h : Splits kept dropped whole) (h' : Splits kept' dropped' whole)
    (hkept : ∀ x, x ∈ kept ↔ x ∈ kept') : kept = kept' ∧ dropped = dropped' := by
  constructor
  · exact h.kept_ascending.eq_of_mem_iff h'.kept_ascending hkept
  · refine h.dropped_ascending.eq_of_mem_iff h'.dropped_ascending fun x => ?_
    rw [h.mem_dropped_iff, h'.mem_dropped_iff, hkept]

end Splits

namespace Graph

variable {g : Graph} {a b id : String}

/-! ## The part of a node -/

/-- The node is among what it reaches. -/
theorem mem_nodes_reachable_iff_reaches :
    id ∈ (g.reachable a).nodes ↔ g.Reaches a id ∨ g.Reaches id a := by
  rw [mem_nodes_reachable_iff]
  refine or_iff_right_of_imp ?_
  rintro rfl
  exact Or.inl Relation.ReflTransGen.refl

/-- **BELONGING IS SYMMETRIC**. -/
theorem mem_reachable_comm : b ∈ (g.reachable a).nodes ↔ a ∈ (g.reachable b).nodes := by
  rw [mem_nodes_reachable_iff_reaches, mem_nodes_reachable_iff_reaches, or_comm]

/-- What belongs to a node belongs to any that it reaches and that reaches it. -/
theorem mem_reachable_of_mutual (hab : g.Reaches a b) (hba : g.Reaches b a)
    (h : id ∈ (g.reachable a).nodes) : id ∈ (g.reachable b).nodes := by
  rw [mem_nodes_reachable_iff_reaches] at h ⊢
  exact h.imp hba.trans fun hbefore => hbefore.trans hab

/-! ## The selection -/

/-- A selected node of the graph splits the nodes and nothing more. -/
theorem splits_nodes_of_mem (ha : a ∈ g.nodeNames) :
    Splits (g.highlight a).highlightedNodes (g.highlight a).dimmedNodes (· ∈ g.nodeNames) := by
  have hwhole : (fun id => id ∈ g.nodeNames ∨ id = a) = (· ∈ g.nodeNames) := by
    funext id
    exact propext (or_iff_left_of_imp fun heq => heq ▸ ha)
  exact hwhole ▸ g.splits_nodes a

/-- Nodes of the graph with the same part split it alike. -/
theorem highlight_congr (ha : a ∈ g.nodeNames) (hb : b ∈ g.nodeNames)
    (h : ∀ id, id ∈ (g.reachable a).nodes ↔ id ∈ (g.reachable b).nodes) :
    g.highlight b = { g.highlight a with selected := b } := by
  obtain ⟨hnodes, hdimmedNodes⟩ :=
    (splits_nodes_of_mem hb).eq_of_kept (splits_nodes_of_mem ha) fun id => by
      rw [mem_highlightedNodes_iff, mem_highlightedNodes_iff, h]
  obtain ⟨hedges, hdimmedEdges⟩ := (g.splits_edges b).eq_of_kept (g.splits_edges a) fun i => by
    simp only [mem_highlightedEdges_iff, h]
  calc g.highlight b
      = ⟨b, (g.highlight b).highlightedNodes, (g.highlight b).dimmedNodes,
          (g.highlight b).highlightedEdges, (g.highlight b).dimmedEdges⟩ := rfl
    _ = { g.highlight a with selected := b } := by
        rw [hnodes, hdimmedNodes, hedges, hdimmedEdges]

/-- **A SELECTION IS SYMMETRIC AND CONSTANT ON COMPONENTS**: of any two ids, also
    ids that are no nodes, each belongs to the other or neither does; and two nodes
    of one component split the nodes and the edges of the graph alike, so that the
    selections differ in the selected node alone. -/
theorem selection_constant (g : Graph) :
    (∀ a b, b ∈ (g.reachable a).nodes ↔ a ∈ (g.reachable b).nodes) ∧
      ∀ c ∈ g.components, ∀ a ∈ c, ∀ b ∈ c,
        g.highlight b = { g.highlight a with selected := b } := by
  refine ⟨fun _ _ => mem_reachable_comm, ?_⟩
  intro c hc a ha b hb
  have hnode : ∀ id ∈ c, id ∈ g.nodeNames := fun id hid =>
    mem_flatten_components_iff.1 (List.mem_flatten.2 ⟨c, hc, hid⟩)
  obtain ⟨hab, hba⟩ := (mem_component_iff hc ha).1 hb
  refine highlight_congr (hnode a ha) (hnode b hb) fun id => ?_
  exact ⟨mem_reachable_of_mutual hab hba, mem_reachable_of_mutual hba hab⟩

/-- From either node of a round trip the node before it is highlighted, and what
    only hangs on that one is dimmed. -/
theorem selection_constant_round_trip :
    let g : Graph :=
      { direction := "LR",
        edges := [⟨"s", "a", none, .arrow⟩, ⟨"a", "b", none, .arrow⟩, ⟨"b", "a", none, .dotted⟩,
          ⟨"s", "t", none, .arrow⟩] }
    ["a", "b"] ∈ g.components ∧ "b" ∈ (g.reachable "s").nodes ∧
      g.highlight "b" = { g.highlight "a" with selected := "b" } := by
  intro g
  have hmem : ["a", "b"] ∈ g.components := by decide +kernel +zetaReduce
  obtain ⟨hsymm, hconstant⟩ := selection_constant g
  refine ⟨hmem, (hsymm "b" "s").1 ?_, ?_⟩
  · decide +kernel +zetaReduce
  · exact hconstant ["a", "b"] hmem "a" (by decide) "b" (by decide)

end Graph

end Flowchart
