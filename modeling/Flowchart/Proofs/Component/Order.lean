import Flowchart.Proofs.Component.Partition

/-! # The order of components — what is reached comes first

    When the walk completes a component, all that its nodes lead to is settled:
    it lies in the component itself or in one completed before.  So no path leads
    from an earlier component to a later one (`Graph.pairwise_components`), and
    the components are listed in reverse topological order
    (`Graph.components_reverse_topological`). -/

namespace Flowchart

/-- **NO PATH LEADS TO A COMPONENT NOT YET COMPLETED**: what the nodes of a
    component reach was settled with it or before it. -/
theorem ComponentWalk.Settled.pairwise_not_reaches {n : Nat} {next : Adjacency n}
    {components : List (List (Fin n))} (h : Settled next components)
    (hnodup : components.flatten.Nodup) :
    components.Pairwise fun later earlier =>
      ∀ a ∈ earlier, ∀ b ∈ later, ¬ next.Reaches a b := by
  induction h with
  | nil => exact List.Pairwise.nil
  | @cons component earlier _ _ _ hsettled ih =>
      rw [List.flatten_cons] at hnodup
      obtain ⟨-, hrest, hapart⟩ := List.nodup_append.1 hnodup
      refine List.pairwise_cons.2 ⟨?_, ih hrest⟩
      intro d hd a ha b hb hreaches
      have hbefore : b ∈ earlier.flatten :=
        hsettled.reaches (List.mem_flatten.2 ⟨d, hd, ha⟩) hreaches
      exact hapart b hb b hbefore rfl

namespace Adjacency

/-- In the order of completion, no path leads from a component to a later one. -/
theorem pairwise_components {n : Nat} (next : Adjacency n) :
    next.components.Pairwise fun earlier later =>
      ∀ a ∈ earlier, ∀ b ∈ later, ¬ next.Reaches a b := by
  have hsound := next.finish_sound.1
  exact List.pairwise_reverse.2 (hsound.settled.pairwise_not_reaches hsound.settled_nodup)

end Adjacency

namespace Graph

variable {g : Graph}

/-- The component at place `k` has `id` among its members. -/
def InComponent (g : Graph) (k : Nat) (id : String) : Prop :=
  ∃ c, g.components[k]? = some c ∧ id ∈ c

/-- No path leads from a component to a later one. -/
theorem pairwise_components (g : Graph) :
    g.components.Pairwise fun earlier later =>
      ∀ a ∈ earlier, ∀ b ∈ later, ¬ g.Reaches a b := by
  show (g.index.forward.components.map _).Pairwise _
  rw [List.pairwise_map]
  refine g.index.forward.pairwise_components.imp ?_
  intro earlier later hnone a ha b hb hreaches
  obtain ⟨v, hv, rfl⟩ := List.mem_map.1 (mem_ascending.1 ha)
  obtain ⟨w, hw, rfl⟩ := List.mem_map.1 (mem_ascending.1 hb)
  exact hnone v hv w hw (forward_reaches_iff.2 hreaches)

/-- A path never leads to a later place. -/
theorem Reaches.place_le {a b : String} (h : g.Reaches a b) {i j : Nat}
    (ha : g.InComponent i a) (hb : g.InComponent j b) : j ≤ i := by
  obtain ⟨c, hc, hac⟩ := ha
  obtain ⟨d, hd, hbd⟩ := hb
  obtain ⟨hi, rfl⟩ := List.getElem?_eq_some_iff.1 hc
  obtain ⟨hj, rfl⟩ := List.getElem?_eq_some_iff.1 hd
  refine Nat.le_of_not_lt fun hlt => ?_
  exact List.pairwise_iff_getElem.1 g.pairwise_components i j hi hj hlt a hac b hbd h

/-- Every node stands at one place: a path of no edges leads from each of two
    places to the other. -/
theorem existsUnique_inComponent {id : String} (h : id ∈ g.nodeNames) :
    ∃! k, g.InComponent k id := by
  obtain ⟨c, hc, hid⟩ := List.mem_flatten.1 (mem_flatten_components_iff.2 h)
  obtain ⟨k, hk⟩ := List.mem_iff_getElem?.1 hc
  have hplace : g.InComponent k id := ⟨c, hk, hid⟩
  refine ⟨k, hplace, fun j hj => ?_⟩
  have hself : g.Reaches id id := Relation.ReflTransGen.refl
  exact Nat.le_antisymm (hself.place_le hplace hj) (hself.place_le hj hplace)

/-- Components that share an id are one. -/
theorem component_eq_of_mem {c d : List String} (hc : c ∈ g.components) (hd : d ∈ g.components)
    {id : String} (hidc : id ∈ c) (hidd : id ∈ d) : c = d := by
  have hnode : id ∈ g.nodeNames :=
    mem_flatten_components_iff.1 (List.mem_flatten.2 ⟨c, hc, hidc⟩)
  obtain ⟨i, hi⟩ := List.mem_iff_getElem?.1 hc
  obtain ⟨j, hj⟩ := List.mem_iff_getElem?.1 hd
  have hij : i = j := (existsUnique_inComponent hnode).unique ⟨c, hi, hidc⟩ ⟨d, hj, hidd⟩
  rw [← hij, hi] at hj
  exact Option.some.inj hj

/-- **REVERSE TOPOLOGICAL ORDER**: every node stands in one component of the
    list, and where an edge leads from one component to another, the component of
    its target is listed strictly before that of its source. -/
theorem components_reverse_topological (g : Graph) :
    (∀ id ∈ g.nodeNames, ∃! k, g.InComponent k id) ∧
      ∀ e ∈ g.edges, ∀ i j, g.InComponent i e.source → g.InComponent j e.target →
        i ≠ j → j < i := by
  refine ⟨fun _ => existsUnique_inComponent, ?_⟩
  intro e he i j hsource htarget hne
  have hlead : g.Reaches e.source e.target := Relation.ReflTransGen.single ⟨e, he, rfl, rfl⟩
  exact Nat.lt_of_le_of_ne (hlead.place_le hsource htarget) hne.symm

/-- An edge back into a component that was completed from an earlier root. -/
theorem components_reverse_topological_earlier_root :
    let g : Graph :=
      { direction := "LR",
        edges := [⟨"b", "c", none, .arrow⟩, ⟨"c", "b", none, .thick⟩, ⟨"c", "a", none, .arrow⟩] }
    ∃ i j, g.InComponent i "c" ∧ g.InComponent j "a" ∧ i ≠ j ∧ j < i := by
  intro g
  have hcomponents : g.components = [["a"], ["b", "c"]] := by decide +kernel +zetaReduce
  have hsource : g.InComponent 1 "c" := ⟨["b", "c"], by rw [hcomponents]; rfl, by decide⟩
  have htarget : g.InComponent 0 "a" := ⟨["a"], by rw [hcomponents]; rfl, by decide⟩
  refine ⟨1, 0, hsource, htarget, by decide, ?_⟩
  exact (components_reverse_topological g).2 ⟨"c", "a", none, .arrow⟩ (by decide) 1 0
    hsource htarget (by decide)

end Graph

end Flowchart
