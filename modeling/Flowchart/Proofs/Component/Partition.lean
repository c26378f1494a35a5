import Mathlib.Data.List.Nodup
import Flowchart.Proofs.Component.LowLink

/-! # Components — the classes of mutual reachability

    At the end of the walk no node is under way, so the stack is empty and every
    node is settled.  What the low links kept step by step becomes the partition
    of the node names (`components_partition`). -/

namespace Flowchart

namespace Adjacency

open ComponentWalk

variable {n : Nat}

/-- The state in which the walk over all nodes ends. -/
def finish (next : Adjacency n) : ComponentWalk n :=
  (List.finRange n).foldl (visit next) (ComponentWalk.start n)

/-- **AT THE END EVERY NODE IS SETTLED.** -/
theorem finish_sound (next : Adjacency n) :
    Sound next next.finish ∧ ∀ v, v ∈ next.finish.settled := by
  obtain ⟨hsound, hend, hkept⟩ : Sound next next.finish ∧ next.finish.work = [] ∧
      ∀ v, v ∈ List.finRange n ∨ (ComponentWalk.start n).Discovered v →
        next.finish.Discovered v :=
    visits_sound (List.finRange n) (Sound.start next) rfl
  refine ⟨hsound, fun v => ?_⟩
  have hdisc := hkept v (Or.inl (List.mem_finRange v))
  -- a node on the stack would be above one under way
  refine ((hsound.discovered_iff v).1 hdisc).resolve_left fun hv => ?_
  obtain ⟨u, hu, -⟩ := hsound.stack_path v hv
  rw [path, hend] at hu
  cases hu

/-- No node is in two components, nor twice in one. -/
theorem nodup_components (next : Adjacency n) : next.components.flatten.Nodup := by
  have hperm := (List.reverse_perm next.finish.components).flatten
  exact hperm.nodup_iff.2 next.finish_sound.1.settled_nodup

/-- Every node is in a component. -/
theorem exists_component (next : Adjacency n) (v : Fin n) : ∃ c ∈ next.components, v ∈ c := by
  obtain ⟨c, hc, hv⟩ := List.mem_flatten.1 (next.finish_sound.2 v)
  exact ⟨c, List.mem_reverse.2 hc, hv⟩

theorem component_ne_nil {next : Adjacency n} {c : List (Fin n)} (hc : c ∈ next.components) :
    c ≠ [] :=
  next.finish_sound.1.settled.ne_nil (List.mem_reverse.1 hc)

/-- **A COMPONENT IS A CLASS**: it holds what reaches, and is reached by, any of
    its nodes. -/
theorem mem_component_iff {next : Adjacency n} {c : List (Fin n)} (hc : c ∈ next.components)
    {a : Fin n} (ha : a ∈ c) (b : Fin n) : b ∈ c ↔ next.Mutual a b :=
  next.finish_sound.1.settled.mem_iff_mutual (List.mem_reverse.1 hc) ha b

/-- Two nodes share a component exactly when they reach each other. -/
theorem share_component_iff {next : Adjacency n} {a b : Fin n} :
    (∃ c ∈ next.components, a ∈ c ∧ b ∈ c) ↔ next.Mutual a b := by
  constructor
  · rintro ⟨c, hc, ha, hb⟩
    exact (mem_component_iff hc ha b).1 hb
  · intro hab
    obtain ⟨c, hc, ha⟩ := next.exists_component a
    exact ⟨c, hc, ha, (mem_component_iff hc ha b).2 hab⟩

end Adjacency

namespace Graph

variable {g : Graph}

/-- The components hold the ids of the nodes of the numbered components. -/
theorem mem_components_iff {c : List String} :
    c ∈ g.components ↔ ∃ d ∈ g.index.forward.components, ascending (d.map g.index.name) = c :=
  List.mem_map

/-- An id is in the component that its node is in. -/
theorem name_mem_ascending_iff {d : List (Fin g.index.order)} {v : Fin g.index.order} :
    g.index.name v ∈ ascending (d.map g.index.name) ↔ v ∈ d := by
  rw [mem_ascending, List.mem_map_of_injective (name_injective g)]

/-- No id is in two components, nor twice in one. -/
theorem nodup_flatten_components (g : Graph) : g.components.flatten.Nodup := by
  obtain ⟨-, hapart⟩ := List.nodup_flatten.1 g.index.forward.nodup_components
  rw [List.nodup_flatten]
  constructor
  · intro c hc
    obtain ⟨d, -, rfl⟩ := mem_components_iff.1 hc
    exact nodup_ascending _
  · show ((g.index.forward.components.map _).Pairwise _)
    rw [List.pairwise_map]
    refine hapart.imp ?_
    intro d d' hdd' id hid hid'
    obtain ⟨v, hv, rfl⟩ := List.mem_map.1 (mem_ascending.1 hid)
    exact hdd' hv (name_mem_ascending_iff.1 hid')

/-- The ids in the components are the node names. -/
theorem mem_flatten_components_iff {id : String} :
    id ∈ g.components.flatten ↔ id ∈ g.nodeNames := by
  rw [List.mem_flatten, mem_nodeNames_iff_name]
  constructor
  · rintro ⟨c, hc, hid⟩
    obtain ⟨d, -, rfl⟩ := mem_components_iff.1 hc
    obtain ⟨v, -, hv⟩ := List.mem_map.1 (mem_ascending.1 hid)
    exact ⟨v, hv⟩
  · rintro ⟨v, rfl⟩
    obtain ⟨d, hd, hv⟩ := g.index.forward.exists_component v
    exact ⟨_, mem_components_iff.2 ⟨d, hd, rfl⟩, name_mem_ascending_iff.2 hv⟩

/-- The ids of two nodes share a component exactly when the nodes do. -/
theorem share_component_name_iff {v w : Fin g.index.order} :
    (∃ c ∈ g.components, g.index.name v ∈ c ∧ g.index.name w ∈ c) ↔
      g.index.forward.Mutual v w := by
  rw [← Adjacency.share_component_iff]
  constructor
  · rintro ⟨c, hc, hv, hw⟩
    obtain ⟨d, hd, rfl⟩ := mem_components_iff.1 hc
    exact ⟨d, hd, name_mem_ascending_iff.1 hv, name_mem_ascending_iff.1 hw⟩
  · rintro ⟨d, hd, hv, hw⟩
    exact ⟨_, mem_components_iff.2 ⟨d, hd, rfl⟩, name_mem_ascending_iff.2 hv,
      name_mem_ascending_iff.2 hw⟩

/-- No component is empty. -/
theorem component_ne_nil {c : List String} (hc : c ∈ g.components) : c ≠ [] := by
  obtain ⟨d, hd, rfl⟩ := mem_components_iff.1 hc
  obtain ⟨v, hv⟩ := List.exists_mem_of_ne_nil d (Adjacency.component_ne_nil hd)
  exact List.ne_nil_of_mem (name_mem_ascending_iff.2 hv)

/-- A component is a class of ids: it holds what reaches, and is reached by, any of
    its ids. -/
theorem mem_component_iff {c : List String} (hc : c ∈ g.components) {a : String} (ha : a ∈ c)
    {b : String} : b ∈ c ↔ g.Reaches a b ∧ g.Reaches b a := by
  obtain ⟨d, hd, rfl⟩ := mem_components_iff.1 hc
  obtain ⟨v, hv, rfl⟩ := List.mem_map.1 (mem_ascending.1 ha)
  constructor
  · intro hb
    obtain ⟨w, hw, rfl⟩ := List.mem_map.1 (mem_ascending.1 hb)
    obtain ⟨hforth, hback⟩ := (Adjacency.mem_component_iff hd hv w).1 hw
    exact ⟨forward_reaches_iff.1 hforth, forward_reaches_iff.1 hback⟩
  · rintro ⟨hforth, hback⟩
    rcases hforth.eq_or_mem_nodeNames with rfl | ⟨-, hb⟩
    · exact ha
    · obtain ⟨w, rfl⟩ := mem_nodeNames_iff_name.1 hb
      rw [name_mem_ascending_iff, Adjacency.mem_component_iff hd hv w]
      exact ⟨forward_reaches_iff.2 hforth, forward_reaches_iff.2 hback⟩

/-- **THE COMPONENTS PARTITION THE NODES**: every name is in one component and
    once in it, none is empty, each is in strictly ascending order, and two names
    share one exactly when edges lead from each to the other. -/
theorem components_partition (g : Graph) :
    g.components.flatten.Nodup ∧
      (∀ id, id ∈ g.components.flatten ↔ id ∈ g.nodeNames) ∧
      (∀ c ∈ g.components, c ≠ [] ∧ c.Pairwise (· < ·)) ∧
      ∀ a ∈ g.nodeNames, ∀ b ∈ g.nodeNames,
        ((∃ c ∈ g.components, a ∈ c ∧ b ∈ c) ↔ g.Reaches a b ∧ g.Reaches b a) := by
  refine ⟨g.nodup_flatten_components, fun id => mem_flatten_components_iff, ?_, ?_⟩
  · intro c hc
    refine ⟨component_ne_nil hc, ?_⟩
    obtain ⟨d, -, rfl⟩ := mem_components_iff.1 hc
    exact pairwise_ascending _
  · intro a ha b hb
    obtain ⟨v, rfl⟩ := mem_nodeNames_iff_name.1 ha
    obtain ⟨w, rfl⟩ := mem_nodeNames_iff_name.1 hb
    rw [share_component_name_iff]
    exact and_congr forward_reaches_iff forward_reaches_iff

/-- In a round trip of two nodes both are in one component. -/
theorem components_partition_round_trip :
    ∃ c ∈ ({ direction := "LR", edges := [⟨"a", "b", none, .arrow⟩, ⟨"b", "a", none, .arrow⟩] }
      : Graph).components, "a" ∈ c ∧ "b" ∈ c := by
  refine ((components_partition _).2.2.2 "a" ?_ "b" ?_).2 ⟨?_, ?_⟩
  · exact Graph.mem_nodeNames.2 (Or.inr ⟨_, List.mem_cons_self, Or.inl rfl⟩)
  · exact Graph.mem_nodeNames.2 (Or.inr ⟨_, List.mem_cons_self, Or.inr rfl⟩)
  · exact Relation.ReflTransGen.single ⟨_, List.mem_cons_self, rfl, rfl⟩
  · exact Relation.ReflTransGen.single
      ⟨_, List.mem_cons_of_mem _ List.mem_cons_self, rfl, rfl⟩

end Graph

end Flowchart
