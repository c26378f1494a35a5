import Flowchart.Graph.Reach
import Flowchart.Proofs.Path

/-! # Spreading — the marks are the nodes that can be reached

    Spreading marks pending nodes and puts their successors in their place.  No
    successor of a marked node is ever forgotten (`Adjacency.Closing`), so at the
    end the marks are closed under the arcs, and all of them were reached from a
    node that was pending.  Hence the marks spread from one node are what it
    reaches (`Adjacency.get_reach_iff`).  The arcs turned round reach backwards
    (`Graph.backward_reaches_iff`). -/

namespace Flowchart

namespace Adjacency

variable {n : Nat} {next : Adjacency n}

/-! ## Nodes seen and pending -/

/-- The node is seen already, or pending. -/
def Known (pending : List (Fin n)) (seen : Table n Bool) (w : Fin n) : Prop :=
  seen.get w = true ∨ w ∈ pending

section Known

variable {v w : Fin n} {rest : List (Fin n)} {seen : Table n Bool}

/-- When a pending node is marked and its successors wait in its place, no known
    node is forgotten. -/
theorem Known.take (h : Known (v :: rest) seen w) :
    Known (next.get v ++ rest) (Table.put seen v true) w := by
  rw [Known, Table.get_put, List.mem_append]
  by_cases hvw : v = w
  · rw [if_pos hvw]
    exact Or.inl rfl
  · rw [if_neg hvw]
    rcases h with hseen | hpending
    · exact Or.inl hseen
    · exact Or.inr (Or.inr ((List.mem_cons.1 hpending).resolve_left (Ne.symm hvw)))

/-- A pending node that is seen can be dropped. -/
theorem Known.drop (h : Known (v :: rest) seen w) (hv : seen.get v = true) :
    Known rest seen w := by
  rcases h with hseen | hpending
  · exact Or.inl hseen
  · rcases List.mem_cons.1 hpending with rfl | hrest
    · exact Or.inl hv
    · exact Or.inr hrest

/-- Every successor of a seen node is known. -/
def Closing (next : Adjacency n) (pending : List (Fin n)) (seen : Table n Bool) : Prop :=
  ∀ v, seen.get v = true → ∀ w, next.Leads v w → Known pending seen w

theorem Closing.take (h : next.Closing (v :: rest) seen) :
    next.Closing (next.get v ++ rest) (Table.put seen v true) := by
  intro u hu w hw
  by_cases hvu : v = u
  · -- the node just marked: its successors wait
    subst hvu
    exact Or.inr (List.mem_append_left rest hw)
  · rw [Table.get_put, if_neg hvu] at hu
    exact (h u hu w hw).take

theorem Closing.drop (h : next.Closing (v :: rest) seen) (hv : seen.get v = true) :
    next.Closing rest seen := by
  intro u hu w hw
  exact (h u hu w hw).drop hv

end Known

/-! ## The marks at the end -/

/-- At the end nothing is pending, and the marks are closed under the arcs. -/
theorem closing_spread (pending : List (Fin n)) (seen : Table n Bool)
    (h : next.Closing pending seen) : next.Closing [] (next.spread pending seen) := by
  fun_induction spread next pending seen with
  | case1 seen => exact h
  | case2 seen v rest hunseen ih => exact ih h.take
  | case3 seen v rest hseen ih => exact ih (h.drop (eq_true_of_ne_false hseen))

/-- What is known gets marked. -/
theorem Known.get_spread {pending : List (Fin n)} {seen : Table n Bool} {w : Fin n}
    (h : Known pending seen w) : (next.spread pending seen).get w = true := by
  fun_induction spread next pending seen with
  | case1 seen => exact h.resolve_right List.not_mem_nil
  | case2 seen v rest hunseen ih => exact ih h.take
  | case3 seen v rest hseen ih => exact ih (h.drop (eq_true_of_ne_false hseen))

/-- Only what a pending node reaches gets marked. -/
theorem reaches_of_get_spread (pending : List (Fin n)) (seen : Table n Bool) {w : Fin n}
    (h : (next.spread pending seen).get w = true) :
    seen.get w = true ∨ ∃ v ∈ pending, next.Reaches v w := by
  fun_induction spread next pending seen with
  | case1 seen => exact Or.inl h
  | case2 seen v rest hunseen ih =>
      rcases ih h with hseen | ⟨u, hu, hreaches⟩
      · rw [Table.get_put] at hseen
        by_cases hvw : v = w
        · subst hvw
          exact Or.inr ⟨v, List.mem_cons_self, Relation.ReflTransGen.refl⟩
        · rw [if_neg hvw] at hseen
          exact Or.inl hseen
      · rcases List.mem_append.1 hu with hsuccessor | hrest
        · exact Or.inr ⟨v, List.mem_cons_self, Relation.ReflTransGen.head hsuccessor hreaches⟩
        · exact Or.inr ⟨u, List.mem_cons_of_mem v hrest, hreaches⟩
  | case3 seen v rest hunseen ih =>
      rcases ih h with hseen | ⟨u, hu, hreaches⟩
      · exact Or.inl hseen
      · exact Or.inr ⟨u, List.mem_cons_of_mem v hu, hreaches⟩

/-- **THE MARKS ARE WHAT THE START REACHES**. -/
theorem get_reach_iff {start w : Fin n} :
    (next.reach start).get w = true ↔ next.Reaches start w := by
  have hnone : ∀ v, ¬ (Table.fill n false).get v = true := by
    intro v hv
    rw [Table.get_fill] at hv
    exact Bool.false_ne_true hv
  constructor
  · intro h
    rcases reaches_of_get_spread [start] _ h with hseen | ⟨v, hv, hreaches⟩
    · exact absurd hseen (hnone w)
    · rwa [List.mem_singleton.1 hv] at hreaches
  · intro h
    have hclosed : next.Closing [] (next.reach start) :=
      closing_spread [start] (Table.fill n false) fun v hv => absurd hv (hnone v)
    -- along the way from the start, which is marked
    induction h with
    | refl => exact Known.get_spread (Or.inr (List.mem_singleton_self start))
    | tail _ hlead ih => exact (hclosed _ ih _ hlead).resolve_right List.not_mem_nil

/-! ## Arcs turned round -/

/-- A node is a successor of another when some arc leads there. -/
theorem leads_ofArcs_iff {arcs : List (Arc n)} {v w : Fin n} :
    (ofArcs arcs).Leads v w ↔ ∃ a ∈ arcs, a.source = v ∧ a.target = w := by
  show w ∈ (ofArcs arcs).get v ↔ _
  rw [get_ofArcs, List.mem_map]
  constructor
  · rintro ⟨a, ha, htarget⟩
    obtain ⟨hmem, hsource⟩ := List.mem_filter.1 ha
    exact ⟨a, hmem, of_decide_eq_true hsource, htarget⟩
  · rintro ⟨a, hmem, hsource, htarget⟩
    exact ⟨a, List.mem_filter.2 ⟨hmem, decide_eq_true hsource⟩, htarget⟩

end Adjacency

/-- The arcs turned round lead the other way. -/
theorem Index.backward_leads_iff {ix : Index} {v w : Fin ix.order} :
    ix.backward.Leads v w ↔ ix.forward.Leads w v := by
  rw [backward, forward, Adjacency.leads_ofArcs_iff, Adjacency.leads_ofArcs_iff]
  constructor
  · rintro ⟨a, ha, hsource, htarget⟩
    obtain ⟨b, hb, rfl⟩ := List.mem_map.1 ha
    exact ⟨b, hb, htarget, hsource⟩
  · rintro ⟨b, hb, hsource, htarget⟩
    exact ⟨b.flip, List.mem_map_of_mem hb, htarget, hsource⟩

/-- **BACKWARD PATHS ARE PATHS READ BACKWARDS**. -/
theorem Graph.backward_reaches_iff {g : Graph} {v w : Fin g.index.order} :
    g.index.backward.Reaches v w ↔ g.Reaches (g.index.name w) (g.index.name v) := by
  have hswap : g.index.backward.Leads = Function.swap g.index.forward.Leads := by
    funext v w
    exact propext Index.backward_leads_iff
  rw [← forward_reaches_iff, Adjacency.Reaches, hswap, Relation.reflTransGen_swap]
  exact Iff.rfl

end Flowchart
