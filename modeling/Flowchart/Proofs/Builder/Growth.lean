import Flowchart.Proofs.Builder.Invariant

/-! # Growth — what later lines can still change

    Whatever a line says, it only adds to the graph: edges come after the edges
    there are, subgraphs after the subgraphs, and labels are set but never taken
    away.  Members go to the open subgraph, and that is the last one; every
    subgraph before it stays as it is (`Graph.GrowsTo`).  Each operation of a
    builder grows its graph, so every line does (`Builder.growsTo_execute`). -/

namespace Flowchart

/-- The same subgraph, perhaps with more members after those it had. -/
structure Subgraph.GrowsTo (s later : Subgraph) : Prop where
  name : later.name = s.name
  nodes : s.nodes <+: later.nodes

namespace Subgraph.GrowsTo

theorem refl (s : Subgraph) : s.GrowsTo s := ⟨rfl, List.prefix_refl _⟩

theorem trans {s middle later : Subgraph} (h : s.GrowsTo middle) (h' : middle.GrowsTo later) :
    s.GrowsTo later :=
  ⟨h'.name.trans h.name, h.nodes.trans h'.nodes⟩

end Subgraph.GrowsTo

theorem Subgraph.growsTo_add (s : Subgraph) (id : String) : s.GrowsTo (s.add id) := by
  rw [Subgraph.add]
  split
  · exact .refl s
  · exact ⟨rfl, List.prefix_append _ _⟩

/-- The same graph with more read: what it had stands at its place, but the last
    subgraph may have got more members. -/
structure Graph.GrowsTo (g later : Graph) : Prop where
  direction : later.direction = g.direction
  edges : g.edges <+: later.edges
  subgraphs : ∀ i s, g.subgraphs[i]? = some s →
    ∃ s', later.subgraphs[i]? = some s' ∧ s.GrowsTo s' ∧
      (i + 1 < g.subgraphs.length → s' = s)
  labels : ∀ id ∈ g.labels, id ∈ later.labels

namespace Graph.GrowsTo

variable {g middle later : Graph}

theorem refl (g : Graph) : g.GrowsTo g where
  direction := rfl
  edges := List.prefix_refl _
  subgraphs _ s hs := ⟨s, hs, .refl s, fun _ => rfl⟩
  labels _ hid := hid

theorem length_le (h : g.GrowsTo later) : g.subgraphs.length ≤ later.subgraphs.length := by
  by_contra hlt
  obtain ⟨s, hs⟩ : ∃ s, g.subgraphs[later.subgraphs.length]? = some s :=
    ⟨_, List.getElem?_eq_getElem (Nat.lt_of_not_le hlt)⟩
  obtain ⟨s', hs', -⟩ := h.subgraphs _ s hs
  rw [List.getElem?_eq_none (Nat.le_refl _)] at hs'
  exact nomatch hs'

/-- What is not last stays so, hence nothing before the last subgraph changes in
    two runs either. -/
theorem trans (h : g.GrowsTo middle) (h' : middle.GrowsTo later) : g.GrowsTo later where
  direction := h'.direction.trans h.direction
  edges := h.edges.trans h'.edges
  subgraphs i s hs := by
    obtain ⟨t, ht, hgrows, hsame⟩ := h.subgraphs i s hs
    obtain ⟨u, hu, hgrows', hsame'⟩ := h'.subgraphs i t ht
    refine ⟨u, hu, hgrows.trans hgrows', fun hbefore => ?_⟩
    rw [hsame' (Nat.lt_of_lt_of_le hbefore h.length_le), hsame hbefore]
  labels id hid := h'.labels id (h.labels id hid)

end Graph.GrowsTo

namespace Builder

/-! ## Operations -/

theorem growsTo_openSubgraph (b : Builder) (name : String) :
    b.graph.GrowsTo (b.openSubgraph name).graph where
  direction := rfl
  edges := List.prefix_refl _
  subgraphs i s hs := by
    have hbefore : b.subgraphs[i]? = some s := hs
    refine ⟨s, ?_, .refl s, fun _ => rfl⟩
    show (b.subgraphs ++ [⟨name, []⟩])[i]? = some s
    rw [List.getElem?_append_left (List.getElem?_eq_some_iff.1 hbefore).1]
    exact hbefore
  labels _ hid := hid

theorem growsTo_closeSubgraph (b : Builder) : b.graph.GrowsTo b.closeSubgraph.graph where
  direction := rfl
  edges := List.prefix_refl _
  subgraphs i s hs := by
    refine ⟨s, ?_, .refl s, fun _ => rfl⟩
    show b.closeSubgraph.subgraphs[i]? = some s
    rw [subgraphs_closeSubgraph]
    exact hs
  labels _ hid := hid

/-- Only the last subgraph takes a member. -/
theorem growsTo_addMember (b : Builder) (id : String) :
    b.graph.GrowsTo (b.addMember id).graph where
  direction := rfl
  edges := List.prefix_refl _
  subgraphs i s hs := by
    have hbefore : (b.closed ++ b.current.toList)[i]? = some s := hs
    show ∃ s', (b.closed ++ (b.current.map (·.add id)).toList)[i]? = some s' ∧ s.GrowsTo s' ∧
      (i + 1 < (b.closed ++ b.current.toList).length → s' = s)
    by_cases hclosed : i < b.closed.length
    · rw [List.getElem?_append_left hclosed] at hbefore
      refine ⟨s, ?_, .refl s, fun _ => rfl⟩
      rw [List.getElem?_append_left hclosed]
      exact hbefore
    · have hplace : b.closed.length ≤ i := Nat.le_of_not_lt hclosed
      rw [List.getElem?_append_right hplace] at hbefore
      cases hcurrent : b.current with
      | none =>
          rw [hcurrent] at hbefore
          exact nomatch hbefore
      | some c =>
          -- there is one place left, and it is the last
          rw [hcurrent] at hbefore
          obtain ⟨hlast, hfound⟩ := List.getElem?_eq_some_iff.1 hbefore
          have hzero : i - b.closed.length = 0 := Nat.lt_one_iff.1 hlast
          have hc : c = s := by simpa [hzero] using hfound
          subst hc
          refine ⟨c.add id, ?_, c.growsTo_add id, fun hnext => ?_⟩
          · rw [List.getElem?_append_right hplace, hzero]
            rfl
          · rw [List.length_append] at hnext
            have hone : (some c).toList.length = 1 := rfl
            omega
  labels _ hid := hid

theorem growsTo_pushEdge (b : Builder) (e : Edge) : b.graph.GrowsTo (b.pushEdge e).graph := by
  have hmembers := (b.growsTo_addMember e.source).trans
    ((b.addMember e.source).growsTo_addMember e.target)
  exact
    { direction := hmembers.direction
      edges := List.prefix_append _ _
      subgraphs := hmembers.subgraphs
      labels := hmembers.labels }

theorem growsTo_noteLabel (b : Builder) (token : NodeToken) :
    b.graph.GrowsTo (b.noteLabel token).graph := by
  rw [noteLabel]
  split
  · exact
      { direction := rfl
        edges := List.prefix_refl _
        subgraphs := fun _ s hs => ⟨s, hs, .refl s, fun _ => rfl⟩
        labels := fun _ hid => Std.ExtTreeMap.mem_insert.2 (Or.inr hid) }
  · exact .refl _

/-! ## Lines -/

/-- Steps that grow a graph one after the other. -/
theorem growsTo_foldl {α : Type} {step : Builder → α → Builder}
    (hstep : ∀ (b : Builder) a, b.graph.GrowsTo (step b a).graph) (b : Builder) (steps : List α) :
    b.graph.GrowsTo (steps.foldl step b).graph := by
  induction steps generalizing b with
  | nil => exact .refl _
  | cons a steps ih => exact (hstep b a).trans (ih (step b a))

/-- **A LINE ONLY ADDS** to the graph, whatever it says. -/
theorem growsTo_execute (b : Builder) (s : Statement) :
    b.graph.GrowsTo (b.execute s).1.graph := by
  cases s with
  | blank | comment | direction | styling | other => exact .refl _
  | openSubgraph name => exact b.growsTo_openSubgraph name
  | closeSubgraph => exact b.growsTo_closeSubgraph
  | edges chain =>
      exact (growsTo_foldl growsTo_noteLabel b chain.tokens).trans
        (growsTo_foldl growsTo_pushEdge _ chain.edges)
  | declaration token =>
      rw [execute]
      split
      · exact (b.growsTo_addMember token.id).trans (growsTo_noteLabel _ token)
      · exact .refl _

end Builder

end Flowchart
