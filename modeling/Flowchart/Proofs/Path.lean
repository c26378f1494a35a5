import Mathlib.Data.List.Basic
import Mathlib.Logic.Relation
import Flowchart.Graph.Index

/-! # Paths — where the edges of a graph lead

    `Graph.Leads` is one edge and `Graph.Reaches` any number of them, over ids.
    The walks follow the same edges between numbered nodes: the arcs of an index
    are the edges in their order (`index_arcs_entries`), so a node leads to
    another exactly when its id does (`forward_leads_iff`), and reaches it
    exactly when its id does (`forward_reaches_iff`). -/

namespace Flowchart

namespace Graph

/-- Some edge leads from `a` to `b`. -/
def Leads (g : Graph) (a b : String) : Prop :=
  ∃ e ∈ g.edges, e.source = a ∧ e.target = b

/-- Zero or more edges lead from `a` to `b`. -/
def Reaches (g : Graph) : String → String → Prop := Relation.ReflTransGen g.Leads

/-- The targets of the edges from `id`, in the order of the edges, one for each. -/
def targets (g : Graph) (id : String) : List String :=
  (g.edges.filter (·.source = id)).map (·.target)

/-- Both ends of an edge are nodes. -/
theorem Leads.mem_nodeNames {g : Graph} {a b : String} (h : g.Leads a b) :
    a ∈ g.nodeNames ∧ b ∈ g.nodeNames := by
  obtain ⟨e, he, rfl, rfl⟩ := h
  exact ⟨Graph.mem_nodeNames.2 (Or.inr ⟨e, he, Or.inl rfl⟩),
    Graph.mem_nodeNames.2 (Or.inr ⟨e, he, Or.inr rfl⟩)⟩

/-- Edges lead between nodes; an id that is none leads only to itself. -/
theorem Reaches.eq_or_mem_nodeNames {g : Graph} {a b : String} (h : g.Reaches a b) :
    a = b ∨ a ∈ g.nodeNames ∧ b ∈ g.nodeNames := by
  induction h with
  | refl => exact Or.inl rfl
  | tail _ hlead ih =>
      refine Or.inr ⟨?_, hlead.mem_nodeNames.2⟩
      rcases ih with rfl | ⟨ha, -⟩
      · exact hlead.mem_nodeNames.1
      · exact ha

end Graph

namespace Adjacency

variable {n : Nat}

/-- `w` is a successor of `v`. -/
def Leads (next : Adjacency n) (v w : Fin n) : Prop := w ∈ next.get v

/-- Zero or more arcs lead from `v` to `w`. -/
def Reaches (next : Adjacency n) : Fin n → Fin n → Prop := Relation.ReflTransGen next.Leads

/-- Both nodes reach each other. -/
def Mutual (next : Adjacency n) (v w : Fin n) : Prop := next.Reaches v w ∧ next.Reaches w v

end Adjacency

namespace Graph

variable {g : Graph}

/-! ## Ids and numbers -/

/-- The numbered nodes carry the node names in their order. -/
theorem nodeNames_eq_map_name (g : Graph) :
    g.nodeNames = (List.finRange g.index.order).map g.index.name := by
  refine List.ext_getElem ?_ ?_
  · rw [List.length_map, List.length_finRange]
    rfl
  · intro i h₁ h₂
    rw [List.getElem_map, List.getElem_finRange]
    rfl

/-- An id is a node name exactly when some numbered node has it. -/
theorem mem_nodeNames_iff_name {id : String} :
    id ∈ g.nodeNames ↔ ∃ v : Fin g.index.order, g.index.name v = id := by
  rw [nodeNames_eq_map_name, List.mem_map]
  constructor
  · rintro ⟨v, -, hv⟩
    exact ⟨v, hv⟩
  · rintro ⟨v, hv⟩
    exact ⟨v, List.mem_finRange v, hv⟩

/-- Different nodes have different ids. -/
theorem name_injective (g : Graph) : Function.Injective g.index.name := by
  intro v w h
  have hv : g.index.node? (g.index.name v) = some v := index_node?_eq_some_iff.2 rfl
  have hw : g.index.node? (g.index.name v) = some w := index_node?_eq_some_iff.2 h.symm
  exact Option.some.inj (hv.symm.trans hw)

/-- The node of a node name is found. -/
theorem exists_node?_eq_some {id : String} (h : id ∈ g.nodeNames) :
    ∃ v, g.index.node? id = some v ∧ g.index.name v = id := by
  obtain ⟨v, hv⟩ := mem_nodeNames_iff_name.1 h
  exact ⟨v, index_node?_eq_some_iff.2 hv, hv⟩

/-- Only the node names have a node. -/
theorem node?_eq_none_iff {id : String} : g.index.node? id = none ↔ id ∉ g.nodeNames := by
  constructor
  · intro hnone hid
    obtain ⟨v, hv, -⟩ := exists_node?_eq_some hid
    exact nomatch hnone.symm.trans hv
  · intro hout
    cases hnode : g.index.node? id with
    | none => rfl
    | some v => exact absurd (mem_nodeNames_iff_name.2 ⟨v, index_node?_eq_some_iff.1 hnode⟩) hout

/-! ## Edges and arcs -/

/-- An edge with its place, as the index records it. -/
def entry (g : Graph) (a : Arc g.index.order) : Nat × String × String :=
  (a.edge, g.index.name a.source, g.index.name a.target)

/-- **THE ARCS ARE THE EDGES**, in their order: no edge is left out, and each
    keeps its place and its ends. -/
theorem index_arcs_entries (g : Graph) :
    g.index.arcs.map g.entry = g.edges.zipIdx.map fun p => (p.2, p.1.source, p.1.target) := by
  have harcs : g.index.arcs
      = g.edges.zipIdx.filterMap fun p => p.1.arc? g.index.positions p.2 := rfl
  rw [harcs, List.map_filterMap, ← List.filterMap_eq_map]
  -- both ends of every edge have a place, so no edge is passed over
  refine List.filterMap_congr ?_
  rintro ⟨e, i⟩ hmem
  have he : e ∈ g.edges := List.fst_mem_of_mem_zipIdx hmem
  have hends := Leads.mem_nodeNames ⟨e, he, rfl, rfl⟩
  obtain ⟨v, hv, hsource⟩ := exists_node?_eq_some hends.1
  obtain ⟨w, hw, htarget⟩ := exists_node?_eq_some hends.2
  show (e.arc? g.index.positions i).map g.entry = some (i, e.source, e.target)
  rw [Edge.arc?_eq_some hv hw, Option.map_some, entry, hsource, htarget]

/-- The arcs stand at the places of the edges. -/
theorem index_arcs_edge (g : Graph) : g.index.arcs.map (·.edge) = List.range g.edges.length := by
  have h := congrArg (List.map Prod.fst) (index_arcs_entries g)
  rw [List.map_map, List.map_map] at h
  refine h.trans ?_
  show g.edges.zipIdx.map Prod.snd = _
  rw [List.zipIdx_map_snd, List.range_eq_range']

/-- An arc is an edge at its place, between the nodes of the ends. -/
theorem exists_arc_iff {i : Nat} {v w : Fin g.index.order} :
    ⟨i, v, w⟩ ∈ g.index.arcs ↔
      ∃ h : i < g.edges.length,
        g.edges[i].source = g.index.name v ∧ g.edges[i].target = g.index.name w := by
  have hinj : Function.Injective g.entry := by
    rintro ⟨i, v, w⟩ ⟨j, v', w'⟩ h
    obtain ⟨hi, hends⟩ := Prod.mk.inj h
    obtain ⟨hv, hw⟩ := Prod.mk.inj hends
    rw [Arc.mk.injEq]
    exact ⟨hi, name_injective g hv, name_injective g hw⟩
  rw [← List.mem_map_of_injective hinj, index_arcs_entries, List.mem_map]
  constructor
  · rintro ⟨⟨e, j⟩, hmem, heq⟩
    obtain ⟨rfl, hends⟩ := Prod.mk.inj heq
    obtain ⟨hs, ht⟩ := Prod.mk.inj hends
    obtain ⟨hlt, he⟩ := List.getElem?_eq_some_iff.1 (List.mk_mem_zipIdx_iff_getElem?.1 hmem)
    subst he
    exact ⟨hlt, hs, ht⟩
  · rintro ⟨hlt, hs, ht⟩
    refine ⟨(g.edges[i], i), ?_, ?_⟩
    · exact List.mk_mem_zipIdx_iff_getElem?.2 (List.getElem?_eq_getElem hlt)
    · exact Prod.ext rfl (Prod.ext hs ht)

/-- The ids of the successors of a node are the targets of its id, in their
    order. -/
theorem map_name_forward (g : Graph) (v : Fin g.index.order) :
    (g.index.forward.get v).map g.index.name = g.targets (g.index.name v) := by
  have hleft : (g.index.forward.get v).map g.index.name
      = ((g.index.arcs.map g.entry).filter (·.2.1 = g.index.name v)).map (·.2.2) := by
    rw [Index.forward, Adjacency.get_ofArcs, List.filter_map, List.map_map, List.map_map]
    congr 1
    refine List.filter_congr fun a _ => ?_
    show decide (a.source = v) = decide (g.index.name a.source = g.index.name v)
    rw [decide_eq_decide]
    exact (name_injective g).eq_iff.symm
  have hright : ∀ (edges : List Edge) (k : Nat) (id : String),
      ((((edges.zipIdx k).map fun p => (p.2, p.1.source, p.1.target)).filter
        (·.2.1 = id)).map (·.2.2)) = (edges.filter (·.source = id)).map (·.target) := by
    intro edges
    induction edges with
    | nil => intro k id; rfl
    | cons e edges ih =>
        intro k id
        rw [List.zipIdx_cons, List.map_cons]
        by_cases h : e.source = id
        · rw [List.filter_cons_of_pos (by simpa using h),
            List.filter_cons_of_pos (by simpa using h), List.map_cons, List.map_cons, ih]
        · rw [List.filter_cons_of_neg (by simpa using h),
            List.filter_cons_of_neg (by simpa using h), ih]
  rw [hleft, index_arcs_entries, hright]
  rfl

/-! ## Paths over ids and over numbers -/

/-- One arc leads where one edge does. -/
theorem forward_leads_iff {v w : Fin g.index.order} :
    g.index.forward.Leads v w ↔ g.Leads (g.index.name v) (g.index.name w) := by
  show w ∈ g.index.forward.get v ↔ _
  rw [← List.mem_map_of_injective (name_injective g), map_name_forward, targets, List.mem_map]
  constructor
  · rintro ⟨e, he, ht⟩
    obtain ⟨hmem, hs⟩ := List.mem_filter.1 he
    exact ⟨e, hmem, of_decide_eq_true hs, ht⟩
  · rintro ⟨e, hmem, hs, ht⟩
    exact ⟨e, List.mem_filter.2 ⟨hmem, decide_eq_true hs⟩, ht⟩

/-- **PATHS AGREE**: arcs lead from node to node where edges lead from id to id. -/
theorem forward_reaches_iff {v w : Fin g.index.order} :
    g.index.forward.Reaches v w ↔ g.Reaches (g.index.name v) (g.index.name w) := by
  constructor
  · intro h
    exact Relation.ReflTransGen.lift g.index.name (fun _ _ => forward_leads_iff.1) v w h
  · intro h
    generalize hid : g.index.name w = id at h
    induction h generalizing w with
    | refl =>
        rw [name_injective g hid]
        exact Relation.ReflTransGen.refl
    | tail _ hlead ih =>
        obtain ⟨u, hu⟩ := mem_nodeNames_iff_name.1 hlead.mem_nodeNames.1
        subst hid
        exact (ih hu).tail (forward_leads_iff.2 (hu.symm ▸ hlead))

end Graph

end Flowchart
