import Flowchart.Export.Elements
import Flowchart.Proofs.Cycle.Report
import Flowchart.Proofs.Parse.WellFormed
import Flowchart.Proofs.Reach.Selection

/-! # Consistent exports — what the elements of a graph promise

    The elements are put together from four queries: the names, the homes, the
    cycles and the split by a selection.  They fit: whatever an element, a cycle or
    a split mentions is drawn, once (`Elements.Draws`).  The subgraph and the color
    of a node are looked up apart, one among the subgraphs and one in the legend,
    but both at the place of the first subgraph that has the node
    (`Graph.FirstHome`), so names that occur twice do not matter.  The graph of a
    text labels only its nodes, hence none of its labels is lost. -/

namespace Flowchart

/-! ## Homes -/

namespace Graph

/-- The subgraph at place `k` is the first that has `id` as a member. -/
structure FirstHome (g : Graph) (id : String) (k : Nat) : Prop where
  lt : k < g.subgraphs.length
  member : id ∈ g.subgraphs[k].nodes
  first : ∀ j, ∀ h : j < k, id ∉ g.subgraphs[j].nodes

variable {g : Graph} {id : String}

/-- Looking for the place of the home finds the first. -/
theorem findIdx?_contains_iff {k : Nat} :
    g.subgraphs.findIdx? (·.contains id) = some k ↔ g.FirstHome id k := by
  simp only [List.findIdx?_eq_some_iff_getElem, Subgraph.contains, List.contains_iff_mem]
  constructor
  · rintro ⟨hlt, hmember, hfirst⟩
    exact ⟨hlt, hmember, hfirst⟩
  · rintro ⟨hlt, hmember, hfirst⟩
    exact ⟨hlt, hmember, hfirst⟩

/-- The home is the subgraph at that place. -/
theorem FirstHome.home? {k : Nat} (h : g.FirstHome id k) : g.home? id = g.subgraphs[k]? := by
  rw [List.getElem?_eq_getElem h.lt, Graph.home?, List.find?_eq_some_iff_getElem]
  refine ⟨List.contains_iff_mem.2 h.member, k, h.lt, rfl, fun j hj => ?_⟩
  rw [Bool.not_eq_true', Bool.eq_false_iff, Subgraph.contains, ne_eq, List.contains_iff_mem]
  exact h.first j hj

/-- A member of some subgraph has a home. -/
theorem exists_firstHome {s : Subgraph} (hs : s ∈ g.subgraphs) (h : id ∈ s.nodes) :
    ∃ k, g.FirstHome id k := by
  cases hplace : g.subgraphs.findIdx? (·.contains id) with
  | none =>
      have hout := List.findIdx?_eq_none_iff.1 hplace s hs
      rw [Subgraph.contains, List.contains_iff_mem.2 h] at hout
      cases hout
  | some k => exact ⟨k, findIdx?_contains_iff.1 hplace⟩

end Graph

namespace Elements

/-! ## What it is to fit -/

/-- Exactly one node element has this id. -/
def Draws (e : Elements) (id : String) : Prop := e.nodes.countP (·.id == id) = 1

/-- The elements `e` are those of `g`, and fit one another. -/
structure Consistent (g : Graph) (config : ExportConfig) (selected : Option String)
    (e : Elements) : Prop where
  /-- The nodes are drawn in the order of their names. -/
  node_ids : e.nodes.map (·.id) = g.nodeNames
  ascending : (e.nodes.map (·.id)).Pairwise (· < ·)
  /-- The edges are drawn in their order, each under its place. -/
  edge_count : e.edges.length = g.edges.length
  edge : ∀ i, ∀ h : i < g.edges.length, ∃ drawn, e.edges[i]? = some drawn ∧ drawn.id = i ∧
    drawn.source = g.edges[i].source ∧ drawn.target = g.edges[i].target ∧
    drawn.label = g.edges[i].label ∧ drawn.style = g.edges[i].style
  edge_ends : ∀ drawn ∈ e.edges, e.Draws drawn.source ∧ e.Draws drawn.target
  cycle_ids : ∀ cycles ∈ e.cycles, ∀ cycle ∈ cycles, ∀ id ∈ cycle, e.Draws id
  /-- The split is that of the selection; the selection itself may be no node. -/
  selection : e.highlight.map (·.selected) = selected
  dimmed : ∀ split ∈ e.highlight, ∀ id ∈ split.dimmedNodes, e.Draws id
  highlighted : ∀ split ∈ e.highlight, ∀ id ∈ split.highlightedNodes, id ≠ split.selected →
    e.Draws id
  /-- The legend lists the subgraphs in their order, and the colors again and
      again. -/
  legend_count : e.legend.length = g.subgraphs.length
  legend : ∀ k, ∀ h : k < g.subgraphs.length, ∃ entry, e.legend[k]? = some entry ∧
    entry.name = g.subgraphs[k].name ∧ (config.palette = [] → entry.color = none) ∧
    ∀ hcolors : 0 < config.palette.length,
      entry.color = some (config.palette.get ⟨k % config.palette.length, Nat.mod_lt k hcolors⟩)
  /-- A member of subgraphs has the name and the color of the first of them. -/
  member : ∀ node ∈ e.nodes, ∀ s ∈ g.subgraphs, node.id ∈ s.nodes →
    ∃ k, g.FirstHome node.id k ∧ ∃ entry, e.legend[k]? = some entry ∧
      node.subgraph = some entry.name ∧ node.color = entry.color
  other : ∀ node ∈ e.nodes, (∀ s ∈ g.subgraphs, node.id ∉ s.nodes) →
    node.subgraph = none ∧ node.color = none

/-- Every label and every shape of `g` shows on the element of its node. -/
structure ShowsLabels (g : Graph) (e : Elements) : Prop where
  labels : ∀ id label, g.labels[id]? = some label →
    e.Draws id ∧ ∀ node ∈ e.nodes, node.id = id → node.label = label
  shapes : ∀ id shape, g.shapes[id]? = some shape →
    e.Draws id ∧ ∀ node ∈ e.nodes, node.id = id → node.shape = some shape

/-! ## Nodes and edges -/

variable {g : Graph} {config : ExportConfig} {selected : Option String}

theorem map_id_nodes : (ofGraph g config selected).nodes.map (·.id) = g.nodeNames := by
  show (g.nodeNames.map (nodeOf g (legendOf g config))).map (·.id) = g.nodeNames
  rw [List.map_map]
  exact List.map_id g.nodeNames

/-- **EVERY NODE IS DRAWN**, once. -/
theorem draws_of_mem {id : String} (h : id ∈ g.nodeNames) :
    (ofGraph g config selected).Draws id := by
  have hcount : (ofGraph g config selected).nodes.countP (·.id == id)
      = ((ofGraph g config selected).nodes.map (·.id)).count id := by
    rw [List.count_eq_countP, List.countP_map]
    rfl
  rw [Draws, hcount, map_id_nodes]
  exact List.count_eq_one_of_mem g.nodup_nodeNames h

theorem getElem?_edges (i : Nat) :
    (ofGraph g config selected).edges[i]?
      = g.edges[i]?.map fun e => edgeOf g.cycleReport e i := by
  show (g.edges.zipIdx.map fun p => edgeOf g.cycleReport p.1 p.2)[i]? = _
  rw [List.getElem?_map, List.getElem?_zipIdx, Option.map_map, Nat.zero_add]
  rfl

/-- The ends of a drawn edge are ends of an edge. -/
theorem ends_mem_nodeNames {drawn : EdgeElement} (h : drawn ∈ (ofGraph g config selected).edges) :
    drawn.source ∈ g.nodeNames ∧ drawn.target ∈ g.nodeNames := by
  obtain ⟨⟨e, i⟩, hplace, rfl⟩ := List.mem_map.1 h
  have he : e ∈ g.edges := List.mem_of_getElem? (List.mk_mem_zipIdx_iff_getElem?.1 hplace)
  exact Graph.Leads.mem_nodeNames ⟨e, he, rfl, rfl⟩

/-- The names in a cycle are nodes. -/
theorem mem_nodeNames_of_cycle {cycle : List String} (hcycle : cycle ∈ g.simpleCycles)
    {id : String} (hid : id ∈ cycle) : id ∈ g.nodeNames := by
  obtain ⟨d, rfl⟩ := (Graph.mem_simpleCycles_iff.1 hcycle).exists_map_name
  obtain ⟨v, -, rfl⟩ := List.mem_map.1 hid
  exact Graph.mem_nodeNames_iff_name.2 ⟨v, rfl⟩

/-! ## The legend -/

theorem getElem?_legendOf (k : Nat) :
    (legendOf g config)[k]? = g.subgraphs[k]?.map fun s => ⟨s.name, config.colorFor? k⟩ := by
  rw [legendOf, List.getElem?_map, List.getElem?_zipIdx, Option.map_map, Nat.zero_add]
  rfl

/-- The element of a member takes its name and its color from one entry. -/
theorem nodeOf_of_firstHome {id : String} {k : Nat} (h : g.FirstHome id k) :
    (nodeOf g (legendOf g config) id).subgraph = g.subgraphs[k]?.map (·.name) ∧
      (nodeOf g (legendOf g config) id).color = config.colorFor? k := by
  refine ⟨?_, ?_⟩
  · rw [nodeOf, h.home?]
  · simp only [nodeOf, Graph.findIdx?_contains_iff.2 h, getElem?_legendOf,
      List.getElem?_eq_getElem h.lt, Option.map_some, Option.bind_eq_bind, Option.bind_some]

/-- The element of a node outside all subgraphs takes neither. -/
theorem nodeOf_of_not_member {id : String} (h : ∀ s ∈ g.subgraphs, id ∉ s.nodes)
    (legend : List LegendEntry) :
    (nodeOf g legend id).subgraph = none ∧ (nodeOf g legend id).color = none := by
  have hout : ∀ s ∈ g.subgraphs, s.contains id = false := by
    intro s hs
    rw [Subgraph.contains, Bool.eq_false_iff, ne_eq, List.contains_iff_mem]
    exact h s hs
  refine ⟨?_, ?_⟩
  · have hhome : g.home? id = none := by
      rw [Graph.home?, List.find?_eq_none]
      intro s hs
      rw [hout s hs]
      exact Bool.false_ne_true
    rw [nodeOf, hhome]
    rfl
  · have hplace : g.subgraphs.findIdx? (·.contains id) = none :=
      List.findIdx?_eq_none_iff.2 hout
    rw [nodeOf, hplace]
    rfl

/-- With colors, the entry at a place has the one at that place, counted round
    and round. -/
theorem colorFor?_eq_some (hcolors : 0 < config.palette.length) (k : Nat) :
    config.colorFor? k
      = some (config.palette.get ⟨k % config.palette.length, Nat.mod_lt k hcolors⟩) :=
  List.getElem?_eq_getElem _

theorem colorFor?_eq_none (h : config.palette = []) (k : Nat) : config.colorFor? k = none := by
  rw [ExportConfig.colorFor?, h]
  rfl

/-! ## The export -/

/-- Every node element is the element of a node. -/
theorem mem_nodes_iff {node : NodeElement} :
    node ∈ (ofGraph g config selected).nodes ↔
      ∃ id ∈ g.nodeNames, nodeOf g (legendOf g config) id = node :=
  List.mem_map

theorem consistent_ofGraph (g : Graph) (config : ExportConfig) (selected : Option String) :
    Consistent g config selected (ofGraph g config selected) where
  node_ids := map_id_nodes
  ascending := by
    rw [map_id_nodes]
    exact g.pairwise_nodeNames
  edge_count := by
    show (g.edges.zipIdx.map fun p => edgeOf g.cycleReport p.1 p.2).length = _
    rw [List.length_map, List.length_zipIdx]
  edge i h := by
    refine ⟨edgeOf g.cycleReport g.edges[i] i, ?_, rfl, rfl, rfl, rfl, rfl⟩
    rw [getElem?_edges, List.getElem?_eq_getElem h]
    rfl
  edge_ends drawn h :=
    ⟨draws_of_mem (ends_mem_nodeNames h).1, draws_of_mem (ends_mem_nodeNames h).2⟩
  cycle_ids cycles h cycle hcycle id hid := by
    have hcycles : cycles = g.simpleCycles := by
      have hexported : (if config.includeCycles then some g.simpleCycles else none)
          = some cycles := h
      split at hexported
      · exact (Option.some.inj hexported).symm
      · exact nomatch hexported
    exact draws_of_mem (mem_nodeNames_of_cycle (hcycles ▸ hcycle) hid)
  selection := by
    show (selected.map g.highlight).map (·.selected) = selected
    rw [Option.map_map]
    exact congrFun Option.map_id_fun selected
  dimmed split h id hid := by
    obtain ⟨node, -, rfl⟩ := Option.map_eq_some_iff.1 h
    exact draws_of_mem (Graph.mem_dimmedNodes_iff.1 hid).1
  highlighted split h id hid hother := by
    obtain ⟨node, -, rfl⟩ := Option.map_eq_some_iff.1 h
    have hnode := Graph.mem_nodeNames_of_reachable (Graph.mem_highlightedNodes_iff.1 hid)
    exact draws_of_mem (hnode.resolve_right hother)
  legend_count := by
    show (legendOf g config).length = _
    rw [legendOf, List.length_map, List.length_zipIdx]
  legend k h := by
    refine ⟨⟨g.subgraphs[k].name, config.colorFor? k⟩, ?_, rfl, fun hnone => ?_, fun hcolors => ?_⟩
    · show (legendOf g config)[k]? = _
      rw [getElem?_legendOf, List.getElem?_eq_getElem h]
      rfl
    · exact colorFor?_eq_none hnone k
    · exact colorFor?_eq_some hcolors k
  member node hnode s hs hid := by
    obtain ⟨id, -, rfl⟩ := mem_nodes_iff.1 hnode
    -- any subgraph with the node leads to its first, which both look-ups find
    obtain ⟨k, hk⟩ := Graph.exists_firstHome hs hid
    have hlt := hk.lt
    obtain ⟨hname, hcolor⟩ : (nodeOf g (legendOf g config) id).subgraph = _ ∧
      (nodeOf g (legendOf g config) id).color = _ := nodeOf_of_firstHome hk
    rw [List.getElem?_eq_getElem hlt] at hname
    refine ⟨k, hk, ⟨g.subgraphs[k].name, config.colorFor? k⟩, ?_, hname, hcolor⟩
    show (legendOf g config)[k]? = _
    rw [getElem?_legendOf, List.getElem?_eq_getElem hlt]
    rfl
  other node hnode hout := by
    obtain ⟨id, -, rfl⟩ := mem_nodes_iff.1 hnode
    exact nodeOf_of_not_member hout _

/-- Where only nodes have labels and shapes, all of them are shown. -/
theorem showsLabels_ofGraph (hlabels : ∀ id ∈ g.labels, id ∈ g.nodeNames)
    (hshapes : ∀ id ∈ g.shapes, id ∈ g.nodeNames) :
    ShowsLabels g (ofGraph g config selected) where
  labels id label hlabel := by
    have hmem : id ∈ g.labels := Std.ExtTreeMap.mem_iff_isSome_getElem?.2 (by rw [hlabel]; rfl)
    refine ⟨draws_of_mem (hlabels id hmem), fun node hnode hid => ?_⟩
    obtain ⟨other, -, rfl⟩ := mem_nodes_iff.1 hnode
    obtain rfl : other = id := hid
    show g.labels.getD other other = label
    rw [Std.ExtTreeMap.getD_eq_getD_getElem?, hlabel]
    rfl
  shapes id shape hshape := by
    have hmem : id ∈ g.shapes := Std.ExtTreeMap.mem_iff_isSome_getElem?.2 (by rw [hshape]; rfl)
    refine ⟨draws_of_mem (hshapes id hmem), fun node hnode hid => ?_⟩
    obtain ⟨other, -, rfl⟩ := mem_nodes_iff.1 hnode
    obtain rfl : other = id := hid
    exact hshape

/-- **AN EXPORT IS CONSISTENT**: nodes and edges are drawn each once and in order,
    whatever is mentioned is drawn, and the name and the color of a member are
    those of the first subgraph that has it.  For the graph of a text, every label
    and every shape shows. -/
theorem ofGraph_consistent (g : Graph) (config : ExportConfig) (selected : Option String) :
    Consistent g config selected (ofGraph g config selected) ∧
      ∀ source, parse source = .ok g → ShowsLabels g (ofGraph g config selected) := by
  refine ⟨consistent_ofGraph g config selected, fun source h => ?_⟩
  obtain ⟨b, hb, rfl⟩ := exists_good_of_parse h
  exact showsLabels_ofGraph hb.labelled fun id hid => hb.labelled id ((hb.sound.paired id).2 hid)

/-- Two subgraphs of one name with a member in common, fewer colors than
    subgraphs, and a selection that is no node. -/
theorem ofGraph_consistent_shared_name :
    let source := "graph LR\nsubgraph s\na[A]\nend\nsubgraph s\na\nb((B)) --> a"
    let g : Graph :=
      { direction := "LR"
        subgraphs := [⟨"s", ["a"]⟩, ⟨"s", ["a", "b"]⟩]
        edges := [⟨"b", "a", none, .arrow⟩]
        labels := .ofList [("a", "A"), ("b", "B")]
        shapes := .ofList [("a", Shape.rectangle), ("b", Shape.circle)] }
    let config : ExportConfig := { palette := ["red"] }
    parse source = .ok g ∧ Consistent g config (some "z") (ofGraph g config (some "z")) ∧
      ShowsLabels g (ofGraph g config (some "z")) := by
  intro source g config
  have h : parse source = .ok g := by decide +kernel +zetaReduce
  exact ⟨h, (ofGraph_consistent g config (some "z")).1,
    (ofGraph_consistent g config (some "z")).2 source h⟩

end Elements

end Flowchart
