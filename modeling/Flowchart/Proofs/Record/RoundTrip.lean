import Flowchart.Export.ElementsRecord
import Flowchart.Proofs.Record.Field

/-! # Round trips — what is written is read back

    Every graph, and all elements whose edges are numbered below the bound of
    indices, are written as a whole value that stands for them, so they are read
    back from either layout.  What is read is numbered so: writing what was read
    gives a text that stays as it is (`records_round_trip`). -/

namespace Flowchart

open Json

/-! ## Graphs -/

theorem Edge.standsFor_toJson (e : Edge) : StandsFor Edge.ofJson? e.toJson e where
  whole := by
    refine .object ?_
    simp only [List.forall_mem_append, List.forall_mem_cons]
    exact ⟨⟨⟨.string _, .string _, nofun⟩, whole_present fun s _ => .string s⟩, .string _, nofun⟩
  decoded := by
    have hrecord : e.toJson.record? fieldNames = some e.toJson := by
      refine record?_of_sublist (by decide) ?_
      rw [List.map_append, List.map_append]
      exact ((List.Sublist.refl ["source", "target"]).append
        (map_fst_present_sublist "label" .string e.label)).append (List.Sublist.refl ["style"])
    have hsource : e.toJson.required? "source" text? = some e.source :=
      required?_of_member? (.text _) rfl
    have htarget : e.toJson.required? "target" text? = some e.target :=
      required?_of_member? (.text _) rfl
    have hlabel : e.toJson.optional? "label" text? = some e.label :=
      optional?_of_member? (fun s _ => .text s) rfl (by simp [toJson])
    have hstyle : e.toJson.defaulted? "style" (choice? ArrowStyle.ofName?) .arrow = some e.style :=
      defaulted?_of_member? (.choice (ArrowStyle.ofName?_name _)) (by simp [toJson])
    simp only [ofJson?, Option.bind_eq_bind, Option.bind_some, hrecord, hsource, htarget, hlabel,
      hstyle]
    rfl

theorem Subgraph.standsFor_toJson (s : Subgraph) : StandsFor Subgraph.ofJson? s.toJson s where
  whole := by
    refine .object ?_
    simp only [List.forall_mem_cons]
    exact ⟨.string _, (StandsFor.texts s.nodes).whole, nofun⟩
  decoded := by
    have hrecord : s.toJson.record? fieldNames = some s.toJson :=
      record?_of_sublist (by decide) (List.Sublist.refl _)
    have hname : s.toJson.required? "name" text? = some s.name :=
      required?_of_member? (.text _) rfl
    have hnodes : s.toJson.required? "nodes" (list? text?) = some s.nodes :=
      required?_of_member? (.texts _) rfl
    simp only [ofJson?, Option.bind_eq_bind, Option.bind_some, hrecord, hname, hnodes]
    rfl

theorem Graph.standsFor_toJson (g : Graph) : StandsFor Graph.ofJson? g.toJson g := by
  have hsubgraphs : StandsFor (list? Subgraph.ofJson?) (.array (g.subgraphs.map Subgraph.toJson))
      g.subgraphs := .list fun s _ => s.standsFor_toJson
  have hedges : StandsFor (list? Edge.ofJson?) (.array (g.edges.map Edge.toJson)) g.edges :=
    .list fun e _ => e.standsFor_toJson
  have hlabels : StandsFor (mapOfJson? text?) (mapToJson .string g.labels) g.labels :=
    .map .text g.labels
  have hshapes : StandsFor (mapOfJson? (choice? Shape.ofName?))
      (mapToJson (fun shape => .string shape.name) g.shapes) g.shapes :=
    .map (fun shape => .choice (Shape.ofName?_name shape)) g.shapes
  constructor
  · refine .object ?_
    simp only [List.forall_mem_cons]
    exact ⟨.string _, hsubgraphs.whole, hedges.whole, hlabels.whole, hshapes.whole, nofun⟩
  · have hrecord : g.toJson.record? fieldNames = some g.toJson :=
      record?_of_sublist (by decide) (List.Sublist.refl _)
    have hdirection : g.toJson.required? "direction" text? = some g.direction :=
      required?_of_member? (.text _) rfl
    have hsubgraphs : g.toJson.required? "subgraphs" (list? Subgraph.ofJson?) = some g.subgraphs :=
      required?_of_member? hsubgraphs rfl
    have hedges : g.toJson.required? "edges" (list? Edge.ofJson?) = some g.edges :=
      required?_of_member? hedges rfl
    have hlabels : g.toJson.required? "labels" (mapOfJson? text?) = some g.labels :=
      required?_of_member? hlabels rfl
    have hshapes : g.toJson.required? "shapes" (mapOfJson? (choice? Shape.ofName?))
        = some g.shapes := required?_of_member? hshapes rfl
    simp only [ofJson?, Option.bind_eq_bind, Option.bind_some, hrecord, hdirection, hsubgraphs,
      hedges, hlabels, hshapes]
    rfl

/-! ## Elements -/

theorem NodeElement.standsFor_toJson (e : NodeElement) :
    StandsFor NodeElement.ofJson? e.toJson e where
  whole := by
    refine .object ?_
    simp only [List.forall_mem_append, List.forall_mem_cons]
    exact ⟨⟨⟨⟨.string _, .string _, nofun⟩, whole_present fun shape _ => .string shape.name⟩,
      whole_present fun s _ => .string s⟩, whole_present fun s _ => .string s⟩
  decoded := by
    have hrecord : e.toJson.record? fieldNames = some e.toJson := by
      refine record?_of_sublist (by decide) ?_
      rw [List.map_append, List.map_append, List.map_append]
      exact (((List.Sublist.refl ["id", "label"]).append
        (map_fst_present_sublist "shape" _ e.shape)).append
        (map_fst_present_sublist "subgraph" .string e.subgraph)).append
        (map_fst_present_sublist "color" .string e.color)
    have hid : e.toJson.required? "id" text? = some e.id := required?_of_member? (.text _) rfl
    have hlabel : e.toJson.required? "label" text? = some e.label :=
      required?_of_member? (.text _) rfl
    have hshape : e.toJson.optional? "shape" (choice? Shape.ofName?) = some e.shape :=
      optional?_of_member? (fun shape _ => .choice (Shape.ofName?_name shape)) rfl
        (by simp [toJson])
    have hsubgraph : e.toJson.optional? "subgraph" text? = some e.subgraph :=
      optional?_of_member? (fun s _ => .text s) rfl (by simp [toJson])
    have hcolor : e.toJson.optional? "color" text? = some e.color :=
      optional?_of_member? (fun s _ => .text s) rfl (by simp [toJson])
    simp only [ofJson?, Option.bind_eq_bind, Option.bind_some, hrecord, hid, hlabel, hshape,
      hsubgraph, hcolor]
    rfl

theorem EdgeElement.standsFor_toJson {e : EdgeElement} (h : e.id < indexBound) :
    StandsFor EdgeElement.ofJson? e.toJson e where
  whole := by
    refine .object ?_
    simp only [List.forall_mem_append, List.forall_mem_cons]
    exact ⟨⟨⟨.number _, .string _, .string _, nofun⟩, whole_present fun s _ => .string s⟩,
      .string _, .bool _, nofun⟩
  decoded := by
    have hrecord : e.toJson.record? fieldNames = some e.toJson := by
      refine record?_of_sublist (by decide) ?_
      rw [List.map_append, List.map_append]
      exact ((List.Sublist.refl ["id", "source", "target"]).append
        (map_fst_present_sublist "label" .string e.label)).append
        (List.Sublist.refl ["style", "cyclic"])
    have hid : e.toJson.required? "id" index? = some e.id := required?_of_member? (.index h) rfl
    have hsource : e.toJson.required? "source" text? = some e.source :=
      required?_of_member? (.text _) rfl
    have htarget : e.toJson.required? "target" text? = some e.target :=
      required?_of_member? (.text _) rfl
    have hlabel : e.toJson.optional? "label" text? = some e.label :=
      optional?_of_member? (fun s _ => .text s) rfl (by simp [toJson])
    have hstyle : e.toJson.required? "style" (choice? ArrowStyle.ofName?) = some e.style :=
      required?_of_member? (.choice (ArrowStyle.ofName?_name _)) (by simp [toJson])
    have hcyclic : e.toJson.required? "cyclic" bool? = some e.cyclic :=
      required?_of_member? (.bool _) (by simp [toJson])
    simp only [ofJson?, Option.bind_eq_bind, Option.bind_some, hrecord, hid, hsource, htarget,
      hlabel, hstyle, hcyclic]
    rfl

theorem LegendEntry.standsFor_toJson (e : LegendEntry) :
    StandsFor LegendEntry.ofJson? e.toJson e where
  whole := by
    refine .object ?_
    simp only [List.forall_mem_cons]
    exact ⟨.string _, whole_present fun s _ => .string s⟩
  decoded := by
    have hrecord : e.toJson.record? fieldNames = some e.toJson :=
      record?_of_sublist (by decide)
        ((map_fst_present_sublist "color" .string e.color).cons_cons "name")
    have hname : e.toJson.required? "name" text? = some e.name :=
      required?_of_member? (.text _) rfl
    have hcolor : e.toJson.optional? "color" text? = some e.color :=
      optional?_of_member? (fun s _ => .text s) rfl (by simp [toJson])
    simp only [ofJson?, Option.bind_eq_bind, Option.bind_some, hrecord, hname, hcolor]
    rfl

/-- The places of edges in a split are indices. -/
structure Highlight.Indexed (h : Highlight) : Prop where
  highlighted : ∀ i ∈ h.highlightedEdges, i < indexBound
  dimmed : ∀ i ∈ h.dimmedEdges, i < indexBound

theorem Highlight.standsFor_toJson {h : Highlight} (hindexed : h.Indexed) :
    StandsFor Highlight.ofJson? h.toJson h where
  whole := by
    refine .object ?_
    simp only [List.forall_mem_cons]
    exact ⟨.string _, (StandsFor.texts _).whole, (StandsFor.texts _).whole,
      (StandsFor.numbers hindexed.highlighted).whole, (StandsFor.numbers hindexed.dimmed).whole,
      nofun⟩
  decoded := by
    have hrecord : h.toJson.record? fieldNames = some h.toJson :=
      record?_of_sublist (by decide) (List.Sublist.refl _)
    have hselected : h.toJson.required? "selected" text? = some h.selected :=
      required?_of_member? (.text _) rfl
    have hnodes : h.toJson.required? "highlighted_nodes" (list? text?) = some h.highlightedNodes :=
      required?_of_member? (.texts _) rfl
    have hdimmed : h.toJson.required? "dimmed_nodes" (list? text?) = some h.dimmedNodes :=
      required?_of_member? (.texts _) rfl
    have hedges : h.toJson.required? "highlighted_edges" (list? index?) = some h.highlightedEdges :=
      required?_of_member? (.numbers hindexed.highlighted) rfl
    have hdimmedEdges : h.toJson.required? "dimmed_edges" (list? index?) = some h.dimmedEdges :=
      required?_of_member? (.numbers hindexed.dimmed) rfl
    simp only [ofJson?, Option.bind_eq_bind, Option.bind_some, hrecord, hselected, hnodes, hdimmed,
      hedges, hdimmedEdges]
    rfl

/-- The places of edges in the elements are indices. -/
structure Elements.Indexed (e : Elements) : Prop where
  edges : ∀ edge ∈ e.edges, edge.id < indexBound
  highlight : ∀ h ∈ e.highlight, h.Indexed

theorem Elements.standsFor_toJson {e : Elements} (h : e.Indexed) :
    StandsFor Elements.ofJson? e.toJson e := by
  have hnodes : StandsFor (list? NodeElement.ofJson?) (.array (e.nodes.map NodeElement.toJson))
      e.nodes := .list fun node _ => node.standsFor_toJson
  have hedges : StandsFor (list? EdgeElement.ofJson?) (.array (e.edges.map EdgeElement.toJson))
      e.edges := .list fun edge hedge => EdgeElement.standsFor_toJson (h.edges edge hedge)
  have hlegend : StandsFor (list? LegendEntry.ofJson?) (.array (e.legend.map LegendEntry.toJson))
      e.legend := .list fun entry _ => entry.standsFor_toJson
  have hcycles : ∀ cycles ∈ e.cycles,
      StandsFor (list? (list? text?)) (cyclesToJson cycles) cycles :=
    fun _ _ => .list fun cycle _ => .texts cycle
  have hhighlight : ∀ split ∈ e.highlight, StandsFor Highlight.ofJson? split.toJson split :=
    fun split hsplit => Highlight.standsFor_toJson (h.highlight split hsplit)
  constructor
  · refine .object ?_
    simp only [List.forall_mem_append, List.forall_mem_cons]
    exact ⟨⟨⟨.string _, hnodes.whole, hedges.whole, hlegend.whole, nofun⟩,
      whole_present fun cycles hsome => (hcycles cycles hsome).whole⟩,
      whole_present fun split hsome => (hhighlight split hsome).whole⟩
  · have hrecord : e.toJson.record? fieldNames = some e.toJson := by
      refine record?_of_sublist (by decide) ?_
      rw [List.map_append, List.map_append]
      exact ((List.Sublist.refl ["direction", "nodes", "edges", "legend"]).append
        (map_fst_present_sublist "cycles" cyclesToJson e.cycles)).append
        (map_fst_present_sublist "highlight" Highlight.toJson e.highlight)
    have hdirection : e.toJson.required? "direction" text? = some e.direction :=
      required?_of_member? (.text _) rfl
    have hnodes : e.toJson.required? "nodes" (list? NodeElement.ofJson?) = some e.nodes :=
      required?_of_member? hnodes rfl
    have hedges : e.toJson.required? "edges" (list? EdgeElement.ofJson?) = some e.edges :=
      required?_of_member? hedges rfl
    have hlegend : e.toJson.required? "legend" (list? LegendEntry.ofJson?) = some e.legend :=
      required?_of_member? hlegend rfl
    have hcycles : e.toJson.optional? "cycles" (list? (list? text?)) = some e.cycles :=
      optional?_of_member? hcycles rfl (by simp [toJson])
    have hhighlight : e.toJson.optional? "highlight" Highlight.ofJson? = some e.highlight :=
      optional?_of_member? hhighlight rfl (by simp [toJson])
    simp only [ofJson?, Option.bind_eq_bind, Option.bind_some, hrecord, hdirection, hnodes, hedges,
      hlegend, hcycles, hhighlight]
    rfl

/-! ## What is read -/

theorem EdgeElement.indexed_of_ofJson? {value : Json} {e : EdgeElement}
    (h : ofJson? value = some e) : e.id < indexBound := by
  simp only [ofJson?, Option.bind_eq_bind, Option.bind_eq_some_iff] at h
  obtain ⟨_, -, id, hid, _, -, _, -, _, -, _, -, _, -, heq⟩ := h
  obtain rfl := Option.some.inj heq
  obtain ⟨_, hindex⟩ := exists_of_required? hid
  exact lt_indexBound_of_index? hindex

theorem Highlight.indexed_of_ofJson? {value : Json} {h : Highlight}
    (hread : ofJson? value = some h) : h.Indexed := by
  simp only [ofJson?, Option.bind_eq_bind, Option.bind_eq_some_iff] at hread
  obtain ⟨_, -, _, -, _, -, _, -, highlighted, hhighlighted, dimmed, hdimmed, heq⟩ := hread
  obtain rfl := Option.some.inj heq
  obtain ⟨_, hhighlighted⟩ := exists_of_required? hhighlighted
  obtain ⟨_, hdimmed⟩ := exists_of_required? hdimmed
  exact ⟨lt_indexBound_of_mem_list? hhighlighted, lt_indexBound_of_mem_list? hdimmed⟩

/-- Elements that are read are numbered by indices. -/
theorem Elements.indexed_of_ofJson? {value : Json} {e : Elements}
    (h : ofJson? value = some e) : e.Indexed := by
  simp only [ofJson?, Option.bind_eq_bind, Option.bind_eq_some_iff] at h
  obtain ⟨_, -, _, -, _, -, edges, hedges, _, -, _, -, highlight, hhighlight, heq⟩ := h
  obtain rfl := Option.some.inj heq
  obtain ⟨_, hedges⟩ := exists_of_required? hedges
  constructor
  · intro edge hedge
    obtain ⟨_, hread⟩ := exists_of_mem_list? hedges hedge
    exact EdgeElement.indexed_of_ofJson? hread
  · rintro split rfl
    obtain ⟨_, hread⟩ := exists_of_optional? hhighlight
    exact Highlight.indexed_of_ofJson? hread

/-! ## Texts -/

theorem Graph.read?_compact (g : Graph) : Graph.read? g.toJson.compact = some g := by
  rw [read?, Json.read?_compact g.standsFor_toJson.whole]
  exact g.standsFor_toJson.decoded

theorem Elements.read?_compact {e : Elements} (h : e.Indexed) :
    Elements.read? e.toJson.compact = some e := by
  rw [read?, Json.read?_compact (standsFor_toJson h).whole]
  exact (standsFor_toJson h).decoded

theorem Elements.read?_pretty {e : Elements} (h : e.Indexed) :
    Elements.read? e.toJson.pretty = some e := by
  rw [read?, Json.read?_pretty (standsFor_toJson h).whole]
  exact (standsFor_toJson h).decoded

theorem Elements.indexed_of_read? {text : String} {e : Elements} (h : read? text = some e) :
    e.Indexed := by
  obtain ⟨record, -, hrecord⟩ := Option.bind_eq_some_iff.1 h
  exact indexed_of_ofJson? hrecord

/-- **WHAT IS WRITTEN IS READ BACK**: every graph from its compact text, and all
    elements that are numbered by indices from the texts of both layouts.  So a
    text that was written from what another text stands for is written again
    unchanged. -/
theorem records_round_trip :
    (∀ g : Graph, Graph.read? g.toJson.compact = some g) ∧
      (∀ e : Elements, e.Indexed →
        Elements.read? e.toJson.compact = some e ∧ Elements.read? e.toJson.pretty = some e) ∧
      (∀ text answer, (Graph.read? text).map (·.toJson.compact) = some answer →
        (Graph.read? answer).map (·.toJson.compact) = some answer) ∧
      ∀ text answer, (Elements.read? text).map (·.toJson.compact) = some answer →
        (Elements.read? answer).map (·.toJson.compact) = some answer := by
  refine ⟨Graph.read?_compact, fun e h => ⟨Elements.read?_compact h, Elements.read?_pretty h⟩,
    fun text answer h => ?_, fun text answer h => ?_⟩
  · obtain ⟨g, -, rfl⟩ := Option.map_eq_some_iff.1 h
    rw [g.read?_compact, Option.map_some]
  · obtain ⟨e, hread, rfl⟩ := Option.map_eq_some_iff.1 h
    rw [Elements.read?_compact (Elements.indexed_of_read? hread), Option.map_some]

/-- A label that needs every kind of escape and one that needs none, the greatest
    index, and a list of cycles that is there and empty. -/
theorem records_round_trip_escaped :
    let e : Elements :=
      { direction := "LR"
        nodes := [⟨"a", "\"\\\x07\n\x7f😀", some .circle, none, some "#1b9e77"⟩,
          ⟨"b", "é", none, some "", none⟩]
        edges := [⟨0xFFFFFFFFFFFFFFFF, "a", "b", none, .thickLine, true⟩]
        legend := [⟨"", none⟩]
        cycles := some []
        highlight := some ⟨"a", ["a"], ["b"], [], [0xFFFFFFFFFFFFFFFF]⟩ }
    e.Indexed ∧ Elements.read? e.toJson.compact = some e ∧
      Elements.read? e.toJson.pretty = some e := by
  intro e
  have hindexed : e.Indexed := by
    constructor
    · decide
    · intro split hsplit
      obtain rfl := Option.some.inj hsplit
      exact ⟨by decide, by decide⟩
  exact ⟨hindexed, records_round_trip.2.1 e hindexed⟩

end Flowchart
