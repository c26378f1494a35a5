import Mathlib.Data.List.Sort
import Flowchart.Export.Summary
import Flowchart.Proofs.Export.Consistent
import Flowchart.Proofs.Text.Lines

/-! # Summaries — the figures of the export, printed

    A summary and an export count for themselves.  They arrive at the same figures
    (`Summary.Agrees`): the summary reads off the cycles alone whether to mention
    cyclic edges, which is enough, as a graph without cycles has no cyclic edge
    (`Graph.isAcyclic_iff`), and every place it then prints is an edge, so no line is
    missing.  Where no id and no name breaks a line, the lines of the text are the
    lines printed (`Text.lines_flatMap_newline`). -/

namespace Flowchart

/-! ## Single lines -/

/-- The text has no line feed. -/
def SingleLine (text : String) : Prop := '\n' ∉ text.toList

instance (text : String) : Decidable (SingleLine text) := inferInstanceAs (Decidable (¬_))

namespace SingleLine

variable {text text' : String} {texts : List String}

theorem append (h : SingleLine text) (h' : SingleLine text') : SingleLine (text ++ text') := by
  rw [SingleLine, String.toList_append, List.mem_append, not_or]
  exact ⟨h, h'⟩

theorem repr (n : Nat) : SingleLine (Nat.repr n) := by
  rw [SingleLine, Nat.toList_repr]
  intro hmem
  exact absurd (Nat.isDigit_of_mem_toDigits (by decide) (by decide) hmem) (by decide)

theorem intercalate (h : SingleLine text) (htexts : ∀ part ∈ texts, SingleLine part) :
    SingleLine (text.intercalate texts) := by
  induction texts with
  | nil => exact List.not_mem_nil
  | cons first texts ih =>
      obtain ⟨hfirst, hrest⟩ := List.forall_mem_cons.1 htexts
      cases texts with
      | nil =>
          rw [String.intercalate_singleton]
          exact hfirst
      | cons second texts =>
          rw [String.intercalate_cons_cons]
          exact (hfirst.append h).append (ih hrest)

end SingleLine

/-- Lines that are each ended by a line feed are the lines of the text. -/
theorem Text.lines_flatMap_newline {written : List (List Char)}
    (h : ∀ line ∈ written, '\n' ∉ line) :
    lines (written.flatMap (· ++ ['\n'])) = written.map dropReturn := by
  induction written with
  | nil => exact lines_nil
  | cons line written ih =>
      obtain ⟨hline, hrest⟩ := List.forall_mem_cons.1 h
      rw [List.flatMap_cons, List.append_assoc, List.singleton_append, lines_append_newline hline,
        ih hrest, List.map_cons]

/-! ## Cyclic edges -/

namespace Graph

variable {g : Graph}

/-- The flagged places are the cyclic edges, in order. -/
theorem filter_isCyclicEdge (g : Graph) :
    (List.range g.edges.length).filter (g.cycleReport.isCyclicEdge ·) = g.cyclicEdges := by
  refine (List.pairwise_lt_range.filter _).eq_of_mem_iff g.pairwise_cyclicEdges fun i => ?_
  rw [List.mem_filter, List.mem_range, isCyclicEdge_iff_mem]
  exact and_iff_right_of_imp fun hi => (mem_cyclicEdges_iff_passes.1 hi).1

end Graph

namespace Elements

variable {g : Graph} {config : ExportConfig} {selected : Option String}

/-- As many edges are drawn as cyclic as there are cyclic edges. -/
theorem countP_cyclic :
    (ofGraph g config selected).edges.countP (·.cyclic) = g.cyclicEdges.length := by
  have hedges : (ofGraph g config selected).edges
      = g.edges.zipIdx.map fun p => edgeOf g.cycleReport p.1 p.2 := rfl
  have hplaces : g.edges.zipIdx.map Prod.snd = List.range g.edges.length := by
    rw [List.zipIdx_map_snd, List.range_eq_range']
  calc (ofGraph g config selected).edges.countP (·.cyclic)
      = (g.edges.zipIdx.map Prod.snd).countP (g.cycleReport.isCyclicEdge ·) := by
        rw [hedges, List.countP_map, List.countP_map]
        rfl
    _ = g.cyclicEdges.length := by
        rw [hplaces, List.countP_eq_length_filter, Graph.filter_isCyclicEdge]

/-- No edge is drawn as cyclic exactly when the graph has no cycle. -/
theorem forall_not_cyclic_iff :
    (∀ drawn ∈ (ofGraph g config selected).edges, drawn.cyclic = false) ↔
      g.cycleReport.isAcyclic = true := by
  have hcount : (ofGraph g config selected).edges.countP (·.cyclic) = g.cyclicEdges.length :=
    countP_cyclic
  rw [Graph.isAcyclic_iff, ← List.eq_nil_iff_forall_not_mem, ← List.length_eq_zero_iff, ← hcount,
    List.countP_eq_zero]
  simp only [Bool.not_eq_true]

end Elements

/-! ## Figures -/

namespace Summary

/-- What the lines that begin with `lead` say behind it. -/
def figures (lead : String) (printed : List String) : List String :=
  printed.filterMap fun line => (Text.after? lead.toList line.toList).map String.ofList

/-- No text begins with both leads. -/
def Apart (lead other : String) : Prop :=
  Text.after? lead.toList other.toList = none ∧ Text.after? other.toList lead.toList = none

variable {lead other rest : String} {printed printed' : List String}

instance : Decidable (Apart lead other) := inferInstanceAs (Decidable (_ ∧ _))

theorem after?_of_apart (h : Apart lead other) (rest : String) :
    Text.after? lead.toList (other ++ rest).toList = none := by
  rw [Option.eq_none_iff_forall_ne_some]
  intro left hleft
  rw [Text.after?_eq_some_iff, String.toList_append] at hleft
  rcases List.append_eq_append_iff.1 hleft with ⟨middle, hmiddle, -⟩ | ⟨middle, hmiddle, -⟩
  · exact nomatch (Text.after?_eq_some_iff.2 hmiddle).symm.trans h.2
  · exact nomatch (Text.after?_eq_some_iff.2 hmiddle).symm.trans h.1

theorem figures_nil : figures lead [] = [] := rfl

theorem figures_append : figures lead (printed ++ printed')
    = figures lead printed ++ figures lead printed' :=
  List.filterMap_append

theorem figures_cons_lead : figures lead ((lead ++ rest) :: printed)
    = rest :: figures lead printed := by
  have hafter : Text.after? lead.toList (lead ++ rest).toList = some rest.toList :=
    Text.after?_eq_some_iff.2 String.toList_append
  rw [figures, List.filterMap_cons, hafter, Option.map_some, String.ofList_toList]
  rfl

theorem figures_cons_apart (h : Apart lead other) : figures lead ((other ++ rest) :: printed)
    = figures lead printed := by
  rw [figures, List.filterMap_cons, after?_of_apart h]
  rfl

/-- Lines without figures below a heading can be left out. -/
theorem figures_cons_append {heading : String} (h : figures lead printed = []) :
    figures lead (heading :: printed ++ printed') = figures lead (heading :: printed') := by
  show figures lead ([heading] ++ printed ++ printed') = figures lead ([heading] ++ printed')
  rw [figures_append, figures_append, h, List.append_nil, figures_append]

theorem figures_eq_nil (h : ∀ line ∈ printed, ∃ other rest, Apart lead other ∧
    line = other ++ rest) : figures lead printed = [] := by
  rw [figures, List.filterMap_eq_nil_iff]
  intro line hline
  obtain ⟨other, rest, hother, rfl⟩ := h line hline
  rw [after?_of_apart hother]
  rfl

theorem mem_figures_iff : rest ∈ figures lead printed ↔ lead ++ rest ∈ printed := by
  rw [figures, List.mem_filterMap]
  constructor
  · rintro ⟨line, hline, hrest⟩
    obtain ⟨left, hleft, rfl⟩ := Option.map_eq_some_iff.1 hrest
    rw [Text.after?_eq_some_iff] at hleft
    have heq : lead ++ String.ofList left = line := by
      rw [← String.toList_inj, String.toList_append, String.toList_ofList, hleft]
    exact heq ▸ hline
  · intro hline
    refine ⟨_, hline, ?_⟩
    rw [Text.after?_eq_some_iff.2 String.toList_append, Option.map_some, String.ofList_toList]

end Summary

/-! ## The lines of a summary -/

namespace Summary

variable {g : Graph} {selected : Option String} {lead : String}

theorem cycleLines_of_acyclic (h : g.cycleReport.isAcyclic = true) :
    cycleLines g = ["cycles: none"] :=
  if_pos h

theorem cycleLines_of_cyclic (h : g.cycleReport.isAcyclic = false) :
    cycleLines g = ("cycles: " ++ Nat.repr g.simpleCycles.length) :: g.simpleCycles.map cycleLine
      ++ ("cyclic edges: " ++ Nat.repr g.cyclicEdges.length)
        :: g.cyclicEdges.filterMap (edgeLine g) := by
  have hsize : g.cycleReport.cyclicEdges.size = g.cyclicEdges.length := List.size_toArray
  rw [cycleLines, if_neg (by rw [h]; exact Bool.false_ne_true), hsize]
  rfl

/-- Every cyclic edge has its line. -/
theorem length_filterMap_edgeLine (g : Graph) :
    (g.cyclicEdges.filterMap (edgeLine g)).length = g.cyclicEdges.length := by
  rw [List.length_filterMap_eq_countP, List.countP_eq_length]
  intro i hi
  have hlt := (Graph.mem_cyclicEdges_iff_passes.1 hi).1
  rw [edgeLine, List.getElem?_eq_getElem hlt]
  rfl

theorem length_cycleLines (g : Graph) : (cycleLines g).length
    = 1 + if 0 < g.simpleCycles.length then g.simpleCycles.length + 1 + g.cyclicEdges.length
      else 0 := by
  cases h : g.cycleReport.isAcyclic with
  | true =>
      have hnone : g.simpleCycles = [] := List.isEmpty_iff.1 h
      rw [cycleLines_of_acyclic h, hnone]
      rfl
  | false =>
      have hsome : 0 < g.simpleCycles.length := by
        rw [List.length_pos_iff, ne_eq, ← List.isEmpty_iff]
        exact Bool.eq_false_iff.1 h
      rw [cycleLines_of_cyclic h, if_pos hsome, List.length_append, List.length_cons,
        List.length_cons, List.length_map, length_filterMap_edgeLine]
      omega

theorem length_lines (g : Graph) (selected : Option String) : (lines g selected).length
    = 5 + g.subgraphs.length
      + (if 0 < g.simpleCycles.length then g.simpleCycles.length + 1 + g.cyclicEdges.length else 0)
      + if selected.isSome then 3 else 0 := by
  have hselection : ((selected.map (selectionLines g)).getD []).length
      = if selected.isSome then 3 else 0 := by
    cases selected <;> rfl
  rw [lines, List.length_append, List.length_append, List.length_append, List.length_map,
    length_cycleLines, hselection, List.length_cons, List.length_cons, List.length_cons,
    List.length_cons, List.length_nil]
  omega

/-! ### The outline -/

/-- The line begins with two blanks. -/
def Indented (line : String) : Prop := ∃ rest, line = "  " ++ rest

theorem Indented.append {line : String} (h : Indented line) (rest : String) :
    Indented (line ++ rest) := by
  obtain ⟨front, rfl⟩ := h
  exact ⟨front ++ rest, String.append_assoc⟩

theorem figures_eq_nil_of_indented (h : Apart lead "  ") {printed : List String}
    (hindented : ∀ line ∈ printed, Indented line) : figures lead printed = [] :=
  figures_eq_nil fun line hline => ⟨"  ", (hindented line hline).imp fun _ heq => ⟨h, heq⟩⟩

theorem indented_of_edgeLine {i : Nat} {line : String} (h : edgeLine g i = some line) :
    Indented line := by
  obtain ⟨e, -, rfl⟩ := Option.map_eq_some_iff.1 h
  have hlead : Indented "  #" := ⟨"#", rfl⟩
  exact ((((hlead.append _).append _).append _).append _).append _

/-- What is said of the cycles, without the cycles. -/
def cycleOutline (g : Graph) : List String :=
  if g.cycleReport.isAcyclic then ["cycles: " ++ "none"]
  else ["cycles: " ++ Nat.repr g.simpleCycles.length,
    "cyclic edges: " ++ Nat.repr g.cyclicEdges.length]

/-- The lines that are not indented, that of the selection left out. -/
def outline (g : Graph) : List String :=
  ["flowchart " ++ g.direction,
   "nodes: " ++ Nat.repr g.nodeNames.length,
   "edges: " ++ Nat.repr g.edges.length,
   "subgraphs: " ++ Nat.repr g.subgraphs.length]
    ++ cycleOutline g

theorem figures_cycleLines (h : Apart lead "  ") :
    figures lead (cycleLines g) = figures lead (cycleOutline g) := by
  rw [cycleOutline]
  cases hacyclic : g.cycleReport.isAcyclic with
  | true =>
      rw [cycleLines_of_acyclic hacyclic]
      rfl
  | false =>
      have hcycles : figures lead (g.simpleCycles.map cycleLine) = [] :=
        figures_eq_nil_of_indented h (List.forall_mem_map.2 fun _ _ => ⟨_, rfl⟩)
      have hedges : figures lead (g.cyclicEdges.filterMap (edgeLine g)) = [] := by
        refine figures_eq_nil_of_indented h fun line hline => ?_
        obtain ⟨i, -, hprinted⟩ := List.mem_filterMap.1 hline
        exact indented_of_edgeLine hprinted
      rw [cycleLines_of_cyclic hacyclic, figures_cons_append hcycles]
      show figures lead ([_, _] ++ g.cyclicEdges.filterMap (edgeLine g)) = _
      rw [figures_append, hedges, List.append_nil]
      rfl

/-- Neither the indented lines nor that of the selection give figures. -/
theorem figures_lines (hindent : Apart lead "  ") (hselected : Apart lead "selected: ") :
    figures lead (lines g selected) = figures lead (outline g) := by
  have hsubgraphs : figures lead (g.subgraphs.map subgraphLine) = [] :=
    figures_eq_nil_of_indented hindent <| List.forall_mem_map.2 fun s _ =>
      (Indented.append ⟨s.name, rfl⟩ _).append _
  have hselection : figures lead ((selected.map (selectionLines g)).getD []) = [] := by
    cases selected with
    | none => rfl
    | some node =>
        refine (figures_cons_apart hselected).trans (figures_eq_nil_of_indented hindent ?_)
        rw [List.forall_mem_cons, List.forall_mem_singleton]
        exact ⟨Indented.append ⟨"highlighted: ", rfl⟩ _, Indented.append ⟨"dimmed: ", rfl⟩ _⟩
  rw [lines, figures_append, figures_append, figures_append, hsubgraphs, hselection,
    figures_cycleLines hindent, List.append_nil, List.append_nil, outline, figures_append]

/-- The counts give the figures of a lead that is none of the cycles. -/
theorem figures_outline (hcycles : Apart lead "cycles: ") (hedges : Apart lead "cyclic edges: ") :
    figures lead (outline g) = figures lead
      ["flowchart " ++ g.direction,
       "nodes: " ++ Nat.repr g.nodeNames.length,
       "edges: " ++ Nat.repr g.edges.length,
       "subgraphs: " ++ Nat.repr g.subgraphs.length] := by
  have hnil : figures lead (cycleOutline g) = [] := by
    rw [cycleOutline]
    split
    · exact figures_cons_apart hcycles
    · exact (figures_cons_apart hcycles).trans (figures_cons_apart hedges)
  rw [outline, figures_append, hnil, List.append_nil]

theorem figures_nodes : figures "nodes: " (lines g selected) = [Nat.repr g.nodeNames.length] := by
  rw [figures_lines (by decide) (by decide), figures_outline (by decide) (by decide)]
  simp (disch := decide) only [figures_cons_lead, figures_cons_apart, figures_nil]

theorem figures_edges : figures "edges: " (lines g selected) = [Nat.repr g.edges.length] := by
  rw [figures_lines (by decide) (by decide), figures_outline (by decide) (by decide)]
  simp (disch := decide) only [figures_cons_lead, figures_cons_apart, figures_nil]

theorem figures_subgraphs :
    figures "subgraphs: " (lines g selected) = [Nat.repr g.subgraphs.length] := by
  rw [figures_lines (by decide) (by decide), figures_outline (by decide) (by decide)]
  simp (disch := decide) only [figures_cons_lead, figures_cons_apart, figures_nil]

/-- The outline gives the figures of the cycles behind the counts. -/
theorem figures_cycleOutline (hdirection : Apart lead "flowchart ") (hnodes : Apart lead "nodes: ")
    (hedges : Apart lead "edges: ") (hsubgraphs : Apart lead "subgraphs: ") :
    figures lead (outline g) = figures lead (cycleOutline g) := by
  rw [outline, figures_append, figures_cons_apart hdirection, figures_cons_apart hnodes,
    figures_cons_apart hedges, figures_cons_apart hsubgraphs]
  rfl

theorem figures_cycles : figures "cycles: " (lines g selected)
    = [if g.cycleReport.isAcyclic then "none" else Nat.repr g.simpleCycles.length] := by
  rw [figures_lines (by decide) (by decide),
    figures_cycleOutline (by decide) (by decide) (by decide) (by decide), cycleOutline]
  split
  · exact figures_cons_lead
  · exact figures_cons_lead.trans (congrArg _ (figures_cons_apart (by decide)))

theorem figures_cyclicEdges : figures "cyclic edges: " (lines g selected)
    = if g.cycleReport.isAcyclic then [] else [Nat.repr g.cyclicEdges.length] := by
  rw [figures_lines (by decide) (by decide),
    figures_cycleOutline (by decide) (by decide) (by decide) (by decide), cycleOutline]
  split
  · exact figures_cons_apart (by decide)
  · exact (figures_cons_apart (by decide)).trans figures_cons_lead

/-! ### Unbroken lines -/

/-- All names and ids that are printed stay on their lines. -/
structure Unbroken (g : Graph) (selected : Option String) : Prop where
  direction : SingleLine g.direction
  names : ∀ s ∈ g.subgraphs, SingleLine s.name
  ids : ∀ id ∈ g.nodeNames, SingleLine id
  selection : ∀ id ∈ selected, SingleLine id

namespace Unbroken

theorem subgraphLine (h : Unbroken g selected) {s : Subgraph} (hs : s ∈ g.subgraphs) :
    SingleLine (subgraphLine s) := by
  have hmembers : SingleLine (", ".intercalate s.nodes) :=
    SingleLine.intercalate (by decide) fun id hid =>
      h.ids id (Graph.mem_nodeNames.2 (Or.inl ⟨s, hs, hid⟩))
  have hlead : SingleLine ("  " ++ s.name) := SingleLine.append (by decide) (h.names s hs)
  exact (hlead.append (by decide)).append hmembers

theorem cycleLine (h : Unbroken g selected) {cycle : List String}
    (hcycle : cycle ∈ g.simpleCycles) : SingleLine (cycleLine cycle) := by
  refine SingleLine.append (by decide) (SingleLine.intercalate (by decide) fun id hid => ?_)
  refine h.ids id (Elements.mem_nodeNames_of_cycle hcycle ?_)
  rcases List.mem_append.1 hid with hid | hid
  · exact hid
  · exact List.mem_of_mem_head? (Option.mem_toList.1 hid)

theorem edgeLine (h : Unbroken g selected) {i : Nat} {line : String}
    (hline : edgeLine g i = some line) : SingleLine line := by
  obtain ⟨e, he, rfl⟩ := Option.map_eq_some_iff.1 hline
  obtain ⟨hsource, htarget⟩ :=
    Graph.Leads.mem_nodeNames (g := g) ⟨e, List.mem_of_getElem? he, rfl, rfl⟩
  have hlead : SingleLine ("  #" ++ Nat.repr i ++ " ") :=
    (SingleLine.append (by decide) (SingleLine.repr i)).append (by decide)
  exact ((hlead.append (h.ids _ hsource)).append (by decide)).append (h.ids _ htarget)

theorem cycleLines (h : Unbroken g selected) : ∀ line ∈ cycleLines g, SingleLine line := by
  cases hacyclic : g.cycleReport.isAcyclic with
  | true =>
      rw [cycleLines_of_acyclic hacyclic, List.forall_mem_singleton]
      decide
  | false =>
      rw [cycleLines_of_cyclic hacyclic, List.forall_mem_append, List.forall_mem_cons,
        List.forall_mem_cons, List.forall_mem_map]
      refine ⟨⟨SingleLine.append (by decide) (SingleLine.repr _), fun cycle => h.cycleLine⟩,
        SingleLine.append (by decide) (SingleLine.repr _), fun line hline => ?_⟩
      obtain ⟨i, -, hprinted⟩ := List.mem_filterMap.1 hline
      exact h.edgeLine hprinted

theorem selectionLines (h : Unbroken g selected) {node : String} (hnode : node ∈ selected) :
    ∀ line ∈ selectionLines g node, SingleLine line := by
  have hkept : ∀ id ∈ (g.highlight node).highlightedNodes, SingleLine id := by
    intro id hid
    rcases (g.splits_nodes node).together id |>.1 (Or.inl hid) with hmem | rfl
    · exact h.ids id hmem
    · exact h.selection _ hnode
  have hdimmed : ∀ id ∈ (g.highlight node).dimmedNodes, SingleLine id := fun id hid =>
    h.ids id (Graph.mem_dimmedNodes_iff.1 hid).1
  rw [Summary.selectionLines, List.forall_mem_cons, List.forall_mem_cons, List.forall_mem_singleton]
  exact ⟨SingleLine.append (by decide) (h.selection node hnode),
    SingleLine.append (by decide) (SingleLine.intercalate (by decide) hkept),
    SingleLine.append (by decide) (SingleLine.intercalate (by decide) hdimmed)⟩

/-- **NO LINE IS BROKEN**. -/
theorem lines (h : Unbroken g selected) : ∀ line ∈ lines g selected, SingleLine line := by
  have hselection : ∀ line ∈ (selected.map (Summary.selectionLines g)).getD [],
      SingleLine line := by
    cases hselected : selected with
    | none => exact fun line hline => nomatch hline
    | some node => exact h.selectionLines hselected
  rw [Summary.lines, List.forall_mem_append, List.forall_mem_append, List.forall_mem_append,
    List.forall_mem_map, List.forall_mem_cons, List.forall_mem_cons, List.forall_mem_cons,
    List.forall_mem_singleton]
  exact ⟨⟨⟨⟨SingleLine.append (by decide) h.direction,
    SingleLine.append (by decide) (SingleLine.repr _),
    SingleLine.append (by decide) (SingleLine.repr _),
    SingleLine.append (by decide) (SingleLine.repr _)⟩,
    fun s => h.subgraphLine⟩, h.cycleLines⟩, hselection⟩

end Unbroken

/-! ## The summary and the export -/

theorem toList_summary (g : Graph) (selected : Option String) : (g.summary selected).toList
    = ((lines g selected).map String.toList).flatMap (· ++ ['\n']) := by
  rw [Graph.summary, String.toList_join, List.flatMap_map, List.flatMap_map]
  exact congrArg (List.flatMap · _) (funext fun line => String.toList_append)

/-- The text ends with the line feed of its last line. -/
theorem getLast?_summary (g : Graph) (selected : Option String) :
    (g.summary selected).toList.getLast? = some '\n' := by
  have hne : (lines g selected).map String.toList ≠ [] := by
    rw [ne_eq, List.map_eq_nil_iff, ← List.length_eq_zero_iff, length_lines]
    omega
  rw [toList_summary, ← List.dropLast_append_getLast hne, List.flatMap_append,
    List.flatMap_singleton, ← List.append_assoc, List.getLast?_concat]

theorem Unbroken.lines_summary (h : Unbroken g selected) :
    Text.lines (g.summary selected).toList
      = (Summary.lines g selected).map fun line => Text.dropReturn line.toList := by
  rw [toList_summary, Text.lines_flatMap_newline (List.forall_mem_map.2 h.lines), List.map_map]
  rfl

/-- The lines `printed` give the figures of the elements `e` with the cycles
    `cycles`. -/
structure Agrees (printed : List String) (e : Elements) (cycles : List (List String)) : Prop where
  nodes : figures "nodes: " printed = [Nat.repr e.nodes.length]
  edges : figures "edges: " printed = [Nat.repr e.edges.length]
  subgraphs : figures "subgraphs: " printed = [Nat.repr e.legend.length]
  /-- Without a cyclic edge there is nothing to be said of cycles. -/
  none_iff : "cycles: none" ∈ printed ↔ ∀ drawn ∈ e.edges, drawn.cyclic = false
  none_found : (∀ drawn ∈ e.edges, drawn.cyclic = false) →
    cycles = [] ∧ figures "cycles: " printed = ["none"] ∧ figures "cyclic edges: " printed = []
  some_found : (∃ drawn ∈ e.edges, drawn.cyclic = true) →
    figures "cycles: " printed = [Nat.repr cycles.length] ∧
      figures "cyclic edges: " printed = [Nat.repr (e.edges.countP (·.cyclic))]

variable {config : ExportConfig}

/-- A number is not the word for none. -/
theorem repr_ne_none (n : Nat) : Nat.repr n ≠ "none" := by
  intro heq
  have hmem : 'n' ∈ Nat.toDigits 10 n := by
    rw [← Nat.toList_repr, heq]
    decide
  exact absurd (Nat.isDigit_of_mem_toDigits (by decide) (by decide) hmem) (by decide)

theorem agrees_ofGraph :
    Agrees (lines g selected) (Elements.ofGraph g config selected) g.simpleCycles := by
  have hfits := Elements.consistent_ofGraph g config selected
  have hnodes : (Elements.ofGraph g config selected).nodes.length = g.nodeNames.length :=
    List.length_map _
  have hcyclic : (∃ drawn ∈ (Elements.ofGraph g config selected).edges, drawn.cyclic = true) →
      g.cycleReport.isAcyclic = false := by
    rintro ⟨drawn, hdrawn, hcyclic⟩
    refine Bool.eq_false_iff.2 fun hacyclic => ?_
    rw [Elements.forall_not_cyclic_iff.2 hacyclic drawn hdrawn] at hcyclic
    exact nomatch hcyclic
  refine ⟨?_, ?_, ?_, ?_, fun hnone => ?_, fun hsome => ?_⟩
  · rw [figures_nodes, hnodes]
  · rw [figures_edges, hfits.edge_count]
  · rw [figures_subgraphs, hfits.legend_count]
  · have hline : "cycles: none" = "cycles: " ++ "none" := rfl
    rw [Elements.forall_not_cyclic_iff, hline, ← mem_figures_iff, figures_cycles,
      List.mem_singleton]
    split
    · next h => simp [h]
    · next h => simp [h, (repr_ne_none _).symm]
  · have hacyclic := Elements.forall_not_cyclic_iff.1 hnone
    rw [figures_cycles, figures_cyclicEdges, if_pos hacyclic, if_pos hacyclic]
    exact ⟨List.isEmpty_iff.1 hacyclic, rfl, rfl⟩
  · have hfalse : ¬ g.cycleReport.isAcyclic = true := Bool.eq_false_iff.1 (hcyclic hsome)
    rw [figures_cycles, figures_cyclicEdges, if_neg hfalse, if_neg hfalse,
      Elements.countP_cyclic]
    exact ⟨rfl, rfl⟩

end Summary

/-- **THE SUMMARY AGREES WITH THE EXPORT**: its figures are the lengths of what is
    drawn, and it says that there are no cycles exactly when no edge is drawn as
    cyclic.  Where no name breaks a line, the text has a line for each count, each
    subgraph, each cycle and each cyclic edge. -/
theorem Graph.summary_agrees (g : Graph) (config : ExportConfig) (selected : Option String) :
    let e := Elements.ofGraph g { config with includeCycles := true } selected
    ∃ cycles, e.cycles = some cycles ∧
      Summary.Agrees (Summary.lines g selected) e cycles ∧
      g.summary selected = String.join ((Summary.lines g selected).map (· ++ "\n")) ∧
      (g.summary selected).toList.getLast? = some '\n' ∧
      (Summary.Unbroken g selected →
        Text.lines (g.summary selected).toList
            = (Summary.lines g selected).map (fun line => Text.dropReturn line.toList) ∧
          (Text.lines (g.summary selected).toList).length
            = 5 + e.legend.length
              + (if 0 < cycles.length then cycles.length + 1 + e.edges.countP (·.cyclic) else 0)
              + if selected.isSome then 3 else 0) := by
  intro e
  have hlegend : e.legend.length = g.subgraphs.length :=
    (Elements.consistent_ofGraph g { config with includeCycles := true } selected).legend_count
  refine ⟨g.simpleCycles, rfl, Summary.agrees_ofGraph, rfl, Summary.getLast?_summary g selected,
    fun h => ⟨h.lines_summary, ?_⟩⟩
  rw [h.lines_summary, List.length_map, Summary.length_lines, hlegend, Elements.countP_cyclic]

/-- A subgraph, a cycle of two edges that an edge leaves, and a selection. -/
theorem Graph.summary_agrees_selected_target :
    let g : Graph :=
      { direction := "LR"
        subgraphs := [⟨"s", ["a"]⟩]
        edges := [⟨"a", "b", none, .arrow⟩, ⟨"b", "a", none, .arrow⟩,
          ⟨"b", "c", none, .arrow⟩] }
    let e := Elements.ofGraph g { includeCycles := true } (some "c")
    Summary.Unbroken g (some "c") ∧ e.cycles = some [["a", "b"]] ∧
      Summary.Agrees (Summary.lines g (some "c")) e [["a", "b"]] ∧
      (Text.lines (g.summary (some "c")).toList).length = 5 + 1 + (1 + 1 + 2) + 3 := by
  intro g e
  have hunbroken : Summary.Unbroken g (some "c") :=
    ⟨by decide, by decide, by decide +kernel +zetaReduce, by decide +kernel +zetaReduce⟩
  have hexported : e.cycles = some [["a", "b"]] := by decide +kernel +zetaReduce
  have hcyclic : e.edges.countP (·.cyclic) = 2 := by decide +kernel +zetaReduce
  obtain ⟨cycles, hcycles, hagrees, -, -, hlines⟩ := g.summary_agrees {} (some "c")
  obtain rfl : cycles = [["a", "b"]] := Option.some.inj (hcycles.symm.trans hexported)
  refine ⟨hunbroken, hexported, hagrees, (hlines hunbroken).2.trans ?_⟩
  rw [hcyclic]
  rfl

end Flowchart
