import Flowchart.Proofs.Builder.Effect
import Flowchart.Proofs.Parse.WellFormed

/-! # Origins — which line a node comes from

    A builder gains no node but those that an operation offers
    (`Builder.mentions_run`), and a line offers no id but those it names: the nodes of
    its chain, or the one it declares (`Statement.names`).  So every node of a graph is
    named by a line (`exists_line_of_mem_nodeNames`).  The reserved words are kept out
    of declarations only.  A line that is read as a chain may name them like any other
    ids, and there is no other way for one to become a node (`reserved_node_iff`). -/

namespace Flowchart

open Operation

/-! ## Operations -/

namespace Builder

variable {b : Builder} {id : String}

theorem mentions_addMember {other : String} (h : (b.addMember other).Mentions id) :
    b.Mentions id ∨ id = other := by
  rcases mentions_iff.1 h with ⟨s, hs, hid⟩ | hedge
  · rcases mem_subgraphs_addMember.1 hs with hclosed | ⟨c, hcurrent, rfl⟩
    · exact Or.inl (mentions_iff.2 (Or.inl ⟨s, mem_subgraphs_iff.2 (Or.inl hclosed), hid⟩))
    · refine (Subgraph.mem_nodes_add.1 hid).imp_left fun hmember => ?_
      exact mentions_iff.2 (Or.inl ⟨c, mem_subgraphs_iff.2 (Or.inr hcurrent), hmember⟩)
  · exact Or.inl (mentions_iff.2 (Or.inr hedge))

/-- **NO NODE BUT THOSE OFFERED** comes from an operation. -/
theorem mentions_apply {op : Operation} (h : (b.apply op).Mentions id) :
    b.Mentions id ∨ id ∈ op.offered := by
  cases op with
  | openSubgraph name =>
      rcases mentions_iff.1 h with ⟨s, hs, hid⟩ | hedge
      · rcases List.mem_append.1 hs with hold | hnew
        · exact Or.inl (mentions_iff.2 (Or.inl ⟨s, hold, hid⟩))
        · rw [List.mem_singleton.1 hnew] at hid
          exact absurd hid List.not_mem_nil
      · exact Or.inl (mentions_iff.2 (Or.inr hedge))
  | closeSubgraph =>
      left
      have hclosed := mentions_iff.1 h
      rw [apply, subgraphs_closeSubgraph] at hclosed
      exact mentions_iff.2 hclosed
  | addMember other => exact (mentions_addMember h).imp_right List.mem_singleton.2
  | setLabel other d => exact Or.inl h
  | pushEdge e =>
      rcases mentions_iff.1 h with hmember | ⟨other, hother, hend⟩
      · have hboth : ((b.addMember e.source).addMember e.target).Mentions id :=
          mentions_iff.2 (Or.inl hmember)
        rcases mentions_addMember hboth with hsource | rfl
        · refine (mentions_addMember hsource).imp_right ?_
          rintro rfl
          exact List.mem_cons_self
        · exact Or.inr (List.mem_cons_of_mem _ List.mem_cons_self)
      · rw [apply, edges_pushEdge, List.mem_append, List.mem_singleton] at hother
        rcases hother with hold | rfl
        · exact Or.inl (mentions_iff.2 (Or.inr ⟨other, hold, hend⟩))
        · right
          rcases hend with rfl | rfl
          · exact List.mem_cons_self
          · exact List.mem_cons_of_mem _ List.mem_cons_self

theorem mentions_run {ops : List Operation} (h : (b.run ops).Mentions id) :
    b.Mentions id ∨ ∃ op ∈ ops, id ∈ op.offered := by
  induction ops generalizing b with
  | nil => exact Or.inl h
  | cons op ops ih =>
      rw [run_cons] at h
      rcases ih h with hfirst | ⟨later, hlater, hid⟩
      · exact (mentions_apply hfirst).imp_right fun hid => ⟨op, List.mem_cons_self, hid⟩
      · exact Or.inr ⟨later, List.mem_cons_of_mem op hlater, hid⟩

end Builder

/-! ## Lines -/

namespace Statement

/-- The ids that a statement names. -/
def names : Statement → List String
  | edges chain => chain.tokens.map (·.id)
  | declaration token => [token.id]
  | blank | comment | direction | styling | openSubgraph _ | closeSubgraph | other => []

/-- The ends of the edges of a chain are ids of its nodes. -/
theorem mem_names_of_edge {chain : Chain} {e : Edge} {id : String} (he : e ∈ chain.edges)
    (hend : id = e.source ∨ id = e.target) : id ∈ (edges chain).names := by
  obtain ⟨hsource, htarget, -⟩ := Chain.of_mem_edgesFrom he
  have hids : (edges chain).names = chain.first.id :: chain.hops.map (·.target.id) := by
    rw [names, Chain.tokens, List.map_cons, List.map_map]
    rfl
  rw [hids]
  rcases hend with rfl | rfl
  · exact hsource
  · exact htarget

/-- A statement offers what it names. -/
theorem mem_names_of_offered {inside : Bool} {s : Statement} {op : Operation} {id : String}
    (hop : op ∈ s.operations inside) (hid : id ∈ op.offered) : id ∈ s.names := by
  cases s with
  | blank | comment | direction | styling | other => exact absurd hop List.not_mem_nil
  | openSubgraph name =>
      rw [List.mem_singleton.1 hop] at hid
      exact absurd hid List.not_mem_nil
  | closeSubgraph =>
      rw [List.mem_singleton.1 hop] at hid
      exact absurd hid List.not_mem_nil
  | edges chain =>
      rcases mem_operations_edges hop with ⟨token, -, d, rfl⟩ | ⟨e, he, rfl⟩
      · exact absurd hid List.not_mem_nil
      · have hend : id = e.source ∨ id = e.target := by simpa [offered] using hid
        exact mem_names_of_edge he hend
  | declaration token =>
      cases inside with
      | false => exact absurd hop List.not_mem_nil
      | true =>
          rcases mem_operations_declaration hop with rfl | ⟨d, rfl⟩
          · exact hid
          · exact absurd hid List.not_mem_nil

/-- A reserved word is named by a chain, if by any line. -/
theorem exists_chain_of_reserved {line : List Char} {id : String} (hid : id ∈ (read line).names)
    (hreserved : isReserved id = true) :
    ∃ chain, read line = edges chain ∧ ∃ token ∈ chain.tokens, id = token.id := by
  have hread := readFrom_read line
  cases h : read line with
  | blank | comment | direction | styling | openSubgraph | closeSubgraph | other =>
      rw [h] at hid
      exact absurd hid List.not_mem_nil
  | edges chain =>
      rw [h] at hid
      obtain ⟨token, htoken, heq⟩ := List.mem_map.1 hid
      exact ⟨chain, rfl, token, htoken, heq.symm⟩
  | declaration token =>
      rw [h] at hid hread
      have hfree := not_reserved_of_readDeclaration? hread
      rw [← List.mem_singleton.1 hid, hreserved] at hfree
      exact nomatch hfree

end Statement

namespace Builder

variable {b : Builder} {id : String}

theorem mentions_readLine {line : List Char} (h : (b.readLine line).1.Mentions id) :
    b.Mentions id ∨ id ∈ (Statement.read line).names := by
  rw [readLine, execute_eq_run] at h
  refine (mentions_run h).imp_right ?_
  rintro ⟨op, hop, hid⟩
  exact Statement.mem_names_of_offered hop hid

theorem edges_readLine (b : Builder) (line : List Char) :
    (b.readLine line).1.edges = b.edges ++ (Statement.read line).added := by
  rw [readLine, execute_eq_run, edges_run, Statement.pushed_operations]

/-- **EVERY NODE HAS A LINE** that names it, unless it was there before. -/
theorem mentions_readSignificant {body : List (List Char)}
    (h : (b.readSignificant body).Mentions id) :
    b.Mentions id ∨ ∃ line ∈ body, id ∈ (Statement.read line).names := by
  induction body generalizing b with
  | nil => exact Or.inl h
  | cons line body ih =>
      have hrest : ((b.readLine line).1.readSignificant body).Mentions id := h
      rcases ih hrest with hfirst | ⟨later, hlater, hid⟩
      · exact (mentions_readLine hfirst).imp_right fun hid => ⟨line, List.mem_cons_self, hid⟩
      · exact Or.inr ⟨later, List.mem_cons_of_mem line hlater, hid⟩

theorem edges_readSignificant (b : Builder) (body : List (List Char)) :
    (b.readSignificant body).edges
      = b.edges ++ body.flatMap fun line => (Statement.read line).added := by
  induction body generalizing b with
  | nil => exact (List.append_nil _).symm
  | cons line body ih =>
      show ((b.readLine line).1.readSignificant body).edges = _
      rw [ih, edges_readLine, List.flatMap_cons, List.append_assoc]

end Builder

/-! ## Graphs of texts -/

section Parsed

variable {source : String} {g : Graph} {id : String}

/-- The edges of a graph are those of its lines, one line after the other. -/
theorem edges_of_parse (h : parse source = .ok g) :
    g.edges = (Text.significantLines source.toList).tail.flatMap
      fun line => (Statement.read line).added := by
  obtain ⟨header, body, direction, hlines, -, rfl⟩ := exists_lines_of_parse h
  rw [hlines]
  exact Builder.edges_readSignificant _ body

theorem exists_line_of_mem_nodeNames (h : parse source = .ok g) (hid : id ∈ g.nodeNames) :
    ∃ line ∈ (Text.significantLines source.toList).tail, id ∈ (Statement.read line).names := by
  obtain ⟨header, body, direction, hlines, -, rfl⟩ := exists_lines_of_parse h
  rw [hlines]
  refine (Builder.mentions_readSignificant hid).resolve_left fun hnew => ?_
  rcases Builder.mentions_iff.1 hnew with ⟨s, hs, -⟩ | ⟨e, he, -⟩
  · exact absurd hs List.not_mem_nil
  · exact absurd he List.not_mem_nil

/-- **A RESERVED WORD IS A NODE WHERE A CHAIN NAMES IT**, and nowhere else: it is a
    node exactly if it is an end of an edge, and exactly if it stands in the chain of
    some line after the header.  A declaration never makes it one. -/
theorem reserved_node_iff (h : parse source = .ok g) (hreserved : isReserved id = true) :
    (id ∈ g.nodeNames ↔ ∃ e ∈ g.edges, id = e.source ∨ id = e.target) ∧
      (id ∈ g.nodeNames ↔ ∃ line ∈ (Text.significantLines source.toList).tail, ∃ chain,
        Statement.read line = .edges chain ∧ ∃ token ∈ chain.tokens, id = token.id) := by
  have hchain : id ∈ g.nodeNames → ∃ line ∈ (Text.significantLines source.toList).tail, ∃ chain,
      Statement.read line = .edges chain ∧ ∃ token ∈ chain.tokens, id = token.id := by
    intro hid
    obtain ⟨line, hline, hnamed⟩ := exists_line_of_mem_nodeNames h hid
    exact ⟨line, hline, Statement.exists_chain_of_reserved hnamed hreserved⟩
  have hedge : (∃ line ∈ (Text.significantLines source.toList).tail, ∃ chain,
      Statement.read line = .edges chain ∧ ∃ token ∈ chain.tokens, id = token.id) →
        ∃ e ∈ g.edges, id = e.source ∨ id = e.target := by
    rintro ⟨line, hline, chain, hread, token, htoken, rfl⟩
    obtain ⟨e, he, hend⟩ := Chain.exists_edge (Statement.hops_ne_nil_of_read hread) token htoken
    refine ⟨e, ?_, hend⟩
    rw [edges_of_parse h, List.mem_flatMap]
    refine ⟨line, hline, ?_⟩
    rw [hread]
    exact he
  have hnode : (∃ e ∈ g.edges, id = e.source ∨ id = e.target) → id ∈ g.nodeNames := by
    intro hend
    exact Graph.mem_nodeNames.2 (Or.inr hend)
  exact ⟨⟨fun hid => hedge (hchain hid), hnode⟩, ⟨hchain, fun hline => hnode (hedge hline)⟩⟩

end Parsed

/-- A word that stands alone in a subgraph is left out, and one in a chain is not. -/
theorem reserved_node_iff_click :
    let source := "graph TD\nsubgraph s\nstyle\nclick--> a\nend"
    let g : Graph :=
      { direction := "TD"
        subgraphs := [⟨"s", ["click", "a"]⟩]
        edges := [⟨"click", "a", none, .arrow⟩]
        labels := ∅
        shapes := ∅ }
    parse source = .ok g ∧ isReserved "click" = true ∧ isReserved "style" = true ∧
      "click" ∈ g.nodeNames ∧ "style" ∉ g.nodeNames := by
  intro source g
  have h : parse source = .ok g := by decide +kernel +zetaReduce
  have hclick : isReserved "click" = true := by decide
  have hstyle : isReserved "style" = true := by decide
  refine ⟨h, hclick, hstyle, ?_, ?_⟩
  · exact (reserved_node_iff h hclick).1.2 ⟨_, List.mem_cons_self, Or.inl rfl⟩
  · intro hnode
    obtain ⟨e, he, hend⟩ := (reserved_node_iff h hstyle).1.1 hnode
    rw [List.mem_singleton.1 he] at hend
    exact absurd hend (by decide)

/-- The word that closes a subgraph is a node of this graph, and the only one. -/
theorem exists_reserved_node :
    ∃ g, parse "graph TD\nend --> end" = .ok g ∧ g.nodeNames = ["end"] ∧
      isReserved "end" = true := by
  refine ⟨⟨"TD", [], [⟨"end", "end", none, .arrow⟩], ∅, ∅⟩, ?_⟩
  decide +kernel

/-- Each of the reserved words may stand at both ends of a chain. -/
example : ∀ word ∈ reservedWords,
    (parse ("graph TD\n" ++ word ++ "--> " ++ word)).toOption.map Graph.nodeNames = some [word] := by
  decide +kernel

end Flowchart
