import Flowchart.Proofs.Builder.Operation

/-! # Effects — what a line may change

    A statement is carried out by operations that depend on nothing but the
    statement and on whether a subgraph is open (`Statement.operations`).  So a line
    does the same to any two builders that agree on that, whatever they hold.  Its
    kind says what it may change (`LineKind.Allows`): where no subgraph is opened or
    closed, everything but the ids of the line stays as it was, and the open subgraph
    and the edges only grow (`Builder.extends_run`). -/

namespace Flowchart

open Operation

/-! ## The operations of a statement -/

/-- The label that a token sets, if it carries one. -/
def NodeToken.labelling (token : NodeToken) : List Operation :=
  token.decoration.toList.map (.setLabel token.id)

namespace Statement

/-- The operations that carry out a statement, inside a subgraph or at top level. -/
def operations (inside : Bool) : Statement → List Operation
  | openSubgraph name => [.openSubgraph name]
  | closeSubgraph => [.closeSubgraph]
  | edges chain => chain.tokens.flatMap NodeToken.labelling ++ chain.edges.map .pushEdge
  | declaration token => if inside then .addMember token.id :: token.labelling else []
  | blank | comment | direction | styling | other => []

/-- What a line with this statement turns out to be. -/
def kind (inside : Bool) : Statement → LineKind
  | blank => .blank
  | comment => .comment
  | direction => .direction
  | styling => .styling
  | openSubgraph _ => .subgraphOpen
  | closeSubgraph => .subgraphClose
  | edges chain => .edges chain.edges.length
  | declaration _ => if inside then .declaration else .ignored
  | other => .ignored

end Statement

namespace Builder

variable (b : Builder)

theorem isSome_scope : b.scope.isSome = b.current.isSome := Option.isSome_map

theorem noteLabel_eq_run (token : NodeToken) : b.noteLabel token = b.run token.labelling := by
  rw [noteLabel, NodeToken.labelling]
  cases token.decoration <;> rfl

theorem foldl_noteLabel_eq_run (tokens : List NodeToken) :
    tokens.foldl noteLabel b = b.run (tokens.flatMap NodeToken.labelling) := by
  induction tokens generalizing b with
  | nil => rfl
  | cons token tokens ih =>
      rw [List.foldl_cons, ih, noteLabel_eq_run, List.flatMap_cons, run_append]

theorem foldl_pushEdge_eq_run (es : List Edge) :
    es.foldl pushEdge b = b.run (es.map .pushEdge) := by
  rw [run, List.foldl_map]
  rfl

/-- **A STATEMENT IS ITS OPERATIONS**: carrying it out runs them, and tells what it
    was. -/
theorem execute_eq_run (s : Statement) :
    b.execute s = (b.run (s.operations b.scope.isSome), s.kind b.scope.isSome) := by
  cases s with
  | blank | comment | direction | styling | openSubgraph | closeSubgraph | other => rfl
  | edges chain =>
      rw [execute, foldl_noteLabel_eq_run, foldl_pushEdge_eq_run, ← run_append]
      rfl
  | declaration token =>
      rw [execute, isSome_scope, Statement.operations, Statement.kind]
      cases b.current.isSome with
      | true =>
          show ((b.addMember token.id).noteLabel token, _) = _
          rw [noteLabel_eq_run]
          rfl
      | false => rfl

end Builder

/-! ## Operations within one scope -/

/-- Members join behind those there are. -/
theorem Subgraph.exists_joined (s : Subgraph) (ids : List String) :
    ∃ joined, ids.foldl Subgraph.add s = ⟨s.name, s.nodes ++ joined⟩ ∧ ∀ id ∈ joined, id ∈ ids := by
  induction ids generalizing s with
  | nil => exact ⟨[], by rw [List.append_nil]; rfl, fun id hid => absurd hid List.not_mem_nil⟩
  | cons first ids ih =>
      obtain ⟨joined, heq, hids⟩ := ih (s.add first)
      rw [List.foldl_cons, heq, Subgraph.add]
      split
      · exact ⟨joined, rfl, fun id hid => List.mem_cons_of_mem first (hids id hid)⟩
      · refine ⟨first :: joined, ?_, ?_⟩
        · rw [List.append_assoc]
          rfl
        · intro id hid
          rcases List.mem_cons.1 hid with rfl | hlater
          · exact List.mem_cons_self
          · exact List.mem_cons_of_mem first (hids id hlater)

namespace Builder

/-- Between the two builders the given edges were added and nothing was touched but
    the given ids: the scope is the same, members joined only the open subgraph, and
    no other id got another label or shape. -/
structure Extends (before after : Builder) (edges : List Edge) (touched : String → Prop) :
    Prop where
  direction : after.graph.direction = before.graph.direction
  scope : after.scope = before.scope
  edges : after.graph.edges = before.graph.edges ++ edges
  /-- No subgraph was added, and one that is not open is the same. -/
  others : ∀ i, before.scope ≠ some i → after.graph.subgraphs[i]? = before.graph.subgraphs[i]?
  /-- The open subgraph has its name and its members, and perhaps others that were
      touched behind them. -/
  current : ∀ i, before.scope = some i → ∃ s joined, before.graph.subgraphs[i]? = some s ∧
    after.graph.subgraphs[i]? = some ⟨s.name, s.nodes ++ joined⟩ ∧ ∀ id ∈ joined, touched id
  labels : ∀ id, ¬ touched id → after.graph.labels[id]? = before.graph.labels[id]?
  shapes : ∀ id, ¬ touched id → after.graph.shapes[id]? = before.graph.shapes[id]?

section Stays

variable (b : Builder) {ops : List Operation}

theorem closed_run_of_stays (h : ∀ op ∈ ops, op.turns = false) : (b.run ops).closed = b.closed := by
  induction ops generalizing b with
  | nil => rfl
  | cons op ops ih =>
      rw [run_cons, ih _ fun other hother => h other (List.mem_cons_of_mem op hother),
        b.closed_apply (h op List.mem_cons_self)]

theorem current_run_of_stays (h : ∀ op ∈ ops, op.turns = false) :
    (b.run ops).current = b.current.map fun s => (ops.flatMap offered).foldl Subgraph.add s := by
  induction ops generalizing b with
  | nil => exact Option.map_id'.symm
  | cons op ops ih =>
      rw [run_cons, ih _ fun other hother => h other (List.mem_cons_of_mem op hother),
        b.current_apply (h op List.mem_cons_self), Option.map_map]
      congr 1
      funext s
      show (ops.flatMap offered).foldl Subgraph.add (op.offered.foldl Subgraph.add s) = _
      rw [List.flatMap_cons, List.foldl_append]

/-- **OPERATIONS KEEP TO THEIR IDS** as long as none of them turns. -/
theorem extends_run {touched : String → Prop} (hstays : ∀ op ∈ ops, op.turns = false)
    (hoffered : ∀ op ∈ ops, ∀ id ∈ op.offered, touched id)
    (hgiven : ∀ op ∈ ops, ∀ id, ¬ touched id → op.given? id = none) :
    b.Extends (b.run ops) (pushed ops) touched := by
  have hclosed := b.closed_run_of_stays hstays
  have hcurrent := b.current_run_of_stays hstays
  have hnone : ∀ id, ¬ touched id → given id ops = [] := by
    intro id hid
    exact List.filterMap_eq_nil_iff.2 fun op hop => hgiven op hop id hid
  refine ⟨direction_run b ops, ?_, edges_run b ops, ?_, ?_, ?_, ?_⟩
  · rw [scope, scope, hclosed, hcurrent, Option.map_map]
    rfl
  · intro i hi
    show (b.run ops).subgraphs[i]? = b.subgraphs[i]?
    rw [subgraphs, subgraphs, hclosed, hcurrent]
    by_cases hplace : i < b.closed.length
    · rw [List.getElem?_append_left hplace, List.getElem?_append_left hplace]
    · cases hopen : b.current with
      | none => rfl
      | some s =>
          -- the place of the open subgraph is the only one that is left
          have hbehind : b.closed.length + 1 ≤ i := by
            rw [scope, hopen] at hi
            have hne : b.closed.length ≠ i := fun heq => hi (congrArg some heq)
            omega
          rw [List.getElem?_eq_none, List.getElem?_eq_none]
          · rw [List.length_append]
            exact hbehind
          · rw [List.length_append]
            exact hbehind
  · intro i hi
    obtain ⟨s, hopen, rfl⟩ := Option.map_eq_some_iff.1 hi
    obtain ⟨joined, heq, hjoined⟩ := s.exists_joined (ops.flatMap offered)
    refine ⟨s, joined, ?_, ?_, ?_⟩
    · show (b.closed ++ b.current.toList)[b.closed.length]? = some s
      rw [hopen, List.getElem?_append_right (Nat.le_refl _), Nat.sub_self]
      rfl
    · show ((b.run ops).closed ++ (b.run ops).current.toList)[b.closed.length]? = _
      rw [hclosed, hcurrent, hopen, List.getElem?_append_right (Nat.le_refl _), Nat.sub_self,
        Option.map_some, heq]
      rfl
    · intro id hid
      obtain ⟨op, hop, hoffer⟩ := List.mem_flatMap.1 (hjoined id hid)
      exact hoffered op hop id hoffer
  · intro id hid
    have hlabel := (b.getElem?_run ops id).1
    rw [hnone id hid] at hlabel
    exact hlabel
  · intro id hid
    have hshape := (b.getElem?_run ops id).2
    rw [hnone id hid] at hshape
    exact hshape

end Stays

end Builder

/-! ## Lines -/

/-- What a line of this kind may change. -/
def LineKind.Allows (kind : LineKind) (line : List Char) (before after : Builder) : Prop :=
  match kind with
  | .blank | .comment | .direction | .styling | .ignored =>
      after.graph = before.graph ∧ after.scope = before.scope
  | .subgraphOpen =>
      ∃ name, after.graph
          = { before.graph with subgraphs := before.graph.subgraphs ++ [⟨name, []⟩] } ∧
        after.scope = some before.graph.subgraphs.length
  | .subgraphClose => after.graph = before.graph ∧ after.scope = none
  | .edges count =>
      1 ≤ count ∧ ∃ edges : List Edge, edges.length = count ∧
        before.Extends after edges fun id => ∃ e ∈ edges, id = e.source ∨ id = e.target
  | .declaration =>
      before.scope.isSome = true ∧ ∃ token, Statement.readDeclaration? line = some token ∧
        before.Extends after [] fun id => id = token.id

namespace Statement

theorem pushed_labelling (tokens : List NodeToken) :
    pushed (tokens.flatMap NodeToken.labelling) = [] := by
  refine List.filterMap_eq_nil_iff.2 fun op hop => ?_
  obtain ⟨token, -, hlabel⟩ := List.mem_flatMap.1 hop
  obtain ⟨d, -, rfl⟩ := List.mem_map.1 hlabel
  rfl

/-- The edges that a statement adds. -/
def added : Statement → List Edge
  | edges chain => chain.edges
  | blank | comment | direction | styling | openSubgraph _ | closeSubgraph | declaration _
  | other => []

/-- The operations of a statement push its edges. -/
theorem pushed_operations (inside : Bool) (s : Statement) :
    pushed (s.operations inside) = s.added := by
  cases s with
  | blank | comment | direction | styling | openSubgraph | closeSubgraph | other => rfl
  | edges chain =>
      have hpushed : pushed (chain.edges.map .pushEdge) = chain.edges := by
        rw [pushed, List.filterMap_map]
        exact List.filterMap_some
      rw [operations, pushed, List.filterMap_append]
      show pushed _ ++ pushed _ = chain.edges
      rw [pushed_labelling, hpushed, List.nil_append]
  | declaration token =>
      cases inside with
      | true =>
          have hlabel := pushed_labelling [token]
          rw [List.flatMap_singleton] at hlabel
          exact hlabel
      | false => rfl

/-- The operations of a chain set labels of its tokens and push its edges. -/
theorem mem_operations_edges {inside : Bool} {chain : Chain} {op : Operation}
    (h : op ∈ (edges chain).operations inside) :
    (∃ token ∈ chain.tokens, ∃ d, op = .setLabel token.id d) ∨
      ∃ e ∈ chain.edges, op = .pushEdge e := by
  rw [operations, List.mem_append] at h
  rcases h with hlabel | hpush
  · obtain ⟨token, htoken, hmem⟩ := List.mem_flatMap.1 hlabel
    obtain ⟨d, -, rfl⟩ := List.mem_map.1 hmem
    exact Or.inl ⟨token, htoken, d, rfl⟩
  · obtain ⟨e, he, rfl⟩ := List.mem_map.1 hpush
    exact Or.inr ⟨e, he, rfl⟩

/-- The operations of a declaration are about the id that is declared. -/
theorem mem_operations_declaration {token : NodeToken} {op : Operation}
    (h : op ∈ (declaration token).operations true) :
    op = .addMember token.id ∨ ∃ d, op = .setLabel token.id d := by
  rcases List.mem_cons.1 h with rfl | hlabel
  · exact Or.inl rfl
  · obtain ⟨d, -, rfl⟩ := List.mem_map.1 hlabel
    exact Or.inr ⟨d, rfl⟩

end Statement

namespace Builder

variable (b : Builder)

/-- A chain touches the ends of its edges. -/
theorem extends_edges {chain : Chain} (h : chain.hops ≠ []) (inside : Bool) :
    b.Extends (b.run ((Statement.edges chain).operations inside)) chain.edges
      fun id => ∃ e ∈ chain.edges, id = e.source ∨ id = e.target := by
  suffices hextends : b.Extends (b.run ((Statement.edges chain).operations inside))
      (pushed ((Statement.edges chain).operations inside))
      fun id => ∃ e ∈ chain.edges, id = e.source ∨ id = e.target by
    rwa [Statement.pushed_operations] at hextends
  refine b.extends_run ?_ ?_ ?_
  · intro op hop
    rcases Statement.mem_operations_edges hop with ⟨token, -, d, rfl⟩ | ⟨e, -, rfl⟩ <;> rfl
  · intro op hop id hid
    rcases Statement.mem_operations_edges hop with ⟨token, -, d, rfl⟩ | ⟨e, he, rfl⟩
    · exact absurd hid List.not_mem_nil
    · have hend : id = e.source ∨ id = e.target := by simpa [offered] using hid
      exact ⟨e, he, hend⟩
  · intro op hop id hid
    rcases Statement.mem_operations_edges hop with ⟨token, htoken, d, rfl⟩ | ⟨e, -, rfl⟩
    · refine given?_setLabel_of_ne ?_
      rintro rfl
      exact hid (Chain.exists_edge h token htoken)
    · rfl

/-- A declaration touches the id that is declared. -/
theorem extends_declaration (token : NodeToken) :
    b.Extends (b.run ((Statement.declaration token).operations true)) []
      fun id => id = token.id := by
  suffices hextends : b.Extends (b.run ((Statement.declaration token).operations true))
      (pushed ((Statement.declaration token).operations true)) fun id => id = token.id by
    rwa [Statement.pushed_operations] at hextends
  refine b.extends_run ?_ ?_ ?_
  · intro op hop
    rcases Statement.mem_operations_declaration hop with rfl | ⟨d, rfl⟩ <;> rfl
  · intro op hop id hid
    rcases Statement.mem_operations_declaration hop with rfl | ⟨d, rfl⟩
    · exact List.mem_singleton.1 hid
    · exact absurd hid List.not_mem_nil
  · intro op hop id hid
    rcases Statement.mem_operations_declaration hop with rfl | ⟨d, rfl⟩
    · rfl
    · exact given?_setLabel_of_ne hid

/-- **A LINE CHANGES WHAT ITS KIND ALLOWS**, in every builder. -/
theorem allows_readLine (line : List Char) :
    (b.readLine line).2.Allows line b (b.readLine line).1 := by
  have hread := Statement.readFrom_read line
  rw [readLine, execute_eq_run]
  cases h : Statement.read line with
  | blank | comment | direction | styling | other => exact ⟨rfl, rfl⟩
  | openSubgraph name => exact ⟨name, rfl, rfl⟩
  | closeSubgraph =>
      refine ⟨?_, rfl⟩
      show b.closeSubgraph.graph = b.graph
      rw [graph, subgraphs_closeSubgraph]
      rfl
  | edges chain =>
      have hhops := Statement.hops_ne_nil_of_read h
      obtain ⟨e, he, -⟩ := Chain.exists_edge hhops chain.first List.mem_cons_self
      exact ⟨List.length_pos_of_mem he, chain.edges, rfl, b.extends_edges hhops _⟩
  | declaration token =>
      rw [h] at hread
      cases hinside : b.scope.isSome with
      | true => exact ⟨hinside, token, hread, b.extends_declaration token⟩
      | false => exact ⟨rfl, rfl⟩

end Builder

/-- **A LINE DOES WHAT IT SAYS AND NO MORE**.  Whatever a builder holds and whatever
    the text is, it changes what its kind allows.  Whatever two builders hold, if both
    are at top level or both inside a subgraph the text is of the same kind for them,
    and the same operations carry it out: they append the same edges and set the same
    labels one after the other. -/
theorem readLine_effect (line : List Char) :
    (∀ b : Builder, (b.readLine line).2.Allows line b (b.readLine line).1) ∧
      ∀ inside, ∃ kind ops, ∀ b : Builder, b.scope.isSome = inside →
        b.readLine line = (b.run ops, kind) ∧
          (b.readLine line).1.graph.edges = b.graph.edges ++ pushed ops ∧
          ∀ id, (b.readLine line).1.graph.labels[id]?
              = ((given id ops).getLast?.map (·.label)).or b.graph.labels[id]? ∧
            (b.readLine line).1.graph.shapes[id]?
              = ((given id ops).getLast?.map (·.shape)).or b.graph.shapes[id]? := by
  refine ⟨fun b => b.allows_readLine line, fun inside => ?_⟩
  refine ⟨(Statement.read line).kind inside, (Statement.read line).operations inside, ?_⟩
  intro b hinside
  have hrun : b.readLine line
      = (b.run ((Statement.read line).operations inside), (Statement.read line).kind inside) := by
    rw [Builder.readLine, Builder.execute_eq_run, hinside]
  rw [hrun]
  exact ⟨rfl, b.edges_run _, b.getElem?_run _⟩

/-- A chain with a line feed in its label, read inside two subgraphs of which one has
    a member of the chain already. -/
theorem readLine_effect_line_feed :
    let text := "a[A] -->|x\ny| b".toList
    let b := ((Builder.new "TD").openSubgraph "s").addMember "a"
    let c := (Builder.new "LR").openSubgraph "t"
    (b.readLine text).2 = .edges 1 ∧ (b.readLine text).2.Allows text b (b.readLine text).1 ∧
      (b.scope.isSome = true ∧ c.scope.isSome = true) ∧
        ∃ kind ops, b.readLine text = (b.run ops, kind) ∧ c.readLine text = (c.run ops, kind) := by
  intro text b c
  obtain ⟨kind, ops, hsame⟩ := (readLine_effect text).2 true
  exact ⟨by decide +kernel +zetaReduce, (readLine_effect text).1 b, ⟨rfl, rfl⟩, kind, ops,
    (hsame b rfl).1, (hsame c rfl).1⟩

end Flowchart
