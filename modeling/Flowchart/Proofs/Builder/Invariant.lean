import Flowchart.Builder
import Flowchart.Graph.Names
import Flowchart.Proofs.Statement.Content

/-! # Builder invariants — what every line keeps true

    Edges join ids, a subgraph lists ids without repetition, and labels and shapes
    are kept for the same ids (`Builder.Sound`).  Every operation on sound parts
    keeps this, and none makes the graph forget a node (`Builder.Mentions`) or
    touches its direction (`Builder.direction_execute`).  A line sets labels before
    it pushes edges, so only at its end is every labelled id a node again; that
    much holds from line to line (`Builder.sound_execute`,
    `Builder.labelled_execute`). -/

namespace Flowchart

/-- A subgraph has a name and distinct ids as members. -/
structure Subgraph.Sound (s : Subgraph) : Prop where
  name : IsName s.name
  members : ∀ id ∈ s.nodes, IsId id
  nodup : s.nodes.Nodup

/-- A member more, that is an id. -/
theorem Subgraph.Sound.add {s : Subgraph} (h : s.Sound) {id : String} (hid : IsId id) :
    (s.add id).Sound where
  name := by
    rw [Subgraph.add]
    split <;> exact h.name
  members other hother := by
    rcases Subgraph.mem_nodes_add.1 hother with hmem | rfl
    · exact h.members other hmem
    · exact hid
  nodup := Subgraph.nodup_nodes_add h.nodup

namespace Builder

/-- The edges and the subgraphs are sound, and what has a label has a shape. -/
structure Sound (b : Builder) : Prop where
  edges : ∀ e ∈ b.edges, e.Sound
  subgraphs : ∀ s ∈ b.subgraphs, s.Sound
  paired : ∀ id, id ∈ b.labels ↔ id ∈ b.shapes

/-- The id is a node of the graph so far. -/
def Mentions (b : Builder) (id : String) : Prop := id ∈ b.graph.nodeNames

theorem mentions_iff {b : Builder} {id : String} :
    b.Mentions id ↔
      (∃ s ∈ b.subgraphs, id ∈ s.nodes) ∨ ∃ e ∈ b.edges, id = e.source ∨ id = e.target :=
  Graph.mem_nodeNames

/-- Every id with a label is a node. -/
def Labelled (b : Builder) : Prop := ∀ id ∈ b.labels, b.Mentions id

variable {b : Builder}

/-! ## What the operations leave as it was -/

/-- A part that every step leaves as it was is the same after all of them. -/
theorem foldl_keeps {α γ : Type} {step : Builder → α → Builder} (part : Builder → γ)
    (hstep : ∀ b a, part (step b a) = part b) (b : Builder) (steps : List α) :
    part (steps.foldl step b) = part b := by
  induction steps generalizing b with
  | nil => rfl
  | cons a steps ih => rw [List.foldl_cons, ih, hstep]

@[simp] theorem subgraphs_openSubgraph (b : Builder) (name : String) :
    (b.openSubgraph name).subgraphs = b.subgraphs ++ [⟨name, []⟩] := rfl

@[simp] theorem subgraphs_closeSubgraph (b : Builder) :
    b.closeSubgraph.subgraphs = b.subgraphs := List.append_nil _

@[simp] theorem edges_pushEdge (b : Builder) (e : Edge) :
    (b.pushEdge e).edges = b.edges ++ [e] := rfl

@[simp] theorem labels_pushEdge (b : Builder) (e : Edge) : (b.pushEdge e).labels = b.labels := rfl

@[simp] theorem edges_noteLabel (b : Builder) (token : NodeToken) :
    (b.noteLabel token).edges = b.edges := by
  rw [noteLabel]
  split <;> rfl

@[simp] theorem subgraphs_noteLabel (b : Builder) (token : NodeToken) :
    (b.noteLabel token).subgraphs = b.subgraphs := by
  rw [noteLabel]
  split <;> rfl

@[simp] theorem direction_pushEdge (b : Builder) (e : Edge) :
    (b.pushEdge e).direction = b.direction := rfl

@[simp] theorem direction_noteLabel (b : Builder) (token : NodeToken) :
    (b.noteLabel token).direction = b.direction := by
  rw [noteLabel]
  split <;> rfl

/-- A member more in the subgraph that is open; the others stay. -/
theorem mem_subgraphs_addMember {id : String} {s : Subgraph} :
    s ∈ (b.addMember id).subgraphs ↔ s ∈ b.closed ∨ ∃ c, b.current = some c ∧ s = c.add id := by
  show s ∈ b.closed ++ (b.current.map (·.add id)).toList ↔ _
  rw [List.mem_append, Option.mem_toList, Option.map_eq_some_iff]
  simp only [eq_comm]

theorem mem_subgraphs_iff {s : Subgraph} :
    s ∈ b.subgraphs ↔ s ∈ b.closed ∨ b.current = some s := by
  rw [subgraphs, List.mem_append, Option.mem_toList]

/-- No line changes the direction. -/
theorem direction_execute (b : Builder) (s : Statement) :
    (b.execute s).1.direction = b.direction := by
  cases s with
  | blank | comment | direction | styling | openSubgraph | closeSubgraph | other => rfl
  | edges chain =>
      show (chain.edges.foldl pushEdge (chain.tokens.foldl noteLabel b)).direction = b.direction
      rw [foldl_keeps direction direction_pushEdge, foldl_keeps direction direction_noteLabel]
  | declaration token =>
      rw [execute]
      split
      · exact direction_noteLabel _ token
      · rfl

/-! ## Sound parts -/

namespace Sound

theorem openSubgraph (h : b.Sound) {name : String} (hname : IsName name) :
    (b.openSubgraph name).Sound where
  edges := h.edges
  subgraphs s hs := by
    rw [subgraphs_openSubgraph, List.mem_append, List.mem_singleton] at hs
    rcases hs with hold | rfl
    · exact h.subgraphs s hold
    · exact ⟨hname, fun _ hid => absurd hid List.not_mem_nil, List.nodup_nil⟩
  paired := h.paired

theorem closeSubgraph (h : b.Sound) : b.closeSubgraph.Sound where
  edges := h.edges
  subgraphs s hs := by
    rw [subgraphs_closeSubgraph] at hs
    exact h.subgraphs s hs
  paired := h.paired

theorem addMember (h : b.Sound) {id : String} (hid : IsId id) : (b.addMember id).Sound where
  edges := h.edges
  subgraphs s hs := by
    rcases mem_subgraphs_addMember.1 hs with hclosed | ⟨c, hcurrent, rfl⟩
    · exact h.subgraphs s (mem_subgraphs_iff.2 (Or.inl hclosed))
    · exact (h.subgraphs c (mem_subgraphs_iff.2 (Or.inr hcurrent))).add hid
  paired := h.paired

theorem pushEdge (h : b.Sound) {e : Edge} (he : e.Sound) : (b.pushEdge e).Sound where
  edges other hother := by
    rw [edges_pushEdge, List.mem_append, List.mem_singleton] at hother
    rcases hother with hold | rfl
    · exact h.edges other hold
    · exact he
  subgraphs := ((h.addMember he.source).addMember he.target).subgraphs
  paired := h.paired

/-- A label is set together with a shape. -/
theorem noteLabel (h : b.Sound) (token : NodeToken) : (b.noteLabel token).Sound where
  edges := by
    rw [edges_noteLabel]
    exact h.edges
  subgraphs := by
    rw [subgraphs_noteLabel]
    exact h.subgraphs
  paired id := by
    rw [Builder.noteLabel]
    split
    · simp only [setLabel, Std.ExtTreeMap.mem_insert, h.paired id]
    · exact h.paired id

end Sound

/-- **EVERY LINE KEEPS THE PARTS SOUND**. -/
theorem sound_execute (h : b.Sound) {s : Statement} (hs : s.Sound) : (b.execute s).1.Sound := by
  cases s with
  | blank | comment | direction | styling | other => exact h
  | openSubgraph name => exact h.openSubgraph hs
  | closeSubgraph => exact h.closeSubgraph
  | edges chain =>
      have hnoted : (chain.tokens.foldl noteLabel b).Sound :=
        List.foldlRecOn _ _ h fun b hb token _ => hb.noteLabel token
      exact List.foldlRecOn _ _ hnoted fun b hb e he => hb.pushEdge (hs.edges e he)
  | declaration token =>
      rw [execute]
      split
      · exact (h.addMember hs).noteLabel token
      · exact h

/-! ## Nodes and labels -/

namespace Mentions

variable {id : String}

theorem addMember (h : b.Mentions id) (other : String) : (b.addMember other).Mentions id := by
  rw [mentions_iff] at h ⊢
  refine h.imp_left ?_
  rintro ⟨s, hs, hid⟩
  rcases mem_subgraphs_iff.1 hs with hclosed | hcurrent
  · exact ⟨s, mem_subgraphs_addMember.2 (Or.inl hclosed), hid⟩
  · exact ⟨s.add other, mem_subgraphs_addMember.2 (Or.inr ⟨s, hcurrent, rfl⟩),
      Subgraph.mem_nodes_add.2 (Or.inl hid)⟩

theorem pushEdge (h : b.Mentions id) (e : Edge) : (b.pushEdge e).Mentions id := by
  have hmembers := (h.addMember e.source).addMember e.target
  rw [mentions_iff] at hmembers ⊢
  refine hmembers.imp_right ?_
  rintro ⟨other, hother, hid⟩
  exact ⟨other, List.mem_append_left _ hother, hid⟩

theorem openSubgraph (h : b.Mentions id) (name : String) : (b.openSubgraph name).Mentions id := by
  rw [mentions_iff] at h ⊢
  refine h.imp_left ?_
  rintro ⟨s, hs, hid⟩
  exact ⟨s, List.mem_append_left _ hs, hid⟩

theorem closeSubgraph (h : b.Mentions id) : b.closeSubgraph.Mentions id := by
  rw [mentions_iff, subgraphs_closeSubgraph]
  exact mentions_iff.1 h

end Mentions

/-- Labels make no node. -/
theorem mentions_noteLabel {token : NodeToken} {id : String} :
    (b.noteLabel token).Mentions id ↔ b.Mentions id := by
  rw [mentions_iff, mentions_iff, edges_noteLabel, subgraphs_noteLabel]

/-- A member of the open subgraph is a node. -/
theorem mentions_addMember_self (h : b.current.isSome = true) (id : String) :
    (b.addMember id).Mentions id := by
  obtain ⟨s, hs⟩ := Option.isSome_iff_exists.1 h
  refine mentions_iff.2 (Or.inl ⟨s.add id, mem_subgraphs_addMember.2 (Or.inr ⟨s, hs, rfl⟩), ?_⟩)
  exact Subgraph.mem_nodes_add.2 (Or.inr rfl)

/-- Only the id of the token may get a label. -/
theorem mem_labels_noteLabel {token : NodeToken} {id : String}
    (h : id ∈ (b.noteLabel token).labels) : id ∈ b.labels ∨ id = token.id := by
  rw [noteLabel] at h
  split at h
  · rw [setLabel, Std.ExtTreeMap.mem_insert] at h
    rcases h with hsame | hold
    · exact Or.inr (Std.LawfulEqCmp.eq_of_compare hsame).symm
    · exact Or.inl hold
  · exact Or.inl h

/-- Only the ids of the tokens may get labels. -/
theorem mem_labels_foldl_noteLabel {tokens : List NodeToken} {id : String}
    (h : id ∈ (tokens.foldl noteLabel b).labels) :
    id ∈ b.labels ∨ ∃ token ∈ tokens, id = token.id := by
  induction tokens generalizing b with
  | nil => exact Or.inl h
  | cons token tokens ih =>
      rcases ih h with hnoted | ⟨other, hother, rfl⟩
      · rcases mem_labels_noteLabel hnoted with hold | rfl
        · exact Or.inl hold
        · exact Or.inr ⟨token, List.mem_cons_self, rfl⟩
      · exact Or.inr ⟨other, List.mem_cons_of_mem _ hother, rfl⟩

theorem labels_foldl_pushEdge (b : Builder) (es : List Edge) :
    (es.foldl pushEdge b).labels = b.labels := foldl_keeps labels labels_pushEdge b es

theorem edges_foldl_pushEdge (b : Builder) (es : List Edge) :
    (es.foldl pushEdge b).edges = b.edges ++ es := by
  induction es generalizing b with
  | nil => exact (List.append_nil _).symm
  | cons e es ih => rw [List.foldl_cons, ih, edges_pushEdge, List.append_assoc]; rfl

/-- **LABELS BELONG TO NODES** after every line, if they did before. -/
theorem labelled_execute (h : b.Labelled) {s : Statement} (hs : s.Sound) :
    (b.execute s).1.Labelled := by
  cases s with
  | blank | comment | direction | styling | other => exact h
  | openSubgraph name => exact fun id hid => (h id hid).openSubgraph name
  | closeSubgraph => exact fun id hid => (h id hid).closeSubgraph
  | edges chain =>
      show (chain.edges.foldl pushEdge (chain.tokens.foldl noteLabel b)).Labelled
      intro id hid
      rw [labels_foldl_pushEdge] at hid
      rcases mem_labels_foldl_noteLabel hid with hold | ⟨token, htoken, rfl⟩
      · -- labelled before, so a node before
        have hnoted : (chain.tokens.foldl noteLabel b).Mentions id :=
          List.foldlRecOn (motive := fun b : Builder => b.Mentions id) _ _ (h id hold)
            fun _ hb _ _ => mentions_noteLabel.2 hb
        exact List.foldlRecOn (motive := fun b : Builder => b.Mentions id) _ _ hnoted
          fun _ hb e _ => hb.pushEdge e
      · -- labelled by this line, so an end of one of its edges
        obtain ⟨e, he, hend⟩ := Chain.exists_edge hs.hops_ne_nil token htoken
        refine mentions_iff.2 (Or.inr ⟨e, ?_, hend⟩)
        rw [edges_foldl_pushEdge]
        exact List.mem_append_right _ he
  | declaration token =>
      rw [execute]
      split
      · next hopen =>
          intro id hid
          rw [mentions_noteLabel]
          rcases mem_labels_noteLabel hid with hold | rfl
          · exact (h id hold).addMember token.id
          · exact mentions_addMember_self hopen token.id
      · exact h

end Builder

end Flowchart
