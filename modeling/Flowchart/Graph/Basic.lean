import Std.Data.ExtTreeMap
import Std.Data.ExtTreeMap.Lemmas
import Flowchart.Arrow
import Flowchart.Shape

/-! # Graphs — what a flowchart says

    A node is known by its id alone; ids occur in edges and as members of
    subgraphs, and labels and shapes are kept beside them.  The two maps are
    canonical: graphs that map the same ids to the same texts and shapes are
    equal. -/

namespace Flowchart

/-- A directed edge between two ids. -/
structure Edge where
  source : String
  target : String
  label : Option String := none
  style : ArrowStyle := .arrow
deriving DecidableEq, Repr

/-- An edge from a node to itself. -/
def Edge.isLoop (e : Edge) : Bool := e.source == e.target

/-- A named group of nodes. -/
structure Subgraph where
  name : String
  /-- The members in the order in which they were first met. -/
  nodes : List String := []
deriving DecidableEq, Repr

namespace Subgraph

/-- Whether `id` is a member. -/
def contains (s : Subgraph) (id : String) : Bool := s.nodes.contains id

/-- The subgraph with `id` as its last member, unless it is a member already. -/
def add (s : Subgraph) (id : String) : Subgraph :=
  if s.contains id then s else { s with nodes := s.nodes ++ [id] }

/-- Adding makes a member. -/
theorem mem_nodes_add {s : Subgraph} {id other : String} :
    other ∈ (s.add id).nodes ↔ other ∈ s.nodes ∨ other = id := by
  by_cases h : id ∈ s.nodes
  · simp only [add, contains, List.contains_iff_mem, h, if_true]
    exact ⟨Or.inl, fun hor => hor.elim (fun hm => hm) (fun heq => heq ▸ h)⟩
  · simp [add, contains, h]

/-- Adding repeats no member. -/
theorem nodup_nodes_add {s : Subgraph} {id : String} (h : s.nodes.Nodup) :
    (s.add id).nodes.Nodup := by
  by_cases hm : id ∈ s.nodes
  · simp only [add, contains, List.contains_iff_mem, hm, if_true]
    exact h
  · simp only [add, contains, List.contains_iff_mem, hm, if_false]
    rw [List.nodup_append]
    refine ⟨h, by simp, ?_⟩
    intro a ha b hb
    rw [List.mem_singleton.1 hb]
    exact fun heq => hm (heq ▸ ha)

end Subgraph

/-- A flowchart. -/
structure Graph where
  /-- The direction of the layout, in capitals. -/
  direction : String
  subgraphs : List Subgraph := []
  edges : List Edge := []
  /-- The label last declared for an id. -/
  labels : Std.ExtTreeMap String String := ∅
  /-- The shape of the declaration that set the label. -/
  shapes : Std.ExtTreeMap String Shape := ∅
deriving DecidableEq

namespace Graph

/-- The label of `id`, or `id` itself where none is declared. -/
def labelOf (g : Graph) (id : String) : String := g.labels.getD id id

end Graph

end Flowchart
