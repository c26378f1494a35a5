import Std.Data.TreeMap
import Std.Data.TreeMap.Lemmas
import Flowchart.Graph.Names
import Flowchart.Graph.Table

/-! # Indices — a graph over numbered nodes

    The nodes are numbered in ascending order of their ids, and every edge
    becomes an arc between two numbers that remembers its place among the edges.
    Parallel edges stay apart.  The walks over a graph run on this form. -/

namespace Flowchart

/-- The successors of each of `n` nodes, in order and with repetitions. -/
abbrev Adjacency (n : Nat) := Table n (List (Fin n))

/-- An edge between numbered nodes. -/
structure Arc (n : Nat) where
  /-- The place of the edge among the edges of the graph. -/
  edge : Nat
  source : Fin n
  target : Fin n
deriving DecidableEq, Repr

/-- The successors of every node along `arcs`, in the order of the arcs. -/
def Adjacency.ofArcs {n : Nat} (arcs : List (Arc n)) : Adjacency n :=
  arcs.foldr (fun a next => Table.put next a.source (a.target :: next.get a.source))
    (Table.fill n [])

/-- The successors of a node are the targets of the arcs that leave it. -/
theorem Adjacency.get_ofArcs {n : Nat} (arcs : List (Arc n)) (v : Fin n) :
    (ofArcs arcs).get v = (arcs.filter (·.source = v)).map (·.target) := by
  induction arcs with
  | nil => simp [ofArcs]
  | cons a arcs ih =>
      show (Table.put (ofArcs arcs) a.source (a.target :: (ofArcs arcs).get a.source)).get v = _
      rw [Table.get_put]
      by_cases h : a.source = v
      · subst h
        simp [ih]
      · simp [h, ih]

/-- An arc the other way round. -/
def Arc.flip {n : Nat} (a : Arc n) : Arc n := ⟨a.edge, a.target, a.source⟩

/-- The place of each name among the names. -/
def positions (names : Array String) : Std.TreeMap String (Fin names.size) :=
  .ofList ((List.finRange names.size).map fun i => (names[i], i))

/-- The place of a name is where it stands. -/
theorem getElem?_positions {names : Array String} (h : names.toList.Nodup)
    {id : String} {i : Fin names.size} :
    (positions names)[id]? = some i ↔ names[i] = id := by
  have hinj : ∀ a b : Fin names.size, names[a] = names[b] → a = b := by
    intro a b hab
    have hlist : names.toList[a.val] = names.toList[b.val] := by simpa using hab
    exact Fin.ext ((List.getElem_inj h).1 hlist)
  have hput : ∀ j : Fin names.size, (positions names)[names[j]]? = some j := by
    intro j
    refine Std.TreeMap.getElem?_ofList_of_mem (k := names[j]) (Std.ReflCmp.compare_self) ?_ ?_
    · rw [List.pairwise_map]
      refine (List.nodup_finRange names.size).imp ?_
      intro a b hab heq
      exact hab (hinj a b (Std.LawfulEqCmp.eq_of_compare heq))
    · exact List.mem_map.2 ⟨j, List.mem_finRange j, rfl⟩
  constructor
  · intro hi
    by_cases hmem : ∃ j : Fin names.size, names[j] = id
    · obtain ⟨j, rfl⟩ := hmem
      rw [hput j] at hi
      rw [Option.some.inj hi]
    · have hnone : (positions names)[id]? = none := by
        refine Std.TreeMap.getElem?_ofList_of_contains_eq_false ?_
        rw [Bool.eq_false_iff]
        intro hc
        rw [List.contains_iff_mem, List.map_map] at hc
        obtain ⟨j, -, hj⟩ := List.mem_map.1 hc
        exact hmem ⟨j, hj⟩
      exact nomatch hnone.symm.trans hi
  · rintro rfl
    exact hput i

/-- The arc of the edge at place `i`; none unless both ends have a place. -/
def Edge.arc? {n : Nat} (places : Std.TreeMap String (Fin n)) (e : Edge) (i : Nat) :
    Option (Arc n) :=
  match places[e.source]?, places[e.target]? with
  | some source, some target => some ⟨i, source, target⟩
  | _, _ => none

/-- An edge whose ends have places has the arc between them. -/
theorem Edge.arc?_eq_some {n : Nat} {places : Std.TreeMap String (Fin n)} {e : Edge}
    {v w : Fin n} (hv : places[e.source]? = some v) (hw : places[e.target]? = some w) (i : Nat) :
    e.arc? places i = some ⟨i, v, w⟩ := by
  rw [arc?, hv, hw]

/-- A graph over numbered nodes. -/
structure Index where
  order : Nat
  /-- The id of each node. -/
  names : Table order String
  /-- The node of each id. -/
  positions : Std.TreeMap String (Fin order)
  /-- The edges in their order. -/
  arcs : List (Arc order)

namespace Index

/-- The node with the given id. -/
def node? (ix : Index) (id : String) : Option (Fin ix.order) := ix.positions[id]?

def name (ix : Index) (v : Fin ix.order) : String := ix.names.get v

/-- The successors of each node, in the order of the edges. -/
def forward (ix : Index) : Adjacency ix.order := .ofArcs ix.arcs

/-- The predecessors of each node, in the order of the edges. -/
def backward (ix : Index) : Adjacency ix.order := .ofArcs (ix.arcs.map Arc.flip)

/-- The ids of the neighbours of `id` along `next`, in ascending order; none
    for an id that is not a node. -/
def neighbours (ix : Index) (next : Adjacency ix.order) (id : String) : List String :=
  match ix.node? id with
  | none => []
  | some v => ascending ((next.get v).map ix.name)

/-- The ids that an edge from `id` leads to, in ascending order. -/
def successors (ix : Index) (id : String) : List String := ix.neighbours ix.forward id

/-- The ids from which an edge leads to `id`, in ascending order. -/
def predecessors (ix : Index) (id : String) : List String := ix.neighbours ix.backward id

def edgeCount (ix : Index) : Nat := ix.arcs.length

end Index

namespace Graph

/-- The graph over numbered nodes.  Every end of an edge is a node, so every
    edge has an arc. -/
def index (g : Graph) : Index :=
  let names := g.nodeNames.toArray
  let places := positions names
  { order := names.size
    names := ⟨names, rfl⟩
    positions := places
    arcs := g.edges.zipIdx.filterMap fun (e, i) => e.arc? places i }

/-- **IDS AND NODES ARE INVERSE**: the node of an id is the one that has it. -/
theorem index_node?_eq_some_iff {g : Graph} {id : String} {v : Fin g.index.order} :
    g.index.node? id = some v ↔ g.index.name v = id := by
  have hnodup : g.nodeNames.toArray.toList.Nodup := g.nodup_nodeNames
  exact getElem?_positions hnodup

/-- The ids of the nodes are the node names. -/
theorem index_names_toList (g : Graph) : g.index.names.toList = g.nodeNames := rfl

end Graph

end Flowchart
