import Mathlib.Data.List.Induction
import Flowchart.Proofs.Builder.Invariant

/-! # Operations — a builder is what it has been told

    A builder is told to open or close a subgraph, to take a member, to set a label
    or to push an edge.  What it holds after any list of these can be read off the
    list, without following it step by step (`Builder.Reads`): the edges are those
    pushed, there is a subgraph for each opening, and the last label of an id
    stands.  Only opening and closing change which subgraph takes members
    (`Builder.closed_apply`, `Builder.current_apply`), so the members of a subgraph
    are what is offered from its opening up to the next of these
    (`Builder.getElem?_run_of_current`). -/

namespace Flowchart

/-- One thing that a builder is told. -/
inductive Operation where
  | openSubgraph (name : String)
  | closeSubgraph
  | addMember (id : String)
  | setLabel (id : String) (d : Decoration)
  | pushEdge (e : Edge)
deriving DecidableEq, Repr

/-! ## What a list of operations says -/

namespace Operation

/-- The ids offered as members: one by itself, or both ends of an edge. -/
def offered : Operation → List String
  | addMember id => [id]
  | pushEdge e => [e.source, e.target]
  | openSubgraph _ | closeSubgraph | setLabel _ _ => []

/-- The operation changes which subgraph takes members. -/
def turns : Operation → Bool
  | openSubgraph _ | closeSubgraph => true
  | addMember _ | setLabel _ _ | pushEdge _ => false

/-- The name of the subgraph that the operation opens. -/
def opened? : Operation → Option String
  | openSubgraph name => some name
  | closeSubgraph | addMember _ | setLabel _ _ | pushEdge _ => none

def pushed? : Operation → Option Edge
  | pushEdge e => some e
  | openSubgraph _ | closeSubgraph | addMember _ | setLabel _ _ => none

/-- The decoration that the operation gives to `id`. -/
def given? (id : String) : Operation → Option Decoration
  | setLabel other d => if other = id then some d else none
  | openSubgraph _ | closeSubgraph | addMember _ | pushEdge _ => none

/-- The edges pushed, in order. -/
def pushed (ops : List Operation) : List Edge := ops.filterMap pushed?

/-- The names of the subgraphs opened, in order. -/
def openings (ops : List Operation) : List String := ops.filterMap opened?

/-- The decorations given to `id`, in order. -/
def given (id : String) (ops : List Operation) : List Decoration := ops.filterMap (given? id)

/-- The ids offered before the first turn. -/
def offeredFirst (ops : List Operation) : List String :=
  (ops.takeWhile fun op => !op.turns).flatMap offered

theorem openings_cons (op : Operation) (ops : List Operation) :
    openings (op :: ops) = op.opened?.toList ++ openings ops := by
  cases op <;> rfl

theorem pushed_cons (op : Operation) (ops : List Operation) :
    pushed (op :: ops) = op.pushed?.toList ++ pushed ops := by
  cases op <;> rfl

theorem given_concat (id : String) (ops : List Operation) (op : Operation) :
    given id (ops ++ [op]) = given id ops ++ (op.given? id).toList := by
  rw [given, List.filterMap_append, List.filterMap_cons, List.filterMap_nil]
  cases op.given? id <;> rfl

/-- A label is given to no other id. -/
theorem given?_setLabel_of_ne {id other : String} {d : Decoration} (h : id ≠ other) :
    (setLabel other d).given? id = none := if_neg (Ne.symm h)

theorem offeredFirst_cons_of_turns {op : Operation} (h : op.turns = true) (ops : List Operation) :
    offeredFirst (op :: ops) = [] := by
  rw [offeredFirst, List.takeWhile_cons_of_neg (by rw [h]; exact Bool.false_ne_true)]
  rfl

theorem offeredFirst_cons_of_stays {op : Operation} (h : op.turns = false)
    (ops : List Operation) : offeredFirst (op :: ops) = op.offered ++ offeredFirst ops := by
  rw [offeredFirst, List.takeWhile_cons_of_pos (by rw [h]; rfl), List.flatMap_cons]
  rfl

/-- An operation that does not turn opens nothing. -/
theorem opened?_of_stays {op : Operation} (h : op.turns = false) : op.opened? = none := by
  cases op with
  | openSubgraph name => exact nomatch h
  | closeSubgraph | addMember id | setLabel id d | pushEdge e => rfl

end Operation

/-- Offering ids to an empty subgraph makes members of them, each once, in the
    order in which they are first offered. -/
theorem Subgraph.foldl_add (name : String) (ids : List String) :
    ids.foldl Subgraph.add ⟨name, []⟩ = ⟨name, ids.eraseDups⟩ := by
  induction ids using List.reverseRecOn with
  | nil => rfl
  | append_singleton ids id ih =>
      rw [List.foldl_append, ih, List.eraseDups_append]
      show Subgraph.add ⟨name, ids.eraseDups⟩ id = _
      by_cases h : id ∈ ids
      · have hold : ids.eraseDups.contains id = true :=
          List.contains_iff_mem.2 (List.mem_eraseDups.2 h)
        have hnone : [id].removeAll ids = [] := by simp [List.removeAll, h]
        rw [Subgraph.add, Subgraph.contains, if_pos hold, hnone, List.eraseDups_nil,
          List.append_nil]
      · have hnew : ¬ ids.eraseDups.contains id = true := by
          rw [List.contains_iff_mem, List.mem_eraseDups]
          exact h
        have hone : [id].removeAll ids = [id] := by simp [List.removeAll, h]
        rw [Subgraph.add, Subgraph.contains, if_neg hnew, hone]
        rfl

/-- Members do not change the name. -/
theorem Subgraph.name_foldl_add (s : Subgraph) (ids : List String) :
    (ids.foldl Subgraph.add s).name = s.name := by
  induction ids generalizing s with
  | nil => rfl
  | cons id ids ih =>
      rw [List.foldl_cons, ih, Subgraph.add]
      split <;> rfl

namespace Builder

open Operation

/-- Carry out an operation. -/
def apply (b : Builder) : Operation → Builder
  | .openSubgraph name => b.openSubgraph name
  | .closeSubgraph => b.closeSubgraph
  | .addMember id => b.addMember id
  | .setLabel id d => b.setLabel id d
  | .pushEdge e => b.pushEdge e

/-- Carry out operations one after the other. -/
def run (b : Builder) (ops : List Operation) : Builder := ops.foldl apply b

theorem run_cons (b : Builder) (op : Operation) (ops : List Operation) :
    b.run (op :: ops) = (b.apply op).run ops := rfl

theorem run_append (b : Builder) (ops more : List Operation) :
    b.run (ops ++ more) = (b.run ops).run more := List.foldl_append

/-! ## One operation -/

section Apply

variable (b : Builder) {op : Operation}

/-- What is closed stays closed, until the next turn nothing joins it. -/
theorem closed_apply (h : op.turns = false) : (b.apply op).closed = b.closed := by
  cases op with
  | openSubgraph name | closeSubgraph => exact nomatch h
  | addMember id | setLabel id d | pushEdge e => rfl

/-- The open subgraph takes the ids that are offered. -/
theorem current_apply (h : op.turns = false) :
    (b.apply op).current = b.current.map fun s => op.offered.foldl Subgraph.add s := by
  cases op with
  | openSubgraph name | closeSubgraph => exact nomatch h
  | addMember id => rfl
  | setLabel id d => exact Option.map_id'.symm
  | pushEdge e =>
      show (b.current.map (·.add e.source)).map (·.add e.target) = _
      rw [Option.map_map]
      rfl

/-- A turn closes the subgraph that is open. -/
theorem closed_apply_of_turns (h : op.turns = true) : (b.apply op).closed = b.subgraphs := by
  cases op with
  | openSubgraph name | closeSubgraph => rfl
  | addMember id | setLabel id d | pushEdge e => exact nomatch h

/-- After a turn the subgraph just opened takes members, if one was. -/
theorem current_apply_of_turns (h : op.turns = true) :
    (b.apply op).current = op.opened?.map fun name => ⟨name, []⟩ := by
  cases op with
  | openSubgraph name | closeSubgraph => rfl
  | addMember id | setLabel id d | pushEdge e => exact nomatch h

theorem closed_prefix_apply (op : Operation) : b.closed <+: (b.apply op).closed := by
  cases hturns : op.turns with
  | true =>
      rw [b.closed_apply_of_turns hturns]
      exact List.prefix_append _ _
  | false => rw [b.closed_apply hturns]

theorem direction_apply (op : Operation) : (b.apply op).direction = b.direction := by
  cases op <;> rfl

theorem edges_apply (op : Operation) : (b.apply op).edges = b.edges ++ op.pushed?.toList := by
  cases op with
  | pushEdge e => rfl
  | openSubgraph name | closeSubgraph | addMember id | setLabel id d =>
      exact (List.append_nil _).symm

/-- Opening puts a name after those there are; nothing else does. -/
theorem names_apply (op : Operation) :
    (b.apply op).subgraphs.map (·.name) = b.subgraphs.map (·.name) ++ op.opened?.toList := by
  cases hturns : op.turns with
  | true =>
      rw [subgraphs, b.closed_apply_of_turns hturns, b.current_apply_of_turns hturns,
        List.map_append]
      cases op.opened? <;> rfl
  | false =>
      rw [subgraphs, b.closed_apply hturns, b.current_apply hturns, opened?_of_stays hturns,
        subgraphs, List.map_append, List.map_append, Option.toList_none, List.append_nil]
      cases b.current with
      | none => rfl
      | some s =>
          congr 1
          exact congrArg (fun name => [name]) (s.name_foldl_add op.offered)

/-- A label and its shape are set together, for one id. -/
theorem getElem?_apply (op : Operation) (id : String) :
    (b.apply op).labels[id]? = ((op.given? id).map (·.label)).or b.labels[id]? ∧
      (b.apply op).shapes[id]? = ((op.given? id).map (·.shape)).or b.shapes[id]? := by
  cases op with
  | openSubgraph name | closeSubgraph | addMember other | pushEdge e => exact ⟨rfl, rfl⟩
  | setLabel other d =>
      show (b.labels.insert other d.label)[id]? = _ ∧ (b.shapes.insert other d.shape)[id]? = _
      rw [Std.ExtTreeMap.getElem?_insert, Std.ExtTreeMap.getElem?_insert, given?]
      by_cases h : other = id
      · have hsame : compare other id = .eq := Std.LawfulEqCmp.compare_eq_iff_eq.2 h
        rw [if_pos hsame, if_pos hsame, if_pos h]
        exact ⟨rfl, rfl⟩
      · have hdiffers : ¬ compare other id = .eq := fun hsame =>
          h (Std.LawfulEqCmp.compare_eq_iff_eq.1 hsame)
        rw [if_neg hdiffers, if_neg hdiffers, if_neg h]
        exact ⟨rfl, rfl⟩

end Apply

/-! ## Any number of operations -/

section Run

variable (b : Builder)

theorem direction_run (ops : List Operation) : (b.run ops).direction = b.direction :=
  foldl_keeps direction direction_apply b ops

theorem edges_run (ops : List Operation) : (b.run ops).edges = b.edges ++ pushed ops := by
  induction ops generalizing b with
  | nil => exact (List.append_nil _).symm
  | cons op ops ih => rw [run_cons, ih, edges_apply, pushed_cons, List.append_assoc]

theorem names_run (ops : List Operation) :
    (b.run ops).subgraphs.map (·.name) = b.subgraphs.map (·.name) ++ openings ops := by
  induction ops generalizing b with
  | nil => exact (List.append_nil _).symm
  | cons op ops ih => rw [run_cons, ih, names_apply, openings_cons, List.append_assoc]

/-- The last decoration given to an id stands, and what it had before where none is
    given. -/
theorem getElem?_run (ops : List Operation) (id : String) :
    (b.run ops).labels[id]? = ((given id ops).getLast?.map (·.label)).or b.labels[id]? ∧
      (b.run ops).shapes[id]? = ((given id ops).getLast?.map (·.shape)).or b.shapes[id]? := by
  induction ops using List.reverseRecOn with
  | nil => exact ⟨rfl, rfl⟩
  | append_singleton ops op ih =>
      obtain ⟨hlabel, hshape⟩ := (b.run ops).getElem?_apply op id
      have hlast : (given id (ops ++ [op])).getLast? = (op.given? id).or (given id ops).getLast? := by
        rw [given_concat, List.getLast?_append]
        cases op.given? id <;> rfl
      rw [run_append]
      show ((b.run ops).apply op).labels[id]? = _ ∧ ((b.run ops).apply op).shapes[id]? = _
      rw [hlabel, hshape, ih.1, ih.2, hlast, Option.map_or, Option.map_or, Option.or_assoc,
        Option.or_assoc]
      exact ⟨rfl, rfl⟩

theorem closed_prefix_run (ops : List Operation) : b.closed <+: (b.run ops).closed := by
  induction ops generalizing b with
  | nil => exact List.prefix_refl _
  | cons op ops ih => exact (b.closed_prefix_apply op).trans (ih (b.apply op))

/-- A closed subgraph stays at its place as it is. -/
theorem getElem?_run_of_closed {i : Nat} (h : i < b.closed.length) (ops : List Operation) :
    (b.run ops).subgraphs[i]? = b.closed[i]? := by
  obtain ⟨later, hlater⟩ := b.closed_prefix_run ops
  rw [subgraphs, ← hlater, List.append_assoc, List.getElem?_append_left h]

/-- **AN OPEN SUBGRAPH TAKES WHAT IS OFFERED** up to the next turn, and stays as it
    is from there on. -/
theorem getElem?_run_of_current {s : Subgraph} (h : b.current = some s) (ops : List Operation) :
    (b.run ops).subgraphs[b.closed.length]? = some ((offeredFirst ops).foldl Subgraph.add s) := by
  induction ops generalizing b s with
  | nil =>
      show (b.closed ++ b.current.toList)[b.closed.length]? = some s
      rw [h, List.getElem?_append_right (Nat.le_refl _), Nat.sub_self]
      rfl
  | cons op ops ih =>
      rw [run_cons]
      cases hturns : op.turns with
      | false =>
          have hcurrent : (b.apply op).current = some (op.offered.foldl Subgraph.add s) := by
            rw [b.current_apply hturns, h]
            rfl
          rw [← b.closed_apply hturns, ih (b.apply op) hcurrent, offeredFirst_cons_of_stays hturns,
            List.foldl_append]
      | true =>
          have hclosed : (b.apply op).closed = b.closed ++ [s] := by
            rw [b.closed_apply_of_turns hturns, subgraphs, h]
            rfl
          have hplace : b.closed.length < (b.apply op).closed.length := by
            rw [hclosed, List.length_append]
            exact Nat.lt_succ_self _
          rw [(b.apply op).getElem?_run_of_closed hplace, hclosed,
            offeredFirst_cons_of_turns hturns, List.getElem?_append_right (Nat.le_refl _),
            Nat.sub_self]
          rfl

end Run

/-! ## The whole builder -/

section New

variable (direction : String) (ops : List Operation)

/-- There are as many subgraphs as openings. -/
theorem length_subgraphs_run_new :
    ((new direction).run ops).subgraphs.length = (openings ops).length := by
  have hnames := congrArg List.length ((new direction).names_run ops)
  rw [List.length_map] at hnames
  exact hnames

/-- The last turn decides which subgraph is open, if one is. -/
theorem current_run_new :
    ((new direction).run ops).current.map (·.name)
      = (ops.filter turns).getLast?.bind opened? := by
  induction ops using List.reverseRecOn with
  | nil => rfl
  | append_singleton ops op ih =>
      rw [run_append, List.filter_append]
      show (((new direction).run ops).apply op).current.map (·.name) = _
      cases hturns : op.turns with
      | true =>
          rw [current_apply_of_turns _ hturns, List.filter_cons_of_pos hturns, List.filter_nil,
            List.getLast?_concat, Option.map_map]
          exact Option.map_id'
      | false =>
          have hnot : ¬ op.turns = true := Bool.eq_false_iff.1 hturns
          rw [current_apply _ hturns, List.filter_cons_of_neg hnot, List.filter_nil,
            List.append_nil, ← ih, Option.map_map]
          congr 1
          funext s
          exact s.name_foldl_add op.offered

/-- The open subgraph is the last one. -/
theorem scope_eq (b : Builder) :
    b.scope = (b.current.map (·.name)).map fun _ => b.subgraphs.length - 1 := by
  rw [scope, subgraphs]
  cases b.current with
  | none => rfl
  | some s =>
      rw [Option.toList_some, List.length_append]
      rfl

end New

/-- The builder holds what the list of operations says. -/
structure Reads (direction : String) (ops : List Operation) (b : Builder) : Prop where
  direction : b.graph.direction = direction
  edges : b.graph.edges = pushed ops
  /-- There is a subgraph for each opening, in order, with its name. -/
  names : b.graph.subgraphs.map (·.name) = openings ops
  /-- Its members are the ids offered from its opening up to the next turn, each
      once, in the order in which they are first offered. -/
  members : ∀ before name after, ops = before ++ .openSubgraph name :: after →
    b.graph.subgraphs[(openings before).length]? = some ⟨name, (offeredFirst after).eraseDups⟩
  /-- The last label given to an id stands; an id that none is given to has none. -/
  labels : ∀ id, b.graph.labels[id]? = (given id ops).getLast?.map (·.label)
  shapes : ∀ id, b.graph.shapes[id]? = (given id ops).getLast?.map (·.shape)
  /-- The last subgraph is open when the last turn opens it. -/
  scope : b.scope = ((ops.filter turns).getLast?.bind opened?).map fun _ =>
    (openings ops).length - 1

/-- **A BUILDER IS WHAT IT HAS BEEN TOLD**, whatever that is and in whatever
    order. -/
theorem run_reads (direction : String) (ops : List Operation) :
    ((new direction).run ops).Reads direction ops where
  direction := direction_run _ ops
  edges := edges_run _ ops
  names := names_run _ ops
  members before name after h := by
    have hcount : (((new direction).run before).openSubgraph name).closed.length
        = (openings before).length := length_subgraphs_run_new direction before
    have hmembers := (((new direction).run before).openSubgraph name).getElem?_run_of_current
      rfl after
    rw [hcount, Subgraph.foldl_add] at hmembers
    rw [h, run_append]
    exact hmembers
  labels id := by
    rw [← Option.or_none (o := Option.map _ _)]
    exact ((new direction).getElem?_run ops id).1
  shapes id := by
    rw [← Option.or_none (o := Option.map _ _)]
    exact ((new direction).getElem?_run ops id).2
  scope := by
    rw [scope_eq, current_run_new, length_subgraphs_run_new]

/-- What is offered at top level is lost, a member offered twice counts once, and
    the name of a subgraph that is closed opens another one. -/
example :
    ((new "TD").run [.addMember "x", .openSubgraph "s", .pushEdge ⟨"a", "b", none, .arrow⟩,
      .addMember "a", .closeSubgraph, .closeSubgraph, .addMember "y", .openSubgraph "s",
      .addMember "a"]).subgraphs = [⟨"s", ["a", "b"]⟩, ⟨"s", ["a"]⟩] := by
  decide

end Builder

end Flowchart
