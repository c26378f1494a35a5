import Flowchart.Graph.Component
import Flowchart.Graph.Rotation

/-! # Cycles — every way round

    A simple cycle of more than one node lies inside one component.  From each
    node of a component a backtracking walk follows every path that repeats no
    node, and records the path whenever it can return to its start.  The same
    cycle is found once from each of its nodes; rotating all of them to start
    from the least node makes these finds equal, and each is listed once.

    The walk keeps its frames, its path and the marks of the nodes on the path
    side by side, so its state can be inspected after every step.  Marks are
    cleared again when the walk backtracks, so the number of free nodes does
    not bound the steps; `measure_step_lt` weighs each pending successor by what
    exploring it may cost. -/

namespace Flowchart

/-- The state of the walk for the cycles through one node. -/
structure CycleWalk (n : Nat) where
  /-- The nodes under way, latest first. -/
  work : List (Frame n)
  /-- The path from the start, latest first. -/
  path : List (Fin n)
  onPath : Table n Bool
  /-- The cycles found, each from the start, latest first. -/
  found : List (List (Fin n))
deriving DecidableEq, Repr

namespace CycleWalk

variable {n : Nat}

/-- The path is the start alone. -/
def start (next : Adjacency n) (v : Fin n) : CycleWalk n where
  work := [⟨v, next.get v⟩]
  path := [v]
  onPath := Table.put (Table.fill n false) v true
  found := []

/-- Go back from the last node of the path, leaving the frames `rest`. -/
def backtrack (s : CycleWalk n) (rest : List (Frame n)) : CycleWalk n :=
  match s.path with
  | [] => { s with work := rest }
  | v :: path => { s with work := rest, path, onPath := Table.put s.onPath v false }

/-- Go on to `w`, which is not on the path. -/
def extend (next : Adjacency n) (s : CycleWalk n) (w : Fin n) : CycleWalk n where
  work := ⟨w, next.get w⟩ :: s.work
  path := w :: s.path
  onPath := Table.put s.onPath w true
  found := s.found

/-- One step of the walk from `origin`; nothing happens when no node is under
    way. -/
def step (next : Adjacency n) (origin : Fin n) (s : CycleWalk n) : CycleWalk n :=
  match s.work with
  | [] => s
  | ⟨_, []⟩ :: rest => s.backtrack rest
  | ⟨v, w :: pending⟩ :: rest =>
      let s := { s with work := ⟨v, pending⟩ :: rest }
      if w = origin then { s with found := s.path.reverse :: s.found }
      else if s.onPath.get w then s
      else extend next s w

/-- What a pending successor may cost when `free` nodes are off the path and no
    node has more than `degree` successors. -/
def weight (degree : Nat) : Nat → Nat
  | 0 => 1
  | free + 1 => degree * weight degree free + 2

/-- What the frames may cost when `free` nodes are off the path.  Each frame
    below the last has one free node more to spend. -/
def cost (degree : Nat) : List (Frame n) → Nat → Nat
  | [], _ => 0
  | f :: rest, free => f.pending.length * weight degree free + 1 + cost degree rest (free + 1)

/-- The steps left at most. -/
def measure (next : Adjacency n) (s : CycleWalk n) : Nat :=
  cost next.arcCount s.work (Table.count s.onPath (!·))

private theorem weight_pos (degree free : Nat) : 0 < weight degree free := by
  cases free <;> simp [weight]

private theorem weight_le_succ (degree free : Nat) :
    weight degree free ≤ weight degree (free + 1) := by
  induction free with
  | zero => simp only [weight]; omega
  | succ free ih =>
      have := Nat.mul_le_mul_left degree ih
      simp only [weight] at this ⊢
      omega

private theorem cost_le_succ (degree : Nat) (frames : List (Frame n)) (free : Nat) :
    cost degree frames free ≤ cost degree frames (free + 1) := by
  induction frames generalizing free with
  | nil => exact Nat.le_refl _
  | cons f rest ih =>
      have h1 := Nat.mul_le_mul_left f.pending.length (weight_le_succ degree free)
      have h2 := ih (free + 1)
      simp only [cost]
      omega

private theorem cost_le_of_le {degree : Nat} {frames : List (Frame n)} {free free' : Nat}
    (h : free ≤ free') : cost degree frames free ≤ cost degree frames free' := by
  induction h with
  | refl => exact Nat.le_refl _
  | step _ ih => exact Nat.le_trans ih (cost_le_succ degree frames _)

/-- **EVERY STEP COMES NEARER TO THE END**: while a node is under way, a step
    uses up some of the measure. -/
theorem measure_step_lt {next : Adjacency n} {origin : Fin n} {s : CycleWalk n}
    (h : s.work ≠ []) : (s.step next origin).measure next < s.measure next := by
  rw [step]
  split
  · next hwork => exact absurd hwork h
  · next v rest hwork =>
      unfold measure backtrack
      cases hpath : s.path with
      | nil =>
          have := cost_le_succ next.arcCount rest (Table.count s.onPath (!·))
          simp only [hwork, cost]
          omega
      | cons u path =>
          have : cost next.arcCount rest (Table.count (Table.put s.onPath u false) (!·))
              ≤ cost next.arcCount rest (Table.count s.onPath (!·) + 1) :=
            cost_le_of_le (Table.count_put_le s.onPath (!·) u false)
          simp only [hwork, cost]
          omega
  · next v w pending rest hwork =>
      have hpos := weight_pos next.arcCount (Table.count s.onPath (!·))
      have hmul : (pending.length + 1) * weight next.arcCount (Table.count s.onPath (!·))
          = pending.length * weight next.arcCount (Table.count s.onPath (!·))
            + weight next.arcCount (Table.count s.onPath (!·)) := Nat.succ_mul _ _
      simp only
      split
      · simp only [measure, hwork, cost, List.length_cons]
        omega
      · split
        · simp only [measure, hwork, cost, List.length_cons]
          omega
        · next hoff =>
            have hput := Table.count_put (x := true) (p := (!·)) (by simpa using hoff) rfl
            have hlen := Nat.mul_le_mul_right
              (weight next.arcCount (Table.count (Table.put s.onPath w true) (!·)))
              (next.length_get_le_arcCount w)
            simp only [measure, extend, hwork, cost, List.length_cons]
            rw [← hput] at hmul ⊢
            simp only [weight] at hmul ⊢
            omega

/-- Walk on until no node is under way. -/
def run (next : Adjacency n) (origin : Fin n) (s : CycleWalk n) : CycleWalk n :=
  if _open : s.work = [] then s else run next origin (s.step next origin)
termination_by s.measure next
decreasing_by exact measure_step_lt _open

/-- What every step keeps holds at the end, when no node is under way. -/
theorem run_induction {next : Adjacency n} {origin : Fin n} {P : CycleWalk n → Prop}
    (hstep : ∀ s, P s → s.work ≠ [] → P (s.step next origin)) (s : CycleWalk n) (h : P s) :
    P (run next origin s) ∧ (run next origin s).work = [] := by
  fun_induction run next origin s with
  | case1 s hwork => exact ⟨h, hwork⟩
  | case2 s hwork ih => exact ih (hstep s h hwork)

end CycleWalk

namespace Adjacency

variable {n : Nat}

/-- The successors of each node that are in its own component. -/
def inside (next : Adjacency n) (numbers : Table n (Option Nat)) : Adjacency n :=
  Vector.ofFn fun v => (next.get v).filter fun w => numbers.get w = numbers.get v

/-- The simple cycles through `v` along `next`, each from `v`. -/
def cyclesThrough (next : Adjacency n) (v : Fin n) : List (List (Fin n)) :=
  ((CycleWalk.start next v).run next v).found.reverse

end Adjacency

/-- Shorter cycles come first, and cycles of one length in the order of their
    ids. -/
def cycleOrder : List String → List String → Ordering :=
  compareLex (compareOn List.length) compare

namespace Index

/-- The cycles found in the components of more than one node, each as often as
    it has nodes. -/
def roundTrips (ix : Index) (components : List (List (Fin ix.order))) :
    List (List (Fin ix.order)) :=
  let inside := ix.forward.inside (componentNumbers components)
  (components.filter fun component => 1 < component.length).flatMap fun component =>
    component.flatMap inside.cyclesThrough

/-- The nodes with an edge to themselves. -/
def loops (ix : Index) : List (Fin ix.order) :=
  (ix.arcs.filter fun a => a.source = a.target).map (·.source)

/-- The simple cycles, each once and in canonical rotation, in order. -/
def simpleCycles (ix : Index) (components : List (List (Fin ix.order))) : List (List String) :=
  (Std.TreeSet.ofList
    (ix.loops.map (fun v => [ix.name v])
      ++ (ix.roundTrips components).map fun cycle => canonicalRotation (cycle.map ix.name))
    cycleOrder).toList

/-- The places of the edges that lie on a cycle, ascending.  These are the edges
    to their own node, and those inside one component of more than one node,
    which leads back from them. -/
def cyclicEdges (ix : Index) (components : List (List (Fin ix.order))) : List Nat :=
  let numbers := componentNumbers components
  (ix.arcs.filter fun a =>
    a.source = a.target
      || ((numbers.get a.source).isSome && numbers.get a.source = numbers.get a.target)).map (·.edge)

end Index

namespace Graph

/-- The simple cycles of the graph, shorter ones first. -/
def simpleCycles (g : Graph) : List (List String) :=
  let ix := g.index
  ix.simpleCycles ix.forward.components

/-- The places of the edges that lie on a cycle. -/
def cyclicEdges (g : Graph) : List Nat :=
  let ix := g.index
  ix.cyclicEdges ix.forward.components

end Graph

/-- What there is to say about the cycles of a graph. -/
structure CycleReport where
  /-- The places of the edges that lie on a cycle, ascending. -/
  cyclicEdges : Array Nat
  cycles : List (List String)
deriving DecidableEq, Repr

/-- Whether `x` is among the entries of `xs` from `low` to before `high`, for
    ascending `xs`. -/
def searchAscending (xs : Array Nat) (x low high : Nat) : Bool :=
  if _h : low < high ∧ high ≤ xs.size then
    let middle := (low + high) / 2
    if xs[middle] = x then true
    else if xs[middle] < x then searchAscending xs x (middle + 1) high
    else searchAscending xs x low middle
  else false
termination_by high - low

namespace CycleReport

/-- No cycle was found. -/
def isAcyclic (r : CycleReport) : Bool := r.cycles.isEmpty

/-- The edge at this place lies on a cycle. -/
def isCyclicEdge (r : CycleReport) (edge : Nat) : Bool :=
  searchAscending r.cyclicEdges edge 0 r.cyclicEdges.size

end CycleReport

/-- The cycles and cyclic edges of the graph, from one walk for components. -/
def Graph.cycleReport (g : Graph) : CycleReport :=
  let ix := g.index
  let components := ix.forward.components
  { cyclicEdges := (ix.cyclicEdges components).toArray
    cycles := ix.simpleCycles components }

end Flowchart
