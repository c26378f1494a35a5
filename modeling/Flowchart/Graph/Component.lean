import Flowchart.Graph.Reach

/-! # Components — nodes that reach each other

    One depth-first walk finds the strongly connected components.  Every node
    gets an index when it is discovered, and a low link: the least index known
    to be reachable from it among the nodes on the component stack.  A node
    whose low link is its own index is the root of a component, which is then
    the top of that stack.

    The walk keeps its own stack of frames, one for each node under way with the
    successors still to be looked at, so its state can be inspected after every
    step.  A step discovers a node, uses up a successor, or closes a frame; none
    of this can go on forever, which `measure_step_lt` states. -/

namespace Flowchart

/-- A node under way, and its successors still to come. -/
structure Frame (n : Nat) where
  node : Fin n
  pending : List (Fin n)
deriving DecidableEq, Repr

/-- The state of the walk for components. -/
structure ComponentWalk (n : Nat) where
  /-- The index of each discovered node. -/
  index : Table n (Option Nat)
  lowlink : Table n Nat
  onStack : Table n Bool
  /-- The discovered nodes not yet in a component, latest first. -/
  stack : List (Fin n)
  /-- The index of the next node to be discovered. -/
  nextIndex : Nat
  /-- The components found, latest first. -/
  components : List (List (Fin n))
  /-- The nodes under way, latest first. -/
  work : List (Frame n)
deriving DecidableEq, Repr

namespace ComponentWalk

variable {n : Nat}

/-- Nothing is discovered yet. -/
def start (n : Nat) : ComponentWalk n where
  index := Table.fill n none
  lowlink := Table.fill n 0
  onStack := Table.fill n false
  stack := []
  nextIndex := 0
  components := []
  work := []

/-- Give `v` the next index, put it on the component stack, and open a frame
    for it. -/
def discover (next : Adjacency n) (s : ComponentWalk n) (v : Fin n) : ComponentWalk n where
  index := Table.put s.index v (some s.nextIndex)
  lowlink := Table.put s.lowlink v s.nextIndex
  onStack := Table.put s.onStack v true
  stack := v :: s.stack
  nextIndex := s.nextIndex + 1
  components := s.components
  work := ⟨v, next.get v⟩ :: s.work

/-- Lower the low link of `v` to `bound` if that is less. -/
def lower (s : ComponentWalk n) (v : Fin n) (bound : Nat) : ComponentWalk n :=
  { s with lowlink := Table.put s.lowlink v (Nat.min (s.lowlink.get v) bound) }

/-- The top of `stack` down to `root`, and what is below. -/
def popTo (root : Fin n) : List (Fin n) → List (Fin n) × List (Fin n)
  | [] => ([], [])
  | v :: rest =>
      if v = root then ([v], rest)
      else
        let (component, below) := popTo root rest
        (v :: component, below)

/-- Nothing is lost, and the order is kept. -/
theorem popTo_append (root : Fin n) (stack : List (Fin n)) :
    (popTo root stack).1 ++ (popTo root stack).2 = stack := by
  induction stack with
  | nil => rfl
  | cons v rest ih =>
      rw [popTo]
      by_cases h : v = root
      · rw [if_pos h]
        rfl
      · rw [if_neg h]
        exact congrArg (v :: ·) ih

/-- What is taken ends with the root, when it is there. -/
theorem exists_popTo_fst {root : Fin n} {stack : List (Fin n)} (h : root ∈ stack) :
    ∃ above, root ∉ above ∧ (popTo root stack).1 = above ++ [root] := by
  induction stack with
  | nil => exact nomatch h
  | cons v rest ih =>
      rw [popTo]
      by_cases hv : v = root
      · rw [if_pos hv, hv]
        exact ⟨[], List.not_mem_nil, rfl⟩
      · rw [if_neg hv]
        obtain ⟨above, hoff, heq⟩ := ih ((List.mem_cons.1 h).resolve_left (Ne.symm hv))
        refine ⟨v :: above, ?_, congrArg (v :: ·) heq⟩
        rw [List.mem_cons, not_or]
        exact ⟨Ne.symm hv, hoff⟩

/-- Take the component of `root` off the component stack. -/
def complete (s : ComponentWalk n) (root : Fin n) : ComponentWalk n :=
  let (component, below) := popTo root s.stack
  { s with
    onStack := Table.putAll s.onStack component false
    stack := below
    components := component :: s.components }

/-- Hand the low link of `v` on to the node now under way, if there is one. -/
def handOn (s : ComponentWalk n) (v : Fin n) : ComponentWalk n :=
  match s.work with
  | [] => s
  | parent :: _ => s.lower parent.node (s.lowlink.get v)

/-- Close the frame of `v`, above the frames `rest`: hand its low link on to the
    node it was discovered from, and take its component off the stack if it is
    the root of one. -/
def close (s : ComponentWalk n) (v : Fin n) (rest : List (Frame n)) : ComponentWalk n :=
  let s := ({ s with work := rest } : ComponentWalk n).handOn v
  if s.index.get v = some (s.lowlink.get v) then s.complete v else s

/-- One step of the walk; nothing happens when no node is under way. -/
def step (next : Adjacency n) (s : ComponentWalk n) : ComponentWalk n :=
  match s.work with
  | [] => s
  | ⟨v, []⟩ :: rest => s.close v rest
  | ⟨v, w :: pending⟩ :: rest =>
      let s := { s with work := ⟨v, pending⟩ :: rest }
      match s.index.get w with
      | none => discover next s w
      | some i => if s.onStack.get w then s.lower v i else s

/-- The steps left at most: each undiscovered node may bring a frame with all
    its successors, and each frame has its successors and its closing to come. -/
def measure (next : Adjacency n) (s : ComponentWalk n) : Nat :=
  Table.count s.index Option.isNone * (next.arcCount + 2)
    + total (fun f => f.pending.length + 1) s.work

@[simp] theorem lower_index (s : ComponentWalk n) (v : Fin n) (bound : Nat) :
    (s.lower v bound).index = s.index := rfl

@[simp] theorem lower_work (s : ComponentWalk n) (v : Fin n) (bound : Nat) :
    (s.lower v bound).work = s.work := rfl

@[simp] theorem complete_index (s : ComponentWalk n) (root : Fin n) :
    (s.complete root).index = s.index := rfl

@[simp] theorem complete_work (s : ComponentWalk n) (root : Fin n) :
    (s.complete root).work = s.work := rfl

@[simp] theorem handOn_index (s : ComponentWalk n) (v : Fin n) :
    (s.handOn v).index = s.index := by
  rw [handOn]
  split <;> rfl

@[simp] theorem handOn_work (s : ComponentWalk n) (v : Fin n) :
    (s.handOn v).work = s.work := by
  rw [handOn]
  split <;> rfl

@[simp] theorem close_index (s : ComponentWalk n) (v : Fin n) (rest : List (Frame n)) :
    (s.close v rest).index = s.index := by
  unfold close
  simp only
  split <;> simp

@[simp] theorem close_work (s : ComponentWalk n) (v : Fin n) (rest : List (Frame n)) :
    (s.close v rest).work = rest := by
  unfold close
  simp only
  split <;> simp

/-- **EVERY STEP COMES NEARER TO THE END**: while a node is under way, a step
    uses up some of the measure. -/
theorem measure_step_lt {next : Adjacency n} {s : ComponentWalk n} (h : s.work ≠ []) :
    (s.step next).measure next < s.measure next := by
  rw [step]
  split
  · next hwork => exact absurd hwork h
  · next v rest hwork =>
      simp only [measure, close_index, close_work, hwork, total_cons]
      omega
  · next v w pending rest hwork =>
      simp only
      split
      · next hnone =>
          have hlen := next.length_get_le_arcCount w
          have hput := Table.count_put (x := some s.nextIndex) (p := Option.isNone)
            (by rw [hnone]; rfl) rfl
          simp only [measure, discover, hwork, total_cons, List.length_cons]
          rw [← hput, Nat.succ_mul]
          omega
      · split
        · simp only [measure, lower_index, lower_work, hwork, total_cons, List.length_cons]
          omega
        · simp only [measure, hwork, total_cons, List.length_cons]
          omega

/-- Walk on until no node is under way. -/
def run (next : Adjacency n) (s : ComponentWalk n) : ComponentWalk n :=
  if _open : s.work = [] then s else run next (s.step next)
termination_by s.measure next
decreasing_by exact measure_step_lt _open

/-- What every step keeps holds at the end, when no node is under way. -/
theorem run_induction {next : Adjacency n} {P : ComponentWalk n → Prop}
    (hstep : ∀ s, P s → s.work ≠ [] → P (s.step next)) (s : ComponentWalk n) (h : P s) :
    P (run next s) ∧ (run next s).work = [] := by
  fun_induction run next s with
  | case1 s hwork => exact ⟨h, hwork⟩
  | case2 s hwork ih => exact ih (hstep s h hwork)

/-- Walk from `root`, unless it is discovered already. -/
def visit (next : Adjacency n) (s : ComponentWalk n) (root : Fin n) : ComponentWalk n :=
  if (s.index.get root).isNone then run next (discover next s root) else s

end ComponentWalk

/-- The strongly connected components, in the order in which the walk completes
    them. -/
def Adjacency.components {n : Nat} (next : Adjacency n) : List (List (Fin n)) :=
  ((List.finRange n).foldl (ComponentWalk.visit next) (ComponentWalk.start n)).components.reverse

/-- The number of the component of each node, for the components of more than
    one node. -/
def componentNumbers {n : Nat} (components : List (List (Fin n))) : Table n (Option Nat) :=
  components.zipIdx.foldl
    (fun numbers (component, k) =>
      if 1 < component.length then Table.putAll numbers component (some k) else numbers)
    (Table.fill n none)

/-- The strongly connected components of the graph in the order in which they
    are completed, the ids of each in ascending order. -/
def Graph.components (g : Graph) : List (List String) :=
  let ix := g.index
  ix.forward.components.map fun component => ascending (component.map ix.name)

end Flowchart
