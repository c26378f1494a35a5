import Flowchart.Graph.Component
import Mathlib.Data.List.FinRange

/-! # Node numbers — the walk for components over plain numbers

    A node of the walk is typed to be in range of its tables.  A program with
    arrays has plain numbers, and reads an array at a number that it kept
    somewhere: on a stack, in a frame, among successors.  Here the walk is written
    out that way, and a step fails where a number has no entry.  Forgetting the
    ranges of a typed state gives a plain one (`ComponentWalk.plain`), from which
    every step succeeds and is the plain form of the typed step
    (`Checked.Walk.step_plain`). -/

namespace Flowchart

/-! ## Tables -/

namespace Table

variable {n : Nat} {α : Type}

/-- The entry at number `i`. -/
def read? (t : Table n α) (i : Nat) : Option α := t[i]?

/-- The table with the entry at number `i` replaced by `x`. -/
def put? (t : Table n α) (i : Nat) (x : α) : Option (Table n α) :=
  if h : i < n then some (put t ⟨i, h⟩ x) else none

@[simp] theorem read?_val (t : Table n α) (v : Fin n) : read? t v = some (t.get v) := by
  rw [read?, Vector.getElem?_eq_getElem v.isLt]
  rfl

@[simp] theorem put?_val (t : Table n α) (v : Fin n) (x : α) : put? t v x = some (put t v x) := by
  rw [put?, dif_pos v.isLt]

/-- Only a number below the size of the table has an entry to read. -/
theorem isSome_read?_iff {t : Table n α} {i : Nat} : (read? t i).isSome ↔ i < n := by
  rw [read?, isSome_getElem?]

/-- Only a number below the size of the table has an entry to put. -/
theorem isSome_put?_iff {t : Table n α} {i : Nat} {x : α} : (put? t i x).isSome ↔ i < n := by
  rw [put?]
  by_cases h : i < n
  · rw [dif_pos h]
    exact ⟨fun _ => h, fun _ => rfl⟩
  · rw [dif_neg h]
    exact ⟨nofun, fun hlt => absurd hlt h⟩

theorem foldlM_put? (t : Table n α) (nodes : List (Fin n)) (x : α) :
    (nodes.map Fin.val).foldlM (fun t i => put? t i x) t = some (putAll t nodes x) := by
  induction nodes generalizing t with
  | nil => rfl
  | cons v nodes ih =>
      rw [List.map_cons, List.foldlM_cons, put?_val]
      exact ih (put t v x)

end Table

/-- The successors of each node by their numbers. -/
def Adjacency.plain {n : Nat} (next : Adjacency n) : Table n (List Nat) :=
  Vector.map (List.map Fin.val) next

@[simp] theorem Adjacency.get_plain {n : Nat} (next : Adjacency n) (v : Fin n) :
    next.plain.get v = (next.get v).map Fin.val :=
  Vector.getElem_map _ v.isLt

/-! ## Loops -/

namespace Checked

section Loop

variable {σ : Type} {closed : σ → Bool} {step : σ → Option σ}

/-- The loop that starts in a state ends in another: each step up to there
    succeeds. -/
inductive Ends (closed : σ → Bool) (step : σ → Option σ) : σ → σ → Prop where
  | here {s : σ} (h : closed s = true) : Ends closed step s s
  | later {s t final : σ} (h : closed s = false) (hstep : step s = some t)
      (hrest : Ends closed step t final) : Ends closed step s final

open scoped Classical in
/-- The state in which a loop ends; none if a step fails, or if it never ends. -/
noncomputable def loop (closed : σ → Bool) (step : σ → Option σ) (s : σ) : Option σ :=
  if h : ∃ final, Ends closed step s final then some h.choose else none

/-- A loop ends in one state at most. -/
theorem Ends.unique {s a b : σ} (ha : Ends closed step s a) (hb : Ends closed step s b) :
    a = b := by
  induction ha with
  | here h =>
      cases hb with
      | here => rfl
      | later hopen => cases hopen.symm.trans h
  | later hopen hstep _ ih =>
      cases hb with
      | here h => cases hopen.symm.trans h
      | later _ hstep' hrest =>
          cases hstep.symm.trans hstep'
          exact ih hrest

theorem loop_eq_some {s final : σ} (h : Ends closed step s final) :
    loop closed step s = some final := by
  have hends : ∃ final, Ends closed step s final := ⟨final, h⟩
  rw [loop, dif_pos hends, hends.choose_spec.unique h]

end Loop

/-! ## The walk -/

/-- A node under way, and its successors still to come, by number. -/
structure Frame where
  node : Nat
  pending : List Nat

/-- The state of the walk for components of `n` nodes, by number. -/
structure Walk (n : Nat) where
  index : Table n (Option Nat)
  lowlink : Table n Nat
  onStack : Table n Bool
  stack : List Nat
  nextIndex : Nat
  components : List (List Nat)
  work : List Frame

namespace Walk

variable {n : Nat}

def start (n : Nat) : Walk n where
  index := Table.fill n none
  lowlink := Table.fill n 0
  onStack := Table.fill n false
  stack := []
  nextIndex := 0
  components := []
  work := []

def discover (next : Table n (List Nat)) (s : Walk n) (v : Nat) : Option (Walk n) := do
  let index ← Table.put? s.index v (some s.nextIndex)
  let lowlink ← Table.put? s.lowlink v s.nextIndex
  let onStack ← Table.put? s.onStack v true
  let pending ← Table.read? next v
  return ⟨index, lowlink, onStack, v :: s.stack, s.nextIndex + 1, s.components,
    ⟨v, pending⟩ :: s.work⟩

def lower (s : Walk n) (v bound : Nat) : Option (Walk n) := do
  let lowlink ← Table.put? s.lowlink v (Nat.min (← Table.read? s.lowlink v) bound)
  return { s with lowlink }

/-- Take the top of `stack` down to `root`, each with its mark: what is taken,
    what is below, and the marks that are left. -/
def popTo (root : Nat) : List Nat → Table n Bool → Option (List Nat × List Nat × Table n Bool)
  | [], marks => some ([], [], marks)
  | v :: rest, marks => do
      let marks ← Table.put? marks v false
      if v = root then return ([v], rest, marks)
      else
        let (component, below, marks) ← popTo root rest marks
        return (v :: component, below, marks)

def complete (s : Walk n) (root : Nat) : Option (Walk n) := do
  let (component, stack, onStack) ← popTo root s.stack s.onStack
  return { s with onStack, stack, components := component :: s.components }

def handOn (s : Walk n) (v : Nat) : Option (Walk n) := do
  match s.work with
  | [] => return s
  | parent :: _ => s.lower parent.node (← Table.read? s.lowlink v)

def close (s : Walk n) (v : Nat) (rest : List Frame) : Option (Walk n) := do
  let s ← ({ s with work := rest } : Walk n).handOn v
  if (← Table.read? s.index v) = some (← Table.read? s.lowlink v) then s.complete v else return s

def step (next : Table n (List Nat)) (s : Walk n) : Option (Walk n) := do
  match s.work with
  | [] => return s
  | ⟨v, []⟩ :: rest => s.close v rest
  | ⟨v, w :: pending⟩ :: rest =>
      let s := { s with work := ⟨v, pending⟩ :: rest }
      match ← Table.read? s.index w with
      | none => discover next s w
      | some i => if ← Table.read? s.onStack w then s.lower v i else return s

noncomputable def run (next : Table n (List Nat)) : Walk n → Option (Walk n) :=
  loop (·.work.isEmpty) (step next)

noncomputable def visit (next : Table n (List Nat)) (s : Walk n) (root : Nat) :
    Option (Walk n) := do
  if (← Table.read? s.index root).isNone then run next (← discover next s root) else return s

end Walk

/-- The components of `n` nodes by number, in the order in which they are
    completed. -/
noncomputable def components {n : Nat} (next : Table n (List Nat)) :
    Option (List (List Nat)) := do
  return (← (List.range n).foldlM (Walk.visit next) (Walk.start n)).components.reverse

/-- The number of the component of each node, for the components of more than
    one node. -/
def componentNumbers (n : Nat) (components : List (List Nat)) : Option (Table n (Option Nat)) :=
  components.zipIdx.foldlM
    (fun numbers (component, k) =>
      if 1 < component.length then component.foldlM (fun t v => Table.put? t v (some k)) numbers
      else some numbers)
    (Table.fill n none)

end Checked

/-! ## Nothing is out of range -/

def Frame.plain {n : Nat} (f : Frame n) : Checked.Frame := ⟨f.node, f.pending.map Fin.val⟩

/-- The state with its nodes by number. -/
def ComponentWalk.plain {n : Nat} (s : ComponentWalk n) : Checked.Walk n where
  index := s.index
  lowlink := s.lowlink
  onStack := s.onStack
  stack := s.stack.map Fin.val
  nextIndex := s.nextIndex
  components := s.components.map (List.map Fin.val)
  work := s.work.map Frame.plain

namespace Checked

namespace Walk

variable {n : Nat} (next : Adjacency n) (s : ComponentWalk n)

theorem discover_plain (v : Fin n) :
    discover next.plain s.plain v = some (s.discover next v).plain := by
  simp only [discover, ComponentWalk.plain, Table.put?_val, Table.read?_val, Adjacency.get_plain,
    Option.bind_eq_bind, Option.bind_some]
  rfl

theorem lower_plain (v : Fin n) (bound : Nat) :
    s.plain.lower v bound = some (s.lower v bound).plain := by
  simp only [lower, ComponentWalk.plain, Table.read?_val, Table.put?_val, Option.bind_eq_bind,
    Option.bind_some]
  rfl

theorem popTo_plain (root : Fin n) (stack : List (Fin n)) (marks : Table n Bool) :
    popTo root (stack.map Fin.val) marks =
      some ((ComponentWalk.popTo root stack).1.map Fin.val,
        (ComponentWalk.popTo root stack).2.map Fin.val,
        Table.putAll marks (ComponentWalk.popTo root stack).1 false) := by
  -- what is taken first has its mark cleared before the rest is looked at
  induction stack generalizing marks with
  | nil => rfl
  | cons v rest ih =>
      rw [List.map_cons, popTo, ComponentWalk.popTo, Table.put?_val]
      simp only [Option.bind_eq_bind, Option.bind_some, ih, Fin.val_inj]
      split <;> rfl

theorem complete_plain (root : Fin n) : s.plain.complete root = some (s.complete root).plain := by
  have hpop := popTo_plain root s.stack s.onStack
  simp only [complete, ComponentWalk.plain, hpop, Option.bind_eq_bind, Option.bind_some]
  rfl

theorem handOn_plain (v : Fin n) : s.plain.handOn v = some (s.handOn v).plain := by
  have hframes : s.plain.work = s.work.map Frame.plain := rfl
  have hlow : Table.read? s.plain.lowlink v = some (s.lowlink.get v) := Table.read?_val s.lowlink v
  rw [handOn, ComponentWalk.handOn, hframes]
  cases s.work with
  | nil => rfl
  | cons parent rest =>
      simp only [List.map_cons, hlow, Option.bind_eq_bind, Option.bind_some]
      exact lower_plain s parent.node (s.lowlink.get v)

theorem close_plain (v : Fin n) (rest : List (Flowchart.Frame n)) :
    s.plain.close v (rest.map Frame.plain) = some (s.close v rest).plain := by
  have hhand := handOn_plain { s with work := rest } v
  have hopened : ({ s.plain with work := rest.map Frame.plain } : Walk n)
      = ({ s with work := rest } : ComponentWalk n).plain := rfl
  rw [close, ComponentWalk.close, hopened, hhand]
  -- the low-link is read after it was handed on, in another state
  generalize ({ s with work := rest } : ComponentWalk n).handOn v = t
  have hindex : Table.read? t.plain.index v = some (t.index.get v) := Table.read?_val t.index v
  have hlow : Table.read? t.plain.lowlink v = some (t.lowlink.get v) := Table.read?_val t.lowlink v
  simp only [hindex, hlow, complete_plain, Option.bind_eq_bind, Option.bind_some]
  split <;> rfl

/-- **NO STEP IS OUT OF RANGE**: it is the step of the typed walk. -/
theorem step_plain : s.plain.step next.plain = some (s.step next).plain := by
  have hframes : s.plain.work = s.work.map Frame.plain := rfl
  rw [step, ComponentWalk.step, hframes]
  cases s.work with
  | nil => rfl
  | cons frame rest =>
      obtain ⟨v, pending⟩ := frame
      cases pending with
      | nil => exact close_plain s v rest
      | cons w pending =>
          have hindex : Table.read? s.plain.index w = some (s.index.get w) :=
            Table.read?_val s.index w
          have hmark : Table.read? s.plain.onStack w = some (s.onStack.get w) :=
            Table.read?_val s.onStack w
          have hopened : ({ s.plain with
                work := ⟨v, pending.map Fin.val⟩ :: rest.map Frame.plain } : Walk n)
              = ({ s with work := ⟨v, pending⟩ :: rest } : ComponentWalk n).plain := rfl
          simp only [List.map_cons, Frame.plain, hindex, hmark, hopened, Option.bind_eq_bind,
            Option.bind_some, discover_plain, lower_plain]
          cases s.index.get w with
          | none => rfl
          | some i => cases s.onStack.get w <;> rfl

/-- A walk from a typed state comes to its end. -/
theorem ends_plain : Ends (·.work.isEmpty) (step next.plain) s.plain (s.run next).plain := by
  fun_induction ComponentWalk.run next s with
  | case1 s hwork =>
      exact .here (List.isEmpty_iff.2 (congrArg (List.map Frame.plain) hwork))
  | case2 s hwork ih =>
      have hopen : s.plain.work.isEmpty = false :=
        List.isEmpty_eq_false_iff.2 fun hnone => hwork (List.map_eq_nil_iff.1 hnone)
      exact .later hopen (step_plain next s) ih

theorem run_plain : run next.plain s.plain = some (s.run next).plain :=
  loop_eq_some (ends_plain next s)

theorem visit_plain (root : Fin n) :
    visit next.plain s.plain root = some (s.visit next root).plain := by
  have hindex : Table.read? s.plain.index root = some (s.index.get root) :=
    Table.read?_val s.index root
  rw [visit, ComponentWalk.visit, hindex]
  simp only [Option.bind_eq_bind, Option.bind_some, discover_plain, run_plain]
  split <;> rfl

theorem foldlM_visit_plain (roots : List (Fin n)) :
    (roots.map Fin.val).foldlM (visit next.plain) s.plain
      = some (roots.foldl (ComponentWalk.visit next) s).plain := by
  induction roots generalizing s with
  | nil => rfl
  | cons root roots ih =>
      rw [List.map_cons, List.foldlM_cons, visit_plain]
      exact ih (s.visit next root)

end Walk

theorem components_plain {n : Nat} (next : Adjacency n) :
    components next.plain = some (next.components.map (List.map Fin.val)) := by
  have hstart : Walk.start n = (ComponentWalk.start n).plain := rfl
  rw [components, ← List.map_coe_finRange_eq_range, hstart, Walk.foldlM_visit_plain]
  exact congrArg some List.map_reverse.symm

theorem componentNumbers_plain {n : Nat} (components : List (List (Fin n))) :
    componentNumbers n (components.map (List.map Fin.val))
      = some (Flowchart.componentNumbers components) := by
  rw [componentNumbers, Flowchart.componentNumbers, List.zipIdx_map, List.foldlM_map]
  simp only [Prod.map, id, List.length_map, Table.foldlM_put?]
  rw [← Option.pure_def, ← List.foldlM_pure]
  congr 1
  funext numbers entry
  split <;> rfl

end Checked

end Flowchart
