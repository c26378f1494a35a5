import Mathlib.Logic.Function.Iterate
import Flowchart.Proofs.Cycle.Simple

/-! # The iterations of the walk for cycles

    A walk from a node of a component is its steps from the start, one for each
    iteration, and what every step keeps holds after any number of them.  `InStep`
    is how the frames, the path and the marks agree then: it is read off `Aligned`,
    for any order in which the successors inside the component may be listed.  The
    measure bounds the number of steps (`exists_iterate_eq_run`), and when the last
    frame is gone the path and the marks are gone with it (`cycleWalk_in_step`). -/

namespace Flowchart

variable {n : Nat}

namespace CycleWalk

variable {next : Adjacency n} {origin : Fin n} {s : CycleWalk n}

/-- The walk from `origin` after `k` iterations. -/
def after (next : Adjacency n) (origin : Fin n) (k : Nat) : CycleWalk n :=
  (step next origin)^[k] (start next origin)

/-- No frame, no path and no mark is left. -/
structure Clear (s : CycleWalk n) : Prop where
  work : s.work = []
  path : s.path = []
  unmarked : ∀ v, s.onPath.get v = false

/-! ## Counting the steps -/

/-- Nothing happens when no node is under way. -/
theorem step_of_closed (h : s.work = []) : s.step next origin = s := by
  rw [step, h]

/-- What holds at first, and is kept by every step, holds after any number of
    them. -/
theorem iterate_induction {P : CycleWalk n → Prop}
    (hstep : ∀ s, P s → s.work ≠ [] → P (s.step next origin)) (h : P s) (k : Nat) :
    P ((step next origin)^[k] s) := by
  induction k with
  | zero => exact h
  | succ k ih =>
      rw [Function.iterate_succ_apply']
      by_cases hwork : ((step next origin)^[k] s).work = []
      · rw [step_of_closed hwork]
        exact ih
      · exact hstep _ ih hwork

/-- **THE LOOP ENDS**: after some number of steps, no more than the measure, the
    walk is where its run ends, and before that a node is under way. -/
theorem exists_iterate_eq_run (next : Adjacency n) (origin : Fin n) (s : CycleWalk n) :
    ∃ k ≤ s.measure next, (∀ j < k, ((step next origin)^[j] s).work ≠ []) ∧
      (step next origin)^[k] s = run next origin s := by
  fun_induction run next origin s with
  | case1 s hwork => exact ⟨0, Nat.zero_le _, fun j hj => absurd hj (Nat.not_lt_zero j), rfl⟩
  | case2 s hopen ih =>
      obtain ⟨k, hk, hbefore, hrun⟩ := ih
      refine ⟨k + 1, Nat.lt_of_le_of_lt hk (measure_step_lt hopen), ?_, hrun⟩
      intro j hj
      cases j with
      | zero => exact hopen
      | succ j => exact hbefore j (Nat.lt_of_succ_lt_succ hj)

/-- Frames, path and marks are in step after every number of iterations. -/
theorem aligned_after (next : Adjacency n) (origin : Fin n) (k : Nat) :
    Aligned next origin (after next origin k) :=
  iterate_induction (fun _ h hopen => h.step hopen) (Aligned.start next origin) k

theorem run_work (next : Adjacency n) (origin : Fin n) (s : CycleWalk n) :
    (run next origin s).work = [] :=
  (run_induction (P := fun _ => True) (fun _ h _ => h) s trivial).2

/-! ## Paths inside a part of the nodes -/

namespace Aligned

/-- A path from a node of a part that no arc leaves stays in that part. -/
theorem path_within (h : Aligned next origin s) {part : List (Fin n)} (horigin : origin ∈ part)
    (hnext : ∀ v ∈ part, ∀ w, next.Leads v w → w ∈ part) : ∀ v ∈ s.path, v ∈ part := by
  refine h.linked.backwards_induction (· ∈ part) s.path ?_ ?_
  · intro v u hlead hu
    exact hnext u hu v hlead
  · intro hne
    rw [h.origin_last _ (List.getLast?_eq_some_getLast hne)]
    exact horigin

/-- The path begins at the origin while a node is under way. -/
theorem path_first (h : Aligned next origin s) (hopen : s.work ≠ []) :
    s.path.getLast? = some origin := by
  refine h.getLast?_path fun hnil => ?_
  rw [← h.frames, List.map_eq_nil_iff] at hnil
  exact hopen hnil

/-- Without a node under way the path is empty, and no node is marked. -/
theorem clear (h : Aligned next origin s) (hwork : s.work = []) : Clear s := by
  have hpath : s.path = [] := by
    rw [← h.frames, hwork]
    rfl
  refine ⟨hwork, hpath, fun v => ?_⟩
  rw [← Bool.not_eq_true, h.onPath_iff, hpath]
  exact List.not_mem_nil

end Aligned

end CycleWalk

/-- Listed from the last to the first, the successors are the same. -/
theorem Adjacency.perm_reversed (next : Adjacency n) (v : Fin n) :
    ((Vector.map List.reverse next).get v).Perm (next.get v) := by
  show ((Vector.map List.reverse next)[v.val]).Perm next[v.val]
  rw [Vector.getElem_map]
  exact List.reverse_perm next[v.val]

/-! ## The walks over a graph -/

namespace Graph

open CycleWalk

/-- How the frames, the path and the marks of a walk from `origin` in `component`
    agree. -/
structure InStep (g : Graph) (component : List (Fin g.index.order)) (origin : Fin g.index.order)
    (s : CycleWalk g.index.order) : Prop where
  /-- The frames are those of the nodes of the path, one by one. -/
  frames : s.work.map (·.node) = s.path
  path_first : s.work ≠ [] → s.path.getLast? = some origin
  path_nodup : s.path.Nodup
  path_within : ∀ v ∈ s.path, v ∈ component
  path_linked : s.path.reverse.IsChain fun v w => g.Leads (g.index.name v) (g.index.name w)
  marked_iff : ∀ v, s.onPath.get v = true ↔ v ∈ s.path
  /-- No more nodes are under way than the component has. -/
  depth_le : s.work.length ≤ component.length

theorem inStep_of_aligned {g : Graph} {component : List (Fin g.index.order)}
    {origin : Fin g.index.order} {next : Adjacency g.index.order} {s : CycleWalk g.index.order}
    (horigin : origin ∈ component)
    (hnext : ∀ v ∈ component, ∀ w, next.Leads v w → w ∈ component ∧ g.index.forward.Leads v w)
    (h : Aligned next origin s) : InStep g component origin s := by
  have hwithin : ∀ v ∈ s.path, v ∈ component :=
    h.path_within horigin fun v hv w hlead => (hnext v hv w hlead).1
  refine
    { frames := h.frames
      path_first := h.path_first
      path_nodup := h.nodup
      path_within := hwithin
      path_linked := ?_
      marked_iff := h.onPath_iff
      depth_le := ?_ }
  · rw [List.isChain_reverse]
    refine h.linked.imp_of_mem_imp ?_
    intro v u _ hu hlead
    exact forward_leads_iff.1 (hnext u (hwithin u hu) v hlead).2
  · have hdepth : s.work.length = s.path.length := by rw [← h.frames, List.length_map]
    rw [hdepth]
    exact (List.subperm_of_subset h.nodup hwithin).length_le

/-- **FRAMES, PATH AND MARKS STAY IN STEP** in every walk for cycles.  From any node
    of a component of more than one node, in whatever order the successors inside
    the component are listed, they agree after every number of iterations; and
    after some number of them the walk is at its end, with no frame, path or mark
    left. -/
theorem cycleWalk_in_step (g : Graph) {component : List (Fin g.index.order)}
    {origin : Fin g.index.order} (hcomponent : component ∈ g.index.forward.components)
    (hlength : 1 < component.length) (horigin : origin ∈ component) :
    let inside := g.index.forward.inside (componentNumbers g.index.forward.components)
    (∀ v ∈ component, inside.get v = (g.index.forward.get v).filter component.contains) ∧
      ∀ next : Adjacency g.index.order, (∀ v ∈ component, (next.get v).Perm (inside.get v)) →
        (∀ k, InStep g component origin (after next origin k)) ∧
          ∃ k ≤ (start next origin).measure next,
            (∀ j < k, (after next origin j).work ≠ []) ∧ Clear (after next origin k) ∧
            after next origin k = (start next origin).run next origin := by
  intro inside
  have hinside : ∀ v ∈ component,
      inside.get v = (g.index.forward.get v).filter component.contains :=
    fun v hv => Adjacency.get_inside_component hcomponent hlength hv
  refine ⟨hinside, fun next hnext => ?_⟩
  have hleads : ∀ v ∈ component, ∀ w, next.Leads v w →
      w ∈ component ∧ g.index.forward.Leads v w := by
    intro v hv w hlead
    have hw : w ∈ inside.get v := (hnext v hv).mem_iff.1 hlead
    rw [hinside v hv] at hw
    obtain ⟨hsuccessor, hmember⟩ := List.mem_filter.1 hw
    exact ⟨List.contains_iff_mem.1 hmember, hsuccessor⟩
  obtain ⟨k, hk, hbefore, hrun⟩ := exists_iterate_eq_run next origin (start next origin)
  have hwork : (after next origin k).work = [] := by
    rw [after, hrun]
    exact run_work next origin (start next origin)
  refine ⟨fun k => inStep_of_aligned horigin hleads (aligned_after next origin k), k, hk, hbefore,
    ?_, hrun⟩
  exact (aligned_after next origin k).clear hwork

/-- Two cycles that overlap, walked from a node of both with the last successor
    first. -/
theorem cycleWalk_in_step_overlapping :
    let g : Graph :=
      { direction := "LR"
        edges := [⟨"a", "b", none, .arrow⟩, ⟨"b", "a", none, .arrow⟩, ⟨"b", "c", none, .arrow⟩,
          ⟨"c", "a", none, .arrow⟩, ⟨"c", "d", none, .arrow⟩] }
    let inside := g.index.forward.inside (componentNumbers g.index.forward.components)
    let next : Adjacency g.index.order := Vector.map List.reverse inside
    ∃ component ∈ g.index.forward.components, ∃ origin ∈ component,
      component.map g.index.name = ["c", "b", "a"] ∧ g.index.name origin = "b" ∧
      (∀ k, InStep g component origin (after next origin k)) ∧
      Clear ((start next origin).run next origin) := by
  intro g inside next
  have hcomponents : g.index.forward.components.map (·.map g.index.name)
      = [["d"], ["c", "b", "a"]] := by
    decide +kernel +zetaReduce
  obtain ⟨component, hcomponent, hids⟩ :=
    List.mem_map.1 (hcomponents ▸ List.mem_cons_of_mem _ List.mem_cons_self)
  have hb : "b" ∈ component.map g.index.name := by
    rw [hids]
    decide
  obtain ⟨origin, horigin, hname⟩ := List.mem_map.1 hb
  have hlength : 1 < component.length := by
    rw [← List.length_map g.index.name, hids]
    decide
  obtain ⟨-, hwalks⟩ := g.cycleWalk_in_step hcomponent hlength horigin
  obtain ⟨hkept, k, -, -, hclear, hrun⟩ :=
    hwalks next fun v _ => Adjacency.perm_reversed inside v
  exact ⟨component, hcomponent, origin, horigin, hids, hname, hkept, hrun ▸ hclear⟩

end Graph

end Flowchart
