import Mathlib.Algebra.BigOperators.Fin
import Mathlib.Data.Multiset.Count
import Flowchart.Proofs.Component.Iteration
import Flowchart.Proofs.Component.Partition

/-! # The accounts of the walk for components

    Why the loops end is a matter of accounts.  What is due at a node is to look at
    each of its successors and then to close its frame; and what is due of a node is
    to discover it.  Every iteration pays for one turn, from the front of what is
    due at its node (`turnsLedger`), and nothing is due at the end.  So over the
    whole walk every turn is taken once (`Adjacency.filter_turns`), and the
    iterations are as many as the nodes and the edges
    (`Graph.componentWalk_in_order`). -/

namespace Flowchart

/-- What is due in a frame: to look at each pending successor, and then to close
    it. -/
def Frame.turns {n : Nat} (f : Frame n) : List (Fin n × Option (Fin n)) :=
  f.pending.map (fun w => (f.node, some w)) ++ [(f.node, none)]

/-- All turns in a frame are at its node. -/
theorem Frame.filter_turns {n : Nat} (f : Frame n) (v : Fin n) :
    f.turns.filter (·.1 = v) = if f.node = v then f.turns else [] := by
  have hnode : ∀ turn ∈ f.turns, turn.1 = f.node := by
    rw [Frame.turns, List.forall_mem_append, List.forall_mem_map, List.forall_mem_singleton]
    exact ⟨fun w _ => rfl, rfl⟩
  split
  · next heq =>
      exact List.filter_eq_self.2 fun turn hturn => decide_eq_true ((hnode turn hturn).trans heq)
  · next hne =>
      refine List.filter_eq_nil_iff.2 fun turn hturn heq => hne ?_
      exact (hnode turn hturn).symm.trans (of_decide_eq_true heq)

namespace ComponentWalk

variable {n : Nat} {next : Adjacency n} {s : ComponentWalk n} {v : Fin n}

/-! ## What is due -/

/-- An account of the walk: what is due in a state, what the discovery of a root
    pays, and what an iteration pays.  Payments are made from the front of what is
    due. -/
structure Ledger (next : Adjacency n) (α : Type) where
  due : ComponentWalk n → List α
  opening : Fin n → List α
  turn : ComponentWalk n → List α
  due_discover : ∀ s root, Sound next s → s.work = [] → s.index.get root = none →
    due s = opening root ++ due (discover next s root)
  due_step : ∀ s, Sound next s → s.work ≠ [] → due s = turn s ++ due (s.step next)

namespace Ledger

variable {α : Type}

/-- What a loop pays. -/
def paid (a : Ledger next α) (loop : Loop n) : List α :=
  a.opening loop.root ++ (iterations next loop.entry).flatMap a.turn

theorem due_run (a : Ledger next α) (h : Sound next s) :
    a.due s = (iterations next s).flatMap a.turn ++ a.due (run next s) := by
  fun_induction run next s with
  | case1 s hwork => rw [iterations_of_closed hwork, List.flatMap_nil, List.nil_append]
  | case2 s hopen ih =>
      rw [iterations_of_open hopen, List.flatMap_cons, List.append_assoc, ← ih (h.step hopen)]
      exact a.due_step s h hopen

theorem due_visits (a : Ledger next α) (roots : List (Fin n)) (h : Sound next s)
    (hwork : s.work = []) :
    a.due s = (loops next roots s).flatMap a.paid ++ a.due (roots.foldl (visit next) s) := by
  induction roots generalizing s with
  | nil => rfl
  | cons root roots ih =>
      obtain ⟨hsound, hend, -⟩ := visit_sound h hwork root
      have hrest := ih hsound hend
      rw [loops, List.foldl_cons]
      split
      · next hnew =>
          have hnone := Option.isNone_iff_eq_none.1 hnew
          rw [List.flatMap_cons, List.append_assoc, ← hrest, visit_of_undiscovered hnone, paid,
            List.append_assoc, ← a.due_run (h.discover_first hwork hnone)]
          exact a.due_discover s root h hwork hnone
      · next hold =>
          rw [← hrest, visit, if_neg hold]

end Ledger

/-! ### The turns at a node -/

/-- The turns at `v` that are due, in its open frame or in the frame still to be
    opened. -/
def turnsDue (next : Adjacency n) (v : Fin n) (s : ComponentWalk n) :
    List (Fin n × Option (Fin n)) :=
  (s.work.flatMap Frame.turns).filter (·.1 = v)
    ++ if (s.index.get v).isNone then Frame.turns ⟨v, next.get v⟩ else []

/-- No turn is due in an open frame of a node that is not under way. -/
theorem filter_turns_eq_nil (h : v ∉ s.path) :
    (s.work.flatMap Frame.turns).filter (·.1 = v) = [] := by
  rw [List.filter_flatMap, List.flatMap_eq_nil_iff]
  intro f hf
  rw [Frame.filter_turns, if_neg]
  exact fun heq => h (List.mem_map.2 ⟨f, hf, heq⟩)

/-- A discovery opens a frame that was to be opened. -/
theorem turnsDue_discover {w : Fin n} (hnew : s.index.get w = none) (hoff : w ∉ s.path) :
    turnsDue next v (discover next s w) = turnsDue next v s := by
  have hwork : (discover next s w).work = ⟨w, next.get w⟩ :: s.work := rfl
  have hindex : (discover next s w).index = Table.put s.index w (some s.nextIndex) := rfl
  rw [turnsDue, turnsDue, hwork, hindex, Table.get_put, List.flatMap_cons, List.filter_append,
    Frame.filter_turns]
  by_cases hwv : w = v
  · subst hwv
    rw [filter_turns_eq_nil hoff, hnew, if_pos rfl, if_pos rfl]
    simp
  · rw [if_neg hwv, if_neg hwv, List.nil_append]

/-- A turn is the first one due in the open frames. -/
theorem turnsDue_pay {s' : ComponentWalk n} {turn : Fin n × Option (Fin n)}
    (hturn : s.turn? = some turn)
    (hwork : s.work.flatMap Frame.turns = turn :: s'.work.flatMap Frame.turns)
    (hindex : s'.index = s.index) :
    turnsDue next v s = s.turn?.toList.filter (·.1 = v) ++ turnsDue next v s' := by
  rw [turnsDue, turnsDue, hturn, hwork, hindex, Option.toList_some, ← List.append_assoc,
    ← List.filter_append, List.singleton_append]

/-- The turns at `v` are due in the order of its successors. -/
def turnsLedger (next : Adjacency n) (v : Fin n) : Ledger next (Fin n × Option (Fin n)) where
  due := turnsDue next v
  opening _ := []
  turn s := s.turn?.toList.filter (·.1 = v)
  due_discover s root h hwork hnew := by
    refine (turnsDue_discover hnew ?_).symm
    rw [path, hwork]
    exact List.not_mem_nil
  due_step s h hopen := by
    generalize hs : s.step next = t
    have hstep : Step next s t := hs ▸ step_spec hopen
    cases hstep with
    | @discover u w pending rest hwork hnew =>
        -- the look is paid, and the frame of `w` is opened where it was to be opened
        have hoff : w ∉ s.path := fun hw => h.discovered_of_path hw hnew
        rw [path_of_work hwork] at hoff
        rw [turnsDue_discover (s := { s with work := ⟨u, pending⟩ :: rest }) hnew hoff]
        exact turnsDue_pay (turn?_of_work hwork) (by rw [hwork]; rfl) rfl
    | lower hwork hindex hon =>
        exact turnsDue_pay (turn?_of_work hwork) (by rw [hwork]; rfl) rfl
    | pass hwork hindex hoff =>
        exact turnsDue_pay (turn?_of_work hwork) (by rw [hwork]; rfl) rfl
    | close hwork =>
        refine turnsDue_pay (turn?_of_work hwork) ?_ (close_index _ _ _)
        rw [hwork, close_work]
        rfl

/-! ### The discovery of a node -/

/-- The discovery of `v`, while it is due. -/
def discoveryDue (v : Fin n) (s : ComponentWalk n) : List (Fin n) :=
  if (s.index.get v).isNone then [v] else []

theorem discoveryDue_discover (next : Adjacency n) {w : Fin n} (hnew : s.index.get w = none) :
    discoveryDue v s = [w].filter (· = v) ++ discoveryDue v (discover next s w) := by
  have hindex : (discover next s w).index = Table.put s.index w (some s.nextIndex) := rfl
  rw [discoveryDue, discoveryDue, hindex, Table.get_put]
  by_cases hwv : w = v
  · subst hwv
    rw [hnew, if_pos rfl]
    simp
  · rw [if_neg hwv]
    simp [hwv]

/-- Every node is to be discovered. -/
def discoveryLedger (next : Adjacency n) (v : Fin n) : Ledger next (Fin n) where
  due := discoveryDue v
  opening root := [root].filter (· = v)
  turn s := s.fresh?.toList.filter (· = v)
  due_discover s root _ _ hnew := discoveryDue_discover next hnew
  due_step s _ hopen := by
    generalize hs : s.step next = t
    have hstep : Step next s t := hs ▸ step_spec hopen
    cases hstep with
    | discover hwork hnew =>
        rw [fresh?_of_look hwork, hnew]
        exact discoveryDue_discover next (s := { s with work := _ }) hnew
    | lower hwork hindex hon =>
        rw [fresh?_of_look hwork, hindex, if_neg (by simp)]
        rfl
    | pass hwork hindex hoff =>
        rw [fresh?_of_look hwork, hindex, if_neg (by simp)]
        rfl
    | close hwork =>
        rw [fresh?_of_close hwork, discoveryDue, discoveryDue, close_index]
        rfl

end ComponentWalk

/-! ## The whole walk -/

namespace Adjacency

open ComponentWalk

variable {n : Nat} {next : Adjacency n}

/-- The loops of the walk over all nodes. -/
def loops (next : Adjacency n) : List (Loop n) :=
  ComponentWalk.loops next (List.finRange n) (ComponentWalk.start n)

/-- The nodes that are discovered, in order: the root of each loop, and what its
    iterations discover. -/
def discoveries (next : Adjacency n) : List (Fin n) :=
  next.loops.flatMap fun loop => loop.root :: (iterations next loop.entry).filterMap fresh?

/-- What the iterations do, in order. -/
def turns (next : Adjacency n) : List (Fin n × Option (Fin n)) :=
  next.loops.flatMap fun loop => (iterations next loop.entry).filterMap turn?

/-- What is due at first is paid in the loops, when nothing is due at the end. -/
theorem paid_eq_due {α : Type} (a : Ledger next α) (h : a.due next.finish = []) :
    next.loops.flatMap a.paid = a.due (ComponentWalk.start n) := by
  have hbalance := a.due_visits (List.finRange n) (Sound.start next) rfl
  rw [← finish, h, List.append_nil] at hbalance
  exact hbalance.symm

theorem isNone_index_start (v : Fin n) : ((ComponentWalk.start n).index.get v).isNone = true := by
  rw [ComponentWalk.start, Table.get_fill]
  rfl

theorem isNone_index_finish (next : Adjacency n) (v : Fin n) :
    (next.finish.index.get v).isNone = false := by
  have hdisc : next.finish.Discovered v :=
    (next.finish_sound.1.discovered_iff v).2 (Or.inr (next.finish_sound.2 v))
  rw [hdisc.index_eq]
  rfl

theorem finish_work (next : Adjacency n) : next.finish.work = [] :=
  (visits_sound (List.finRange n) (Sound.start next) rfl).2.1

/-- **EVERY NODE IS DISCOVERED ONCE.** -/
theorem filter_discoveries (next : Adjacency n) (v : Fin n) :
    next.discoveries.filter (· = v) = [v] := by
  have hpaid : next.discoveries.filter (· = v)
      = next.loops.flatMap (discoveryLedger next v).paid := by
    rw [discoveries, List.filter_flatMap]
    refine List.flatMap_congr fun loop _ => ?_
    rw [Ledger.paid, ← List.singleton_append, List.filter_append, List.filterMap_eq_flatMap_toList,
      List.filter_flatMap]
    rfl
  rw [hpaid, paid_eq_due]
  · show discoveryDue v (ComponentWalk.start n) = [v]
    rw [discoveryDue, isNone_index_start, if_pos rfl]
  · show discoveryDue v next.finish = []
    rw [discoveryDue, isNone_index_finish, if_neg Bool.false_ne_true]

/-- **EVERY SUCCESSOR IS LOOKED AT ONCE**, in order, and every frame is closed
    once. -/
theorem filter_turns (next : Adjacency n) (v : Fin n) :
    next.turns.filter (·.1 = v) = Frame.turns ⟨v, next.get v⟩ := by
  have hpaid : next.turns.filter (·.1 = v) = next.loops.flatMap (turnsLedger next v).paid := by
    rw [turns, List.filter_flatMap]
    refine List.flatMap_congr fun loop _ => ?_
    rw [Ledger.paid, List.filterMap_eq_flatMap_toList, List.filter_flatMap]
    rfl
  rw [hpaid, paid_eq_due]
  · show turnsDue next v (ComponentWalk.start n) = _
    rw [turnsDue, isNone_index_start, if_pos rfl]
    rfl
  · show turnsDue next v next.finish = []
    rw [turnsDue, finish_work, isNone_index_finish, if_neg Bool.false_ne_true]
    rfl

/-! ### The number of iterations -/

/-- Parts of a list, one for each node, have its length together. -/
theorem sum_length_filter {α : Type} (items : List α) (key : α → Fin n) :
    ∑ v, (items.filter (key · = v)).length = items.length := by
  have hcount : ∀ v, (items.filter (key · = v)).length
      = Multiset.count v (items.map key : Multiset (Fin n)) := by
    intro v
    rw [Multiset.coe_count, List.count_eq_countP, List.countP_map, List.countP_eq_length_filter]
    rfl
  rw [Finset.sum_congr rfl fun v _ => hcount v,
    Multiset.sum_count_eq_card fun v _ => Finset.mem_univ v, Multiset.coe_card, List.length_map]

theorem length_turns (next : Adjacency n) :
    next.turns.length = n + ∑ v, (next.get v).length := by
  have hturns : ∀ v, (next.turns.filter (·.1 = v)).length = 1 + (next.get v).length := by
    intro v
    rw [filter_turns, Frame.turns, List.length_append, List.length_map, List.length_singleton,
      Nat.add_comm]
  rw [← sum_length_filter next.turns Prod.fst, Finset.sum_congr rfl fun v _ => hturns v,
    Finset.sum_add_distrib, Finset.sum_const, Finset.card_univ, Fintype.card_fin, smul_eq_mul,
    Nat.mul_one]

/-- The successors of all nodes are as many as the arcs. -/
theorem sum_length_ofArcs (arcs : List (Arc n)) :
    ∑ v, ((ofArcs arcs).get v).length = arcs.length := by
  rw [← sum_length_filter arcs Arc.source]
  refine Finset.sum_congr rfl fun v _ => ?_
  rw [get_ofArcs, List.length_map]

/-- Each iteration takes one turn. -/
theorem sum_length_iterations (next : Adjacency n) :
    (next.loops.map fun loop => (iterations next loop.entry).length).sum = next.turns.length := by
  rw [turns, List.length_flatMap]
  congr 1
  refine List.map_congr_left fun loop _ => ?_
  rw [List.length_filterMap_eq_countP, eq_comm, List.countP_eq_length]
  intro s hs
  obtain ⟨-, hopen⟩ := forall_mem_iterations (P := fun _ => True) (fun _ h _ => h) trivial s hs
  obtain ⟨f, rest, hwork⟩ := List.exists_cons_of_ne_nil hopen
  rw [turn?_of_work hwork]
  rfl

end Adjacency

/-! ## The walk over a graph -/

namespace Graph

open ComponentWalk

/-- **THE WALK STAYS IN ORDER AND ENDS**: whenever an iteration begins, the marks,
    the stack, the path and the components fit together, and every loop ends, with
    an empty stack.  Over the whole walk every node is discovered once, and at every
    node each successor is looked at once, in order, before its frame is closed; so
    the iterations are as many as the nodes and the edges together. -/
theorem componentWalk_in_order (g : Graph) :
    let next := g.index.forward
    (∀ loop ∈ next.loops,
        (∀ s ∈ iterations next loop.entry, InLoop next loop.root s) ∧
        Runs next loop.entry (run next loop.entry) ∧
        (run next loop.entry).work = [] ∧ (run next loop.entry).stack = []) ∧
      (∀ v, next.discoveries.count v = 1) ∧
      (∀ v, next.turns.filter (·.1 = v)
        = (next.get v).map (fun w => (v, some w)) ++ [(v, none)]) ∧
      (next.loops.map fun loop => (iterations next loop.entry).length).sum
        = g.nodeNames.length + g.edges.length := by
  intro next
  refine ⟨fun loop hloop => ?_, fun v => ?_, next.filter_turns, ?_⟩
  · obtain ⟨s, hsound, hwork, hnew, hentry⟩ := exists_of_mem_loops (Sound.start next) rfl hloop
    have hentered : Sound next loop.entry := hentry ▸ hsound.discover_first hwork hnew
    have hfirst : loop.entry.path.getLast? = some loop.root := by
      rw [hentry]
      show (loop.root :: s.path).getLast? = _
      rw [path, hwork]
      rfl
    obtain ⟨hruns, hend⟩ := runs_run next loop.entry
    exact ⟨inLoop_iterations hentered hfirst, hruns, hend,
      (hruns.sound hentered).stack_eq_nil hend⟩
  · have hcount : next.discoveries.count v = (next.discoveries.filter (· = v)).length :=
      List.count_eq_length_filter
    rw [hcount, next.filter_discoveries]
    rfl
  · have hedges := congrArg List.length g.index_arcs_edge
    rw [List.length_map, List.length_range] at hedges
    rw [Adjacency.sum_length_iterations, Adjacency.length_turns, ← hedges,
      ← Adjacency.sum_length_ofArcs]
    rfl

/-- A component of two nodes, and a root that is found after it. -/
theorem componentWalk_in_order_two_loops :
    let g : Graph :=
      { direction := "LR"
        edges := [⟨"a", "b", none, .arrow⟩, ⟨"b", "a", none, .arrow⟩,
          ⟨"c", "a", none, .arrow⟩] }
    let next := g.index.forward
    ∃ loop ∈ next.loops, g.index.name loop.root = "c" ∧ InLoop next loop.root loop.entry ∧
      (run next loop.entry).stack = [] := by
  intro g next
  have hroots : next.loops.map (fun loop => g.index.name loop.root) = ["a", "c"] := by
    decide +kernel +zetaReduce
  obtain ⟨loop, hloop, hroot⟩ := List.mem_map.1 (hroots ▸ List.mem_cons_of_mem _ List.mem_cons_self)
  obtain ⟨hloops, -⟩ := g.componentWalk_in_order
  obtain ⟨hkept, -, -, hempty⟩ := hloops loop hloop
  refine ⟨loop, hloop, hroot, hkept _ ?_, hempty⟩
  obtain ⟨s, -, -, -, hentry⟩ := exists_of_mem_loops (Sound.start next) rfl hloop
  rw [iterations_of_open (by rw [hentry]; exact List.cons_ne_nil _ _)]
  exact List.mem_cons_self

end Graph

end Flowchart
