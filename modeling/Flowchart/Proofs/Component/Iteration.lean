import Flowchart.Proofs.Component.Simulation

/-! # The iterations of the walk for components

    The walk over all nodes is a list of loops, one for each root that is not yet
    discovered when its turn comes, and a loop is a list of iterations.  `InLoop`
    is what holds whenever an iteration begins.  It is read off the bookkeeping
    (`Sound.inLoop`), but for the root, which stays the first node under way until
    its loop is over (`path_first_step`). -/

namespace Flowchart

namespace ComponentWalk

variable {n : Nat} {next : Adjacency n} {s : ComponentWalk n} {v root : Fin n}

/-! ## Loops and iterations -/

/-- The states in which the iterations of the loop from `s` begin, in order. -/
def iterations (next : Adjacency n) (s : ComponentWalk n) : List (ComponentWalk n) :=
  if _open : s.work = [] then [] else s :: iterations next (s.step next)
termination_by s.measure next
decreasing_by exact measure_step_lt _open

/-- A loop of the walk: its root, and the state in which it is entered. -/
structure Loop (n : Nat) where
  root : Fin n
  entry : ComponentWalk n

/-- The loops of the visits from `roots`; a root that is discovered already has
    none. -/
def loops (next : Adjacency n) : List (Fin n) → ComponentWalk n → List (Loop n)
  | [], _ => []
  | root :: roots, s =>
      if (s.index.get root).isNone then
        ⟨root, discover next s root⟩ :: loops next roots (visit next s root)
      else loops next roots (visit next s root)

/-- What an iteration does at the last node under way: look at a successor, or
    close its frame. -/
def turn? (s : ComponentWalk n) : Option (Fin n × Option (Fin n)) :=
  s.work.head?.map fun f => (f.node, f.pending.head?)

/-- The node that an iteration discovers. -/
def fresh? (s : ComponentWalk n) : Option (Fin n) :=
  (s.turn?.bind Prod.snd).filter fun w => (s.index.get w).isNone

theorem iterations_of_open (h : s.work ≠ []) :
    iterations next s = s :: iterations next (s.step next) := by
  rw [iterations, dif_neg h]

theorem iterations_of_closed (h : s.work = []) : iterations next s = [] := by
  rw [iterations, dif_pos h]

/-- What holds at first, and is kept by every iteration, holds whenever one
    begins. -/
theorem forall_mem_iterations {P : ComponentWalk n → Prop}
    (hstep : ∀ s, P s → s.work ≠ [] → P (s.step next)) (h : P s) :
    ∀ t ∈ iterations next s, P t ∧ t.work ≠ [] := by
  fun_induction iterations next s with
  | case1 s hwork => exact fun t ht => nomatch ht
  | case2 s hopen ih =>
      intro t ht
      rcases List.mem_cons.1 ht with rfl | ht
      · exact ⟨h, hopen⟩
      · exact ih (hstep s h hopen) t ht

/-- The loop gets to its end. -/
theorem runs_run (next : Adjacency n) (s : ComponentWalk n) :
    Runs next s (run next s) ∧ (run next s).work = [] := by
  fun_induction run next s with
  | case1 s hwork => exact ⟨Relation.ReflTransGen.refl, hwork⟩
  | case2 s hopen ih => exact ⟨(Runs.step hopen).trans ih.1, ih.2⟩

theorem visit_of_undiscovered (hnew : s.index.get root = none) :
    visit next s root = run next (discover next s root) := by
  rw [visit, hnew]
  rfl

/-- A loop is entered with the discovery of its root, when no node is under way. -/
theorem exists_of_mem_loops {roots : List (Fin n)} (h : Sound next s) (hwork : s.work = [])
    {loop : Loop n} (hloop : loop ∈ loops next roots s) :
    ∃ t, Sound next t ∧ t.work = [] ∧ t.index.get loop.root = none ∧
      loop.entry = discover next t loop.root := by
  induction roots generalizing s with
  | nil => exact nomatch hloop
  | cons root roots ih =>
      obtain ⟨hsound, hend, -⟩ := visit_sound h hwork root
      rw [loops] at hloop
      split at hloop
      · next hnew =>
          rcases List.mem_cons.1 hloop with rfl | hloop
          · exact ⟨s, h, hwork, Option.isNone_iff_eq_none.1 hnew, rfl⟩
          · exact ih hsound hend hloop
      · exact ih hsound hend hloop

/-! ## What holds when an iteration begins -/

/-- What holds when an iteration of the loop of `root` begins. -/
structure InLoop (next : Adjacency n) (root : Fin n) (s : ComponentWalk n) : Prop where
  marked_iff : ∀ v, s.onStack.get v = true ↔ v ∈ s.stack
  stack_nodup : s.stack.Nodup
  /-- From the bottom of the stack to its top the indices rise. -/
  stack_ascending : ∃ indices : List Nat,
    s.stack.reverse.map s.index.get = indices.map some ∧ indices.Pairwise (· < ·)
  /-- The nodes under way are a path from the root, along the stack. -/
  path_first : s.path.getLast? = some root
  path_linked : s.path.reverse.IsChain next.Leads
  path_nodup : s.path.Nodup
  path_stack : ∀ v ∈ s.path, v ∈ s.stack
  /-- A discovered node is on the stack or in one component, and once. -/
  discovered : ∀ v, s.Discovered v →
    (v ∈ s.stack ∧ v ∉ s.components.flatten) ∨ (v ∉ s.stack ∧ s.components.flatten.count v = 1)
  undiscovered : ∀ v, ¬ s.Discovered v → v ∉ s.stack ∧ v ∉ s.components.flatten
  index_kept : ∀ v i, s.index.get v = some i → (s.step next).index.get v = some i
  /-- The iteration discovers the node that gets its index in it. -/
  fresh_iff : ∀ v, s.fresh? = some v ↔ ¬ s.Discovered v ∧ (s.step next).Discovered v
  /-- A frame is closed with its node on the stack, so the pop of its component
      finds it. -/
  closing : ∀ v rest, s.work = ⟨v, []⟩ :: rest → ∃ above below,
    s.stack = above ++ v :: below ∧ v ∉ above ∧ popTo v s.stack = (above ++ [v], below) ∧
      ((s.step next).stack = s.stack ∧ (s.step next).components = s.components ∨
        (s.step next).stack = below ∧ (s.step next).components = (above ++ [v]) :: s.components)

/-- The root stays the first node under way, until none is. -/
theorem path_first_step (hopen : s.work ≠ []) (h : s.path.getLast? = some root) :
    (s.step next).work = [] ∨ (s.step next).path.getLast? = some root := by
  generalize hs : s.step next = t
  have hstep : Step next s t := hs ▸ step_spec hopen
  cases hstep with
  | @discover v w pending rest hwork hnew =>
      rw [path_of_work hwork] at h
      exact Or.inr (List.getLast?_cons_cons.trans h)
  | lower hwork hindex hon =>
      rw [path_of_work hwork] at h
      exact Or.inr h
  | pass hwork hindex hoff =>
      rw [path_of_work hwork] at h
      exact Or.inr h
  | @close v rest hwork =>
      rw [path_of_work hwork] at h
      rw [path, close_work]
      -- the frame below the last one closed is that of the root, or there is none
      cases rest with
      | nil => exact Or.inl rfl
      | cons parent rest => exact Or.inr (List.getLast?_cons_cons.symm.trans h)

/-- A node keeps its index. -/
theorem index_step (hopen : s.work ≠ []) {i : Nat} (h : s.index.get v = some i) :
    (s.step next).index.get v = some i := by
  generalize hs : s.step next = t
  have hstep : Step next s t := hs ▸ step_spec hopen
  cases hstep with
  | @discover u w pending rest hwork hnew =>
      have hne : w ≠ v := by
        rintro rfl
        rw [hnew] at h
        exact nomatch h
      show (Table.put s.index w _).get v = some i
      rw [Table.get_put, if_neg hne]
      exact h
  | lower hwork hindex hon => exact h
  | pass hwork hindex hoff => exact h
  | close hwork =>
      rw [close_index]
      exact h

theorem turn?_of_work {f : Frame n} {rest : List (Frame n)} (hwork : s.work = f :: rest) :
    s.turn? = some (f.node, f.pending.head?) := by
  rw [turn?, hwork]
  rfl

/-- An iteration discovers at most the successor it looks at. -/
theorem fresh?_of_look {u w : Fin n} {pending : List (Fin n)} {rest : List (Frame n)}
    (hwork : s.work = ⟨u, w :: pending⟩ :: rest) :
    s.fresh? = if (s.index.get w).isNone then some w else none := by
  rw [fresh?, turn?_of_work hwork]
  rfl

theorem fresh?_of_close {u : Fin n} {rest : List (Frame n)} (hwork : s.work = ⟨u, []⟩ :: rest) :
    s.fresh? = none := by
  rw [fresh?, turn?_of_work hwork]
  rfl

/-- The iteration discovers the node that gets its index in it. -/
theorem fresh?_eq_some_iff (hopen : s.work ≠ []) :
    s.fresh? = some v ↔ ¬ s.Discovered v ∧ (s.step next).Discovered v := by
  generalize hs : s.step next = t
  have hstep : Step next s t := hs ▸ step_spec hopen
  cases hstep with
  | @discover u w pending rest hwork hnew =>
      rw [fresh?_of_look hwork, hnew, discovered_discover_iff]
      constructor
      · intro h
        cases h
        exact ⟨fun hdisc => hdisc hnew, Or.inl rfl⟩
      · rintro ⟨hnot, hor⟩
        exact congrArg some (hor.resolve_right hnot).symm
  | lower hwork hindex hon =>
      rw [fresh?_of_look hwork, hindex]
      exact iff_of_false (Option.some_ne_none v).symm fun h => h.1 h.2
  | pass hwork hindex hoff =>
      rw [fresh?_of_look hwork, hindex]
      exact iff_of_false (Option.some_ne_none v).symm fun h => h.1 h.2
  | close hwork =>
      rw [fresh?_of_close hwork, Discovered, Discovered, close_index]
      exact iff_of_false (Option.some_ne_none v).symm fun h => h.1 h.2

/-- Closing a frame leaves the stack and the components, or moves the top of the
    stack down to the node to the components. -/
theorem close_effect (s : ComponentWalk n) (v : Fin n) (rest : List (Frame n)) :
    ((s.close v rest).stack = s.stack ∧ (s.close v rest).components = s.components) ∨
      ((s.close v rest).stack = (popTo v s.stack).2 ∧
        (s.close v rest).components = (popTo v s.stack).1 :: s.components) := by
  have hhand : (({ s with work := rest } : ComponentWalk n).handOn v).stack = s.stack ∧
      (({ s with work := rest } : ComponentWalk n).handOn v).components = s.components := by
    rw [handOn]
    split <;> exact ⟨rfl, rfl⟩
  unfold close
  generalize ({ s with work := rest } : ComponentWalk n).handOn v = t at hhand
  obtain ⟨hstack, hcomponents⟩ := hhand
  simp only
  split
  · right
    rw [← hstack, ← hcomponents]
    exact ⟨rfl, rfl⟩
  · exact Or.inl ⟨hstack, hcomponents⟩

/-- From the bottom of the stack to its top the indices rise. -/
theorem Orderly.stack_ascending (h : Orderly next s) : ∃ indices : List Nat,
    s.stack.reverse.map s.index.get = indices.map some ∧ indices.Pairwise (· < ·) := by
  refine ⟨s.stack.reverse.map s.rank, ?_, ?_⟩
  · rw [List.map_map]
    refine List.map_congr_left fun v hv => ?_
    exact (h.discovered_of_stack (List.mem_reverse.1 hv)).index_eq
  · rw [List.pairwise_map, List.pairwise_reverse]
    exact h.stack_descending

theorem nodup_of_descending {nodes : List (Fin n)}
    (h : nodes.Pairwise fun v u => s.rank u < s.rank v) : nodes.Nodup := by
  refine h.imp ?_
  rintro a b hab rfl
  exact Nat.lt_irrefl _ hab

theorem Sound.inLoop (h : Sound next s) (hopen : s.work ≠ [])
    (hfirst : s.path.getLast? = some root) : InLoop next root s where
  marked_iff := h.onStack_iff
  stack_nodup := nodup_of_descending h.stack_descending
  stack_ascending := h.toOrderly.stack_ascending
  path_first := hfirst
  path_linked := List.isChain_reverse.2 h.path_linked
  path_nodup := nodup_of_descending h.path_descending
  path_stack := h.path_stack
  discovered v hv := by
    rcases (h.discovered_iff v).1 hv with hstack | hsettled
    · exact Or.inl ⟨hstack, h.settled_off v hstack⟩
    · refine Or.inr ⟨fun hstack => h.settled_off v hstack hsettled, ?_⟩
      exact List.count_eq_one_of_mem h.settled_nodup hsettled
  undiscovered v hv := not_or.1 fun hor => hv ((h.discovered_iff v).2 hor)
  index_kept v i hi := index_step hopen hi
  fresh_iff v := fresh?_eq_some_iff hopen
  closing v rest hwork := by
    have hv : v ∈ s.stack := h.path_stack v (path_of_work hwork ▸ List.mem_cons_self)
    -- so the pop stops at the node, not at the bottom of the stack
    obtain ⟨above, hoff, htop⟩ := exists_popTo_fst hv
    have happ := popTo_append v s.stack
    rw [htop, List.append_assoc, List.singleton_append] at happ
    refine ⟨above, (popTo v s.stack).2, happ.symm, hoff, Prod.ext htop rfl, ?_⟩
    rw [step_of_close hwork, ← htop]
    exact close_effect s v rest

/-- **EVERY ITERATION BEGINS IN ORDER**, in a loop that is entered at its root. -/
theorem inLoop_iterations (h : Sound next s) (hfirst : s.path.getLast? = some root) :
    ∀ t ∈ iterations next s, InLoop next root t := by
  have hstep : ∀ t : ComponentWalk n, (Sound next t ∧ (t.work = [] ∨ t.path.getLast? = some root)) →
      t.work ≠ [] →
        Sound next (t.step next) ∧
          ((t.step next).work = [] ∨ (t.step next).path.getLast? = some root) := by
    rintro t ⟨ht, hpath⟩ hopen
    exact ⟨ht.step hopen, path_first_step hopen (hpath.resolve_left hopen)⟩
  intro t ht
  obtain ⟨⟨hsound, hpath⟩, hopen⟩ := forall_mem_iterations hstep ⟨h, Or.inr hfirst⟩ t ht
  exact hsound.inLoop hopen (hpath.resolve_left hopen)

/-- Without a node under way the stack is empty. -/
theorem Orderly.stack_eq_nil (h : Orderly next s) (hwork : s.work = []) : s.stack = [] := by
  rw [List.eq_nil_iff_forall_not_mem]
  intro v hv
  obtain ⟨u, hu, -⟩ := h.stack_path v hv
  rw [path, hwork] at hu
  cases hu

end ComponentWalk

end Flowchart
