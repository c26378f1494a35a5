import Flowchart.Proofs.Component.LowLink
import Flowchart.Proofs.Component.Recursion

/-! # The loop follows the recursion

    A call of the recursion is a stretch of the loop: from the discovery of a node
    to the point where its frame has no pending successor left, whatever frames
    are below it (`Agrees.scan`).  The two differ in one place.  The loop hands a
    low link on before it takes the component off the stack, the recursion
    afterwards; that makes no difference (`Recursion.finish_lower`).  So they find
    the same components in the same order (`components_textbook`). -/

namespace Flowchart

namespace ComponentWalk

variable {n : Nat} {next : Adjacency n} {s s' : ComponentWalk n}

/-! ## Stretches of the loop -/

/-- The loop gets from `s` to `s'`. -/
def Runs (next : Adjacency n) : ComponentWalk n → ComponentWalk n → Prop :=
  Relation.ReflTransGen fun s s' => s.work ≠ [] ∧ s.step next = s'

theorem Runs.step (h : s.work ≠ []) : Runs next s (s.step next) :=
  Relation.ReflTransGen.single ⟨h, rfl⟩

/-- Both ends of a stretch have the same end of the loop before them. -/
theorem Runs.run_eq (h : Runs next s s') : run next s = run next s' := by
  induction h with
  | refl => rfl
  | @tail b c _ hstep ih =>
      obtain ⟨hopen, rfl⟩ := hstep
      rw [ih, run, dif_neg hopen]

/-- A stretch keeps the state in order. -/
theorem Runs.sound (h : Runs next s s') (hs : Sound next s) : Sound next s' := by
  induction h with
  | refl => exact hs
  | tail _ hstep ih =>
      obtain ⟨hopen, rfl⟩ := hstep
      exact ih.step hopen

section Steps

variable {v w : Fin n} {pending : List (Fin n)} {rest : List (Frame n)}

theorem step_of_undiscovered (hwork : s.work = ⟨v, w :: pending⟩ :: rest)
    (hnew : s.index.get w = none) :
    s.step next = discover next { s with work := ⟨v, pending⟩ :: rest } w := by
  simp only [ComponentWalk.step, hwork, hnew]

theorem step_of_onStack {i : Nat} (hwork : s.work = ⟨v, w :: pending⟩ :: rest)
    (hindex : s.index.get w = some i) (hon : s.onStack.get w = true) :
    s.step next = lower { s with work := ⟨v, pending⟩ :: rest } v i := by
  simp only [ComponentWalk.step, hwork, hindex, hon, if_true]

theorem step_of_settled {i : Nat} (hwork : s.work = ⟨v, w :: pending⟩ :: rest)
    (hindex : s.index.get w = some i) (hoff : s.onStack.get w = false) :
    s.step next = { s with work := ⟨v, pending⟩ :: rest } := by
  simp only [ComponentWalk.step, hwork, hindex, hoff, Bool.false_eq_true, if_false]

theorem step_of_close (hwork : s.work = ⟨v, []⟩ :: rest) : s.step next = s.close v rest := by
  simp only [ComponentWalk.step, hwork]

end Steps

/-- A pop takes the nodes above the root and the root itself. -/
theorem map_popTo {α : Type} [DecidableEq α] {name : Fin n → α} (hname : name.Injective)
    {v : Fin n} {stack : List (Fin n)} (hv : v ∈ stack) :
    (popTo v stack).1.map name = (stack.map name).takeWhile (· ≠ name v) ++ [name v] ∧
      (popTo v stack).2.map name = ((stack.map name).dropWhile (· ≠ name v)).tail := by
  induction stack with
  | nil => cases hv
  | cons u stack ih =>
      rw [popTo, List.map_cons]
      by_cases heq : u = v
      · subst heq
        rw [if_pos rfl, List.takeWhile_cons_of_neg (by simp), List.dropWhile_cons_of_neg (by simp)]
        exact ⟨rfl, rfl⟩
      · have hne : name u ≠ name v := fun h => heq (hname h)
        obtain ⟨hfst, hsnd⟩ := ih ((List.mem_cons.1 hv).resolve_left (Ne.symm heq))
        rw [if_neg heq, List.takeWhile_cons_of_pos (by simpa using hne),
          List.dropWhile_cons_of_pos (by simpa using hne)]
        exact ⟨congrArg (name u :: ·) hfst, hsnd⟩

/-! ## States that agree -/

variable {α : Type} {name : Fin n → α} {t : Recursion α}

/-- The loop and the recursion are at the same point, node for node; `name` says
    which nodes correspond. -/
structure Agrees (name : Fin n → α) (s : ComponentWalk n) (t : Recursion α) : Prop where
  undiscovered_iff : ∀ v, name v ∈ t.undiscovered ↔ s.index.get v = none
  index_eq : ∀ v i, s.index.get v = some i → t.index (name v) = i
  lowlink_eq : ∀ v, t.lowlink (name v) = s.lowlink.get v
  stack_eq : t.stack = s.stack.map name
  nextIndex_eq : t.nextIndex = s.nextIndex
  components_eq : t.components = s.components.map (·.map name)

namespace Agrees

/-- The frames have no counterpart in the state of the recursion. -/
theorem withWork (h : Agrees name s t) (work : List (Frame n)) :
    Agrees name { s with work := work } t :=
  ⟨h.undiscovered_iff, h.index_eq, h.lowlink_eq, h.stack_eq, h.nextIndex_eq, h.components_eq⟩

variable [DecidableEq α]

/-- Corresponding tables still correspond after a change of corresponding entries. -/
private theorem update_eq_get_put {β : Type} (hname : name.Injective) {f : α → β}
    {table : Table n β} (h : ∀ v, f (name v) = table.get v) (w : Fin n) (x : β) (v : Fin n) :
    Function.update f (name w) x (name v) = (Table.put table w x).get v := by
  rw [Table.get_put]
  by_cases heq : w = v
  · rw [heq, if_pos rfl, Function.update_self]
  · rw [if_neg heq, Function.update_of_ne fun hv => heq (hname hv).symm]
    exact h v

theorem start {nodes : List α} (hnodes : ∀ v : Fin n, name v ∈ nodes) :
    Agrees name (ComponentWalk.start n) (Recursion.start nodes) where
  undiscovered_iff v := by
    show name v ∈ nodes.toFinset ↔ (Table.fill n none).get v = none
    rw [List.mem_toFinset, Table.get_fill]
    exact ⟨fun _ => rfl, fun _ => hnodes v⟩
  index_eq v i h := by
    rw [show (ComponentWalk.start n).index.get v = none from Table.get_fill none v] at h
    cases h
  lowlink_eq v := (Table.get_fill 0 v).symm
  stack_eq := rfl
  nextIndex_eq := rfl
  components_eq := rfl

theorem discover (h : Agrees name s t) (hname : name.Injective) (w : Fin n) :
    Agrees name (s.discover next w) (t.discover (name w)) where
  undiscovered_iff v := by
    show name v ∈ t.undiscovered.erase (name w) ↔
      (Table.put s.index w (some s.nextIndex)).get v = none
    rw [Finset.mem_erase, Table.get_put]
    by_cases heq : w = v
    · subst heq
      rw [if_pos rfl]
      exact ⟨fun hv => absurd rfl hv.1, fun hv => absurd hv (Option.some_ne_none _)⟩
    · rw [if_neg heq, h.undiscovered_iff v]
      exact and_iff_right fun hv => heq (hname hv).symm
  index_eq v i hi := by
    show Function.update t.index (name w) t.nextIndex (name v) = i
    rw [show (s.discover next w).index.get v = (Table.put s.index w (some s.nextIndex)).get v
      from rfl, Table.get_put] at hi
    by_cases heq : w = v
    · subst heq
      rw [if_pos rfl] at hi
      rw [Function.update_self, h.nextIndex_eq]
      exact Option.some.inj hi
    · rw [if_neg heq] at hi
      rw [Function.update_of_ne fun hv => heq (hname hv).symm]
      exact h.index_eq v i hi
  lowlink_eq v := by
    show Function.update t.lowlink (name w) t.nextIndex (name v) = _
    rw [h.nextIndex_eq]
    exact update_eq_get_put hname h.lowlink_eq w s.nextIndex v
  stack_eq := congrArg (name w :: ·) h.stack_eq
  nextIndex_eq := congrArg (· + 1) h.nextIndex_eq
  components_eq := h.components_eq

theorem lower (h : Agrees name s t) (hname : name.Injective) (v : Fin n) (bound : Nat) :
    Agrees name (s.lower v bound) (t.lower (name v) bound) :=
  { h with
    lowlink_eq := by
      intro u
      show Function.update t.lowlink (name v) (min (t.lowlink (name v)) bound) (name u) = _
      rw [h.lowlink_eq v]
      exact update_eq_get_put hname h.lowlink_eq v _ u }

theorem complete (h : Agrees name s t) (hname : name.Injective) {v : Fin n}
    (hv : v ∈ s.stack) : Agrees name (s.complete v) (t.pop (name v)) := by
  obtain ⟨hfst, hsnd⟩ := map_popTo hname hv
  refine { h with stack_eq := ?_, components_eq := ?_ }
  · show (t.stack.dropWhile (· ≠ name v)).tail = (popTo v s.stack).2.map name
    rw [h.stack_eq, hsnd]
  · show (t.stack.takeWhile (· ≠ name v) ++ [name v]) :: t.components
      = (popTo v s.stack).1.map name :: s.components.map (·.map name)
    rw [h.stack_eq, h.components_eq, hfst]

/-- The test for a root has the same outcome on both sides. -/
theorem finish (h : Agrees name s t) (hname : name.Injective) {v : Fin n} (hv : v ∈ s.stack)
    (hdisc : s.Discovered v) :
    Agrees name (if s.index.get v = some (s.lowlink.get v) then s.complete v else s)
      (t.finish (name v)) := by
  have hroot : s.index.get v = some (s.lowlink.get v) ↔
      t.lowlink (name v) = t.index (name v) := by
    rw [h.lowlink_eq v, h.index_eq v _ hdisc.index_eq, hdisc.index_eq, Option.some.injEq, eq_comm]
  rw [Recursion.finish]
  by_cases hlow : t.lowlink (name v) = t.index (name v)
  · rw [if_pos hlow, if_pos (hroot.2 hlow)]
    exact h.complete hname hv
  · rw [if_neg hlow, if_neg fun hr => hlow (hroot.1 hr)]
    exact h

section Close

variable {v u : Fin n} {pending : List (Fin n)} {rest : List (Frame n)}

/-- Closing the first frame finishes its node. -/
theorem close_first (h : Agrees name s t) (hname : name.Injective) (hs : Sound next s)
    (hwork : s.work = [⟨v, []⟩]) : Agrees name (s.close v []) (t.finish (name v)) := by
  have hpath : v ∈ s.path := path_of_work hwork ▸ List.mem_cons_self
  exact (h.withWork []).finish hname (hs.path_stack v hpath) (hs.discovered_of_path hpath)

/-- Closing another frame finishes its node, and hands its low link on. -/
theorem close_above (h : Agrees name s t) (hname : name.Injective) (hs : Sound next s)
    (hwork : s.work = ⟨v, []⟩ :: ⟨u, pending⟩ :: rest) :
    Agrees name (s.close v (⟨u, pending⟩ :: rest))
      ((t.finish (name v)).lower (name u) ((t.finish (name v)).lowlink (name v))) := by
  have hpath : v ∈ s.path := path_of_work hwork ▸ List.mem_cons_self
  have hlow := (h.withWork (⟨u, pending⟩ :: rest)).lower hname u (s.lowlink.get v)
  rw [← Recursion.finish_lower, h.lowlink_eq v]
  exact hlow.finish hname (hs.path_stack v hpath) (hs.discovered_of_path hpath)

end Close

/-- **A CALL IS A STRETCH OF THE LOOP**: the loop uses up the successors of the
    last frame as the recursion goes through them, and leaves the frames below
    alone. -/
theorem scan {succ : α → List α} (hname : name.Injective)
    (hsucc : ∀ v, (next.get v).map name = succ (name v)) {s : ComponentWalk n}
    {t : Recursion α} {v : Fin n} {ws : List (Fin n)} {rest : List (Frame n)}
    (h : Agrees name s t) (hs : Sound next s) (hwork : s.work = ⟨v, ws⟩ :: rest) :
    ∃ s', Runs next s s' ∧ s'.work = ⟨v, []⟩ :: rest ∧
      Agrees name s' (Recursion.scan succ t (name v) (ws.map name)).state := by
  have hfirst : Runs next s (s.step next) := Runs.step (hwork ▸ List.cons_ne_nil _ _)
  match ws with
  | [] =>
      refine ⟨s, Relation.ReflTransGen.refl, hwork, ?_⟩
      rw [List.map_nil, Recursion.scan_nil]
      exact h
  | w :: ws =>
      rw [List.map_cons]
      have hused := h.withWork (⟨v, ws⟩ :: rest)
      cases hindex : s.index.get w with
      | none =>
          -- the call for `w` first, then the frame of `w` is closed, then the others
          have hw : name w ∈ t.undiscovered := (h.undiscovered_iff w).2 hindex
          rw [step_of_undiscovered hwork hindex] at hfirst
          obtain ⟨s₁, hruns₁, hwork₁, h₁⟩ :=
            scan hname hsucc (hused.discover hname w) (hfirst.sound hs) rfl
          have hcall : Runs next s s₁ := hfirst.trans hruns₁
          have hclosed := h₁.close_above hname (hcall.sound hs) hwork₁
          have hreturn : Runs next s (s₁.close w (⟨v, ws⟩ :: rest)) :=
            hcall.tail ⟨hwork₁ ▸ List.cons_ne_nil _ _, step_of_close hwork₁⟩
          rw [hsucc w, ← Recursion.connect_state hw] at hclosed
          obtain ⟨s', hruns, hwork', h'⟩ :=
            scan hname hsucc hclosed (hreturn.sound hs) (close_work _ _ _)
          refine ⟨s', hreturn.trans hruns, hwork', ?_⟩
          rw [Recursion.scan_cons_of_undiscovered hw]
          exact h'
      | some i =>
          -- no frame is opened, and the other successors are next
          have hw : name w ∉ t.undiscovered := by
            rw [h.undiscovered_iff w, hindex]
            exact Option.some_ne_none i
          have hstack : name w ∈ t.stack ↔ s.onStack.get w = true := by
            rw [h.stack_eq, List.mem_map_of_injective hname, hs.onStack_iff w]
          by_cases hon : s.onStack.get w = true
          · rw [step_of_onStack hwork hindex hon] at hfirst
            obtain ⟨s', hruns, hwork', h'⟩ :=
              scan hname hsucc (hused.lower hname v i) (hfirst.sound hs) rfl
            refine ⟨s', hfirst.trans hruns, hwork', ?_⟩
            rw [Recursion.scan_cons_of_stack hw (hstack.2 hon), h.index_eq w i hindex]
            exact h'
          · rw [step_of_settled hwork hindex (Bool.eq_false_iff.2 hon)] at hfirst
            obtain ⟨s', hruns, hwork', h'⟩ := scan hname hsucc hused (hfirst.sound hs) rfl
            refine ⟨s', hfirst.trans hruns, hwork', ?_⟩
            rw [Recursion.scan_cons_of_settled hw fun hmem => hon (hstack.1 hmem)]
            exact h'
termination_by (t.undiscovered.card, ws.length)
decreasing_by
  · exact Prod.Lex.left _ _ (Finset.card_erase_lt_of_mem hw)
  · have hsubset := (Recursion.connect succ t (name w) hw).undiscovered_subset
    exact Prod.Lex.right' _ (Finset.card_le_card hsubset) (Nat.lt_succ_self _)
  · exact Prod.Lex.right _ (Nat.lt_succ_self _)
  · exact Prod.Lex.right _ (Nat.lt_succ_self _)

theorem visit {succ : α → List α} (hname : name.Injective)
    (hsucc : ∀ v, (next.get v).map name = succ (name v)) (h : Agrees name s t)
    (hs : Sound next s) (hwork : s.work = []) (root : Fin n) :
    Agrees name (ComponentWalk.visit next s root) (t.visit succ (name root)) := by
  rw [ComponentWalk.visit, Recursion.visit]
  by_cases hnew : s.index.get root = none
  · have hroot : name root ∈ t.undiscovered := (h.undiscovered_iff root).2 hnew
    have hfirst := hs.discover_first hwork hnew
    obtain ⟨s', hruns, hwork', h'⟩ := (h.discover hname root).scan hname hsucc hfirst
      (show (s.discover next root).work = [⟨root, next.get root⟩] from congrArg _ hwork)
    have hend : (s'.step next).work = [] := by
      rw [step_of_close hwork', close_work]
    rw [if_pos (by rw [hnew]; rfl), dif_pos hroot, Recursion.connect_state hroot, hruns.run_eq,
      run, dif_neg (hwork' ▸ List.cons_ne_nil _ _), run, dif_pos hend,
      step_of_close hwork', ← hsucc root]
    exact h'.close_first hname (hruns.sound hfirst) hwork'
  · rw [if_neg (by simpa using hnew), dif_neg fun hroot => hnew ((h.undiscovered_iff root).1 hroot)]
    exact h

theorem visits {succ : α → List α} (hname : name.Injective)
    (hsucc : ∀ v, (next.get v).map name = succ (name v)) (h : Agrees name s t)
    (hs : Sound next s) (hwork : s.work = []) (roots : List (Fin n)) :
    Agrees name (roots.foldl (ComponentWalk.visit next) s)
      ((roots.map name).foldl (Recursion.visit succ) t) := by
  induction roots generalizing s t with
  | nil => exact h
  | cons root roots ih =>
      obtain ⟨hsound, hend, -⟩ := visit_sound hs hwork root
      exact ih (h.visit hname hsucc hs hwork root) hsound hend

end Agrees

end ComponentWalk

/-- **THE LOOP FINDS WHAT THE RECURSION FINDS**, in the same order. -/
theorem Adjacency.map_components {n : Nat} {next : Adjacency n} {α : Type} [DecidableEq α]
    {name : Fin n → α} {succ : α → List α} (hname : name.Injective)
    (hsucc : ∀ v, (next.get v).map name = succ (name v)) :
    next.components.map (·.map name)
      = Recursion.componentsOf succ ((List.finRange n).map name) := by
  have hstart : ComponentWalk.Agrees name (ComponentWalk.start n)
      (Recursion.start ((List.finRange n).map name)) :=
    ComponentWalk.Agrees.start fun v => List.mem_map_of_mem (List.mem_finRange v)
  have hend := hstart.visits hname hsucc (ComponentWalk.Sound.start next) rfl (List.finRange n)
  rw [Adjacency.components, Recursion.componentsOf, List.map_reverse, hend.components_eq]

namespace Graph

/-- The components as the recursion finds them, visiting the nodes in ascending
    order and following the edges in theirs. -/
def textbookComponents (g : Graph) : List (List String) :=
  Recursion.componentsOf g.targets g.nodeNames

/-- **THE COMPONENTS ARE THOSE OF THE RECURSION**, in the order in which it pops
    them and with the same members; within each the members are put in order. -/
theorem components_textbook (g : Graph) :
    g.index.forward.components.map (·.map g.index.name) = g.textbookComponents ∧
      g.components = g.textbookComponents.map ascending := by
  have hsame : g.index.forward.components.map (·.map g.index.name) = g.textbookComponents := by
    rw [textbookComponents, nodeNames_eq_map_name]
    exact Adjacency.map_components (name_injective g) (map_name_forward g)
  refine ⟨hsame, ?_⟩
  rw [← hsame, List.map_map]
  rfl

end Graph

end Flowchart
