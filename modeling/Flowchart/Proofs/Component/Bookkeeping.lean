import Mathlib.Data.List.Basic
import Mathlib.Data.List.Chain
import Mathlib.Data.List.Pairwise
import Mathlib.Logic.Relation
import Flowchart.Graph.Component
import Flowchart.Proofs.Path

/-! # The bookkeeping of the walk for components

    `Step` lists what one step of the walk can do.  `Orderly` is what holds of
    its tables and stacks between two steps: the nodes under way are a path on
    the component stack, the stack lists its nodes by descending index, and every
    discovered node is on the stack or in one component.  Each operation of the
    walk keeps it. -/

namespace Flowchart

namespace ComponentWalk

variable {n : Nat} {next : Adjacency n} {s : ComponentWalk n}

/-! ## What a step can do -/

/-- The outcomes of a step while a node is under way. -/
inductive Step (next : Adjacency n) (s : ComponentWalk n) : ComponentWalk n → Prop where
  | discover {v w : Fin n} {pending : List (Fin n)} {rest : List (Frame n)}
      (hwork : s.work = ⟨v, w :: pending⟩ :: rest) (hnew : s.index.get w = none) :
      Step next s (discover next { s with work := ⟨v, pending⟩ :: rest } w)
  | lower {v w : Fin n} {pending : List (Fin n)} {rest : List (Frame n)} {i : Nat}
      (hwork : s.work = ⟨v, w :: pending⟩ :: rest) (hindex : s.index.get w = some i)
      (hon : s.onStack.get w = true) :
      Step next s { s.lower v i with work := ⟨v, pending⟩ :: rest }
  | pass {v w : Fin n} {pending : List (Fin n)} {rest : List (Frame n)} {i : Nat}
      (hwork : s.work = ⟨v, w :: pending⟩ :: rest) (hindex : s.index.get w = some i)
      (hoff : s.onStack.get w = false) :
      Step next s { s with work := ⟨v, pending⟩ :: rest }
  | close {v : Fin n} {rest : List (Frame n)} (hwork : s.work = ⟨v, []⟩ :: rest) :
      Step next s (s.close v rest)

theorem step_spec (h : s.work ≠ []) : Step next s (s.step next) := by
  rw [step]
  split
  · next hwork => exact absurd hwork h
  · next v rest hwork => exact Step.close hwork
  · next v w pending rest hwork =>
      simp only
      split
      · next hnew => exact Step.discover hwork hnew
      · next i hindex =>
          split
          · next hon => exact Step.lower hwork hindex hon
          · next hoff => exact Step.pass hwork hindex (Bool.eq_false_iff.2 hoff)

/-! ## Views of a state -/

/-- The index of a node; zero while it has none. -/
def rank (s : ComponentWalk n) (v : Fin n) : Nat := (s.index.get v).getD 0

def Discovered (s : ComponentWalk n) (v : Fin n) : Prop := s.index.get v ≠ none

/-- The nodes under way, latest first. -/
def path (s : ComponentWalk n) : List (Fin n) := s.work.map (·.node)

/-- The nodes of the components found. -/
def settled (s : ComponentWalk n) : List (Fin n) := s.components.flatten

/-- `w` is a successor of `v` still to be looked at. -/
def Awaits (s : ComponentWalk n) (v w : Fin n) : Prop :=
  ∃ f ∈ s.work, f.node = v ∧ w ∈ f.pending

theorem path_of_work {v : Fin n} {pending : List (Fin n)} {rest : List (Frame n)}
    (hwork : s.work = ⟨v, pending⟩ :: rest) : s.path = v :: rest.map (·.node) := by
  rw [path, hwork]
  rfl

/-- The index of a discovered node is its rank. -/
theorem Discovered.index_eq {v : Fin n} (h : s.Discovered v) : s.index.get v = some (s.rank v) := by
  cases hv : s.index.get v with
  | none => exact absurd hv h
  | some i => rw [rank, hv, Option.getD_some]

theorem rank_of_index {v : Fin n} {i : Nat} (h : s.index.get v = some i) : s.rank v = i := by
  rw [rank, h, Option.getD_some]

theorem discovered_of_index {v : Fin n} {i : Nat} (h : s.index.get v = some i) :
    s.Discovered v := by
  rw [Discovered, h]
  exact Option.some_ne_none i

theorem rank_discover_self (next : Adjacency n) (s : ComponentWalk n) (w : Fin n) :
    (discover next s w).rank w = s.nextIndex := by
  show ((Table.put s.index w (some s.nextIndex)).get w).getD 0 = _
  rw [Table.get_put, if_pos rfl, Option.getD_some]

theorem rank_discover_of_ne {w x : Fin n} (h : w ≠ x) :
    (discover next s w).rank x = s.rank x := by
  show ((Table.put s.index w (some s.nextIndex)).get x).getD 0 = _
  rw [Table.get_put, if_neg h]
  rfl

theorem discovered_discover_iff (next : Adjacency n) {w x : Fin n} :
    (discover next s w).Discovered x ↔ x = w ∨ s.Discovered x := by
  show (Table.put s.index w (some s.nextIndex)).get x ≠ none ↔ _
  rw [Table.get_put]
  by_cases h : w = x
  · rw [if_pos h]
    exact ⟨fun _ => Or.inl h.symm, fun _ => Option.some_ne_none _⟩
  · rw [if_neg h]
    exact ⟨Or.inr, fun hor => hor.resolve_left (Ne.symm h)⟩

theorem lowlink_lower_of_ne {v x : Fin n} (h : v ≠ x) (bound : Nat) :
    (s.lower v bound).lowlink.get x = s.lowlink.get x := by
  show (Table.put s.lowlink v _).get x = _
  rw [Table.get_put, if_neg h]

theorem lowlink_lower_self (s : ComponentWalk n) (v : Fin n) (bound : Nat) :
    (s.lower v bound).lowlink.get v = min (s.lowlink.get v) bound := by
  show (Table.put s.lowlink v _).get v = _
  rw [Table.get_put, if_pos rfl]

theorem lowlink_lower_le (s : ComponentWalk n) (v : Fin n) (bound : Nat) (x : Fin n) :
    (s.lower v bound).lowlink.get x ≤ s.lowlink.get x := by
  by_cases h : v = x
  · subst h
    rw [lowlink_lower_self]
    exact Nat.min_le_left _ _
  · exact Nat.le_of_eq (lowlink_lower_of_ne h bound)

theorem lowlink_discover_self (next : Adjacency n) (s : ComponentWalk n) (w : Fin n) :
    (discover next s w).lowlink.get w = s.nextIndex := by
  show (Table.put s.lowlink w _).get w = _
  rw [Table.get_put, if_pos rfl]

theorem lowlink_discover_of_ne {w x : Fin n} (h : w ≠ x) :
    (discover next s w).lowlink.get x = s.lowlink.get x := by
  show (Table.put s.lowlink w _).get x = _
  rw [Table.get_put, if_neg h]

/-! ## The bookkeeping -/

/-- The stack, the path, the marks and the components fit together. -/
structure Orderly (next : Adjacency n) (s : ComponentWalk n) : Prop where
  onStack_iff : ∀ v, s.onStack.get v = true ↔ v ∈ s.stack
  rank_lt : ∀ v, s.Discovered v → s.rank v < s.nextIndex
  stack_descending : s.stack.Pairwise fun v u => s.rank u < s.rank v
  path_descending : s.path.Pairwise fun v u => s.rank u < s.rank v
  path_linked : s.path.IsChain fun v u => next.Leads u v
  path_stack : ∀ v ∈ s.path, v ∈ s.stack
  /-- Every node on the stack is above some node under way. -/
  stack_path : ∀ v ∈ s.stack, ∃ u ∈ s.path, s.rank u ≤ s.rank v
  discovered_iff : ∀ v, s.Discovered v ↔ v ∈ s.stack ∨ v ∈ s.settled
  settled_nodup : s.settled.Nodup
  settled_off : ∀ v ∈ s.stack, v ∉ s.settled
  awaits_leads : ∀ v w, s.Awaits v w → next.Leads v w

namespace Orderly

theorem discovered_of_stack (h : Orderly next s) {v : Fin n} (hv : v ∈ s.stack) :
    s.Discovered v := (h.discovered_iff v).2 (Or.inl hv)

theorem discovered_of_path (h : Orderly next s) {v : Fin n} (hv : v ∈ s.path) :
    s.Discovered v := h.discovered_of_stack (h.path_stack v hv)

/-- The last node under way has the highest rank of them. -/
theorem rank_lt_of_tail (h : Orderly next s) {v : Fin n} {tail : List (Fin n)}
    (hpath : s.path = v :: tail) : ∀ u ∈ tail, s.rank u < s.rank v := by
  have hdesc := h.path_descending
  rw [hpath] at hdesc
  exact (List.pairwise_cons.1 hdesc).1

/-- What the pop of a root takes off the stack: all that is not below it. -/
theorem mem_popTo_fst_iff (h : Orderly next s) {v : Fin n} (hv : v ∈ s.stack) {x : Fin n} :
    x ∈ (popTo v s.stack).1 ↔ x ∈ s.stack ∧ s.rank v ≤ s.rank x := by
  obtain ⟨above, hoff, hfst⟩ := exists_popTo_fst hv
  have happ := popTo_append v s.stack
  have hdesc := h.stack_descending
  rw [← happ, hfst] at hdesc
  obtain ⟨htop, -, hcross⟩ := List.pairwise_append.1 hdesc
  constructor
  · intro hx
    refine ⟨happ ▸ List.mem_append_left _ hx, ?_⟩
    rw [hfst] at hx
    rcases List.mem_append.1 hx with habove | hself
    · exact Nat.le_of_lt ((List.pairwise_append.1 htop).2.2 x habove v (List.mem_singleton.2 rfl))
    · exact Nat.le_of_eq (congrArg s.rank (List.mem_singleton.1 hself).symm)
  · rintro ⟨hx, hle⟩
    rw [← happ] at hx
    refine (List.mem_append.1 hx).resolve_right fun hbelow => ?_
    have := hcross v (List.mem_append_right _ (List.mem_singleton.2 rfl)) x hbelow
    omega

/-- What the pop of a root leaves on the stack: all that is below it. -/
theorem mem_popTo_snd_iff (h : Orderly next s) {v : Fin n} (hv : v ∈ s.stack) {x : Fin n} :
    x ∈ (popTo v s.stack).2 ↔ x ∈ s.stack ∧ s.rank x < s.rank v := by
  obtain ⟨above, hoff, hfst⟩ := exists_popTo_fst hv
  have happ := popTo_append v s.stack
  have hdesc := h.stack_descending
  rw [← happ] at hdesc
  constructor
  · intro hx
    refine ⟨happ ▸ List.mem_append_right _ hx, ?_⟩
    refine (List.pairwise_append.1 hdesc).2.2 v ?_ x hx
    exact (h.mem_popTo_fst_iff hv).2 ⟨hv, Nat.le_refl _⟩
  · rintro ⟨hx, hlt⟩
    rw [← happ] at hx
    refine (List.mem_append.1 hx).resolve_left fun htop => ?_
    have := ((h.mem_popTo_fst_iff hv).1 htop).2
    omega

theorem start (next : Adjacency n) : Orderly next (ComponentWalk.start n) where
  onStack_iff := Table.get_fill_false_iff
  rank_lt v hv := absurd (Table.get_fill none v) hv
  stack_descending := List.Pairwise.nil
  path_descending := List.Pairwise.nil
  path_linked := List.IsChain.nil
  path_stack _ hv := nomatch hv
  stack_path _ hv := nomatch hv
  discovered_iff v := by
    refine ⟨fun hv => absurd (Table.get_fill none v) hv, ?_⟩
    rintro (hv | hv)
    · exact nomatch hv
    · exact nomatch hv
  settled_nodup := List.Pairwise.nil
  settled_off _ hv := nomatch hv
  awaits_leads _ _ := fun ⟨_, hf, _⟩ => nomatch hf

/-- Using up successors changes nothing else. -/
theorem consume (h : Orderly next s) {work : List (Frame n)}
    (hpath : ({ s with work := work } : ComponentWalk n).path = s.path)
    (hless : ∀ x y, ({ s with work := work } : ComponentWalk n).Awaits x y → s.Awaits x y) :
    Orderly next { s with work := work } where
  onStack_iff := h.onStack_iff
  rank_lt := h.rank_lt
  stack_descending := h.stack_descending
  path_descending := by rw [hpath]; exact h.path_descending
  path_linked := by rw [hpath]; exact h.path_linked
  path_stack := by rw [hpath]; exact h.path_stack
  stack_path := by rw [hpath]; exact h.stack_path
  discovered_iff := h.discovered_iff
  settled_nodup := h.settled_nodup
  settled_off := h.settled_off
  awaits_leads x y hxy := h.awaits_leads x y (hless x y hxy)

/-- Lowering a low link changes nothing else. -/
theorem lower (h : Orderly next s) (v : Fin n) (bound : Nat) : Orderly next (s.lower v bound) :=
  ⟨h.onStack_iff, h.rank_lt, h.stack_descending, h.path_descending, h.path_linked, h.path_stack,
    h.stack_path, h.discovered_iff, h.settled_nodup, h.settled_off, h.awaits_leads⟩

/-- The first node of a path, or a successor of its last node, is discovered. -/
theorem discover (h : Orderly next s) {w : Fin n} (hnew : s.index.get w = none)
    (hlink : ∀ v ∈ s.path.head?, next.Leads v w) : Orderly next (s.discover next w) := by
  have hfresh : ∀ x, s.Discovered x → w ≠ x := by
    rintro x hx rfl
    exact hx hnew
  have hrank : ∀ x, s.Discovered x → (s.discover next w).rank x = s.rank x := fun x hx =>
    rank_discover_of_ne (hfresh x hx)
  have htop : ∀ x, s.Discovered x →
      (s.discover next w).rank x < (s.discover next w).rank w := by
    intro x hx
    rw [hrank x hx, rank_discover_self]
    exact h.rank_lt x hx
  have hkept : ∀ nodes : List (Fin n), (∀ x ∈ nodes, s.Discovered x) →
      nodes.Pairwise (fun v u => s.rank u < s.rank v) →
      nodes.Pairwise (fun v u => (s.discover next w).rank u < (s.discover next w).rank v) := by
    intro nodes hnodes hdesc
    refine hdesc.imp_of_mem ?_
    intro a b ha hb hab
    rw [hrank a (hnodes a ha), hrank b (hnodes b hb)]
    exact hab
  refine
    { onStack_iff := ?_
      rank_lt := ?_
      stack_descending := ?_
      path_descending := ?_
      path_linked := ?_
      path_stack := ?_
      stack_path := ?_
      discovered_iff := ?_
      settled_nodup := h.settled_nodup
      settled_off := ?_
      awaits_leads := ?_ }
  · exact Table.get_put_true_iff h.onStack_iff w
  · intro x hx
    show _ < s.nextIndex + 1
    rcases (discovered_discover_iff next).1 hx with rfl | hx
    · rw [rank_discover_self]
      exact Nat.lt_succ_self _
    · rw [hrank x hx]
      exact Nat.lt_succ_of_lt (h.rank_lt x hx)
  · refine List.pairwise_cons.2 ⟨fun x hx => htop x (h.discovered_of_stack hx), ?_⟩
    exact hkept s.stack (fun x hx => h.discovered_of_stack hx) h.stack_descending
  · refine List.pairwise_cons.2 ⟨fun x hx => htop x (h.discovered_of_path hx), ?_⟩
    exact hkept s.path (fun x hx => h.discovered_of_path hx) h.path_descending
  · exact List.isChain_cons.2 ⟨hlink, h.path_linked⟩
  · intro x hx
    rcases List.mem_cons.1 hx with rfl | hx
    · exact List.mem_cons_self
    · exact List.mem_cons_of_mem w (h.path_stack x hx)
  · intro x hx
    rcases List.mem_cons.1 hx with rfl | hx
    · exact ⟨x, List.mem_cons_self, Nat.le_refl _⟩
    · obtain ⟨u, hu, hle⟩ := h.stack_path x hx
      refine ⟨u, List.mem_cons_of_mem w hu, ?_⟩
      rw [hrank u (h.discovered_of_path hu), hrank x (h.discovered_of_stack hx)]
      exact hle
  · intro x
    rw [discovered_discover_iff, h.discovered_iff x]
    show _ ↔ x ∈ w :: s.stack ∨ x ∈ s.settled
    rw [List.mem_cons, or_assoc]
  · intro x hx
    rcases List.mem_cons.1 hx with rfl | hx
    · exact fun hs => hfresh x ((h.discovered_iff x).2 (Or.inr hs)) rfl
    · exact h.settled_off x hx
  · rintro x y ⟨f, hf, rfl, hy⟩
    rcases List.mem_cons.1 hf with rfl | hf
    · exact hy
    · exact h.awaits_leads f.node y ⟨f, hf, rfl, hy⟩

/-- A node that is no root leaves the path and stays on the stack. -/
theorem leave (h : Orderly next s) {v : Fin n} {rest : List (Frame n)}
    (hwork : s.work = ⟨v, []⟩ :: rest) (hrest : rest ≠ []) :
    Orderly next { s with work := rest } := by
  have hpath : s.path = v :: rest.map (·.node) := path_of_work hwork
  have hdesc := h.path_descending
  have hlinked := h.path_linked
  rw [hpath] at hdesc hlinked
  refine
    { onStack_iff := h.onStack_iff
      rank_lt := h.rank_lt
      stack_descending := h.stack_descending
      path_descending := (List.pairwise_cons.1 hdesc).2
      path_linked := (List.isChain_cons.1 hlinked).2
      path_stack := ?_
      stack_path := ?_
      discovered_iff := h.discovered_iff
      settled_nodup := h.settled_nodup
      settled_off := h.settled_off
      awaits_leads := ?_ }
  · intro x hx
    exact h.path_stack x (hpath ▸ List.mem_cons_of_mem v hx)
  · intro x hx
    obtain ⟨u, hu, hle⟩ := h.stack_path x hx
    rw [hpath] at hu
    rcases List.mem_cons.1 hu with rfl | hu
    · -- what stood above the node stands above the one it was discovered from
      obtain ⟨f, hf⟩ := List.exists_mem_of_ne_nil rest hrest
      have hmem : f.node ∈ rest.map (·.node) := List.mem_map_of_mem hf
      have hlt := h.rank_lt_of_tail hpath f.node hmem
      exact ⟨f.node, hmem, by show s.rank f.node ≤ s.rank x; omega⟩
    · exact ⟨u, hu, hle⟩
  · rintro x y ⟨f, hf, rfl, hy⟩
    refine h.awaits_leads f.node y ⟨f, ?_, rfl, hy⟩
    rw [hwork]
    exact List.mem_cons_of_mem _ hf

/-- A root leaves the path, and its component leaves the stack. -/
theorem complete (h : Orderly next s) {v : Fin n} {rest : List (Frame n)}
    (hwork : s.work = ⟨v, []⟩ :: rest) :
    Orderly next (({ s with work := rest } : ComponentWalk n).complete v) := by
  have hpath : s.path = v :: rest.map (·.node) := path_of_work hwork
  have hv : v ∈ s.stack := h.path_stack v (hpath ▸ List.mem_cons_self)
  have happ := popTo_append v s.stack
  have hdesc := h.path_descending
  have hlinked := h.path_linked
  have hstack := h.stack_descending
  rw [hpath] at hdesc hlinked
  rw [← happ] at hstack
  have hbelow : ∀ x ∈ (popTo v s.stack).2, x ∈ s.stack := fun x hx =>
    happ ▸ List.mem_append_right _ hx
  -- the cut through the stack is by rank, so no node is on both sides of it
  have hapart : ∀ x ∈ (popTo v s.stack).2, x ∉ (popTo v s.stack).1 := by
    intro x hx htop
    have h₁ := ((h.mem_popTo_fst_iff hv).1 htop).2
    have h₂ := ((h.mem_popTo_snd_iff hv).1 hx).2
    omega
  refine
    { onStack_iff := ?_
      rank_lt := h.rank_lt
      stack_descending := (List.pairwise_append.1 hstack).2.1
      path_descending := (List.pairwise_cons.1 hdesc).2
      path_linked := (List.isChain_cons.1 hlinked).2
      path_stack := ?_
      stack_path := ?_
      discovered_iff := ?_
      settled_nodup := ?_
      settled_off := ?_
      awaits_leads := ?_ }
  · intro x
    show (Table.putAll s.onStack (popTo v s.stack).1 false).get x = true ↔ x ∈ (popTo v s.stack).2
    by_cases hx : x ∈ (popTo v s.stack).1
    · rw [Table.get_putAll_of_mem hx]
      exact ⟨(fun hf => nomatch hf), fun hb => absurd hx (hapart x hb)⟩
    · rw [Table.get_putAll_of_not_mem hx, h.onStack_iff x]
      refine ⟨fun hs => ?_, hbelow x⟩
      exact (List.mem_append.1 (happ.symm ▸ hs)).resolve_left hx
  · intro x hx
    refine (h.mem_popTo_snd_iff hv).2 ⟨?_, h.rank_lt_of_tail hpath x hx⟩
    exact h.path_stack x (hpath ▸ List.mem_cons_of_mem v hx)
  · intro x hx
    obtain ⟨u, hu, hle⟩ := h.stack_path x (hbelow x hx)
    rw [hpath] at hu
    rcases List.mem_cons.1 hu with rfl | hu
    · have := ((h.mem_popTo_snd_iff hv).1 hx).2
      omega
    · exact ⟨u, hu, hle⟩
  · intro x
    show s.Discovered x ↔ x ∈ (popTo v s.stack).2 ∨ x ∈ (popTo v s.stack).1 ++ s.settled
    rw [h.discovered_iff x, List.mem_append, ← or_assoc]
    refine or_congr_left ?_
    rw [or_comm, ← List.mem_append, happ]
  · show ((popTo v s.stack).1 ++ s.settled).Nodup
    refine List.nodup_append.2 ⟨?_, h.settled_nodup, ?_⟩
    · refine (List.pairwise_append.1 hstack).1.imp ?_
      rintro a b hab rfl
      exact Nat.lt_irrefl _ hab
    · rintro a ha b hb rfl
      exact h.settled_off a (happ ▸ List.mem_append_left _ ha) hb
  · intro x hx hs
    rcases List.mem_append.1 (show x ∈ (popTo v s.stack).1 ++ s.settled from hs) with htop | hset
    · exact hapart x hx htop
    · exact h.settled_off x (hbelow x hx) hset
  · rintro x y ⟨f, hf, rfl, hy⟩
    refine h.awaits_leads f.node y ⟨f, ?_, rfl, hy⟩
    rw [hwork]
    exact List.mem_cons_of_mem _ hf

end Orderly

end ComponentWalk

end Flowchart
