import Mathlib.Data.Finset.Card
import Mathlib.Logic.Function.Basic

/-! # The recursion — the search for components as it is taught

    `connect` discovers a node, goes through its successors, and pops a component
    when the node is the root of one.  `scan` goes through the successors in
    order: it connects the undiscovered ones and lowers the low link for those on
    the stack.  Both call each other, and no node is discovered twice, so the
    undiscovered nodes become fewer down to the leaves.  The nodes can be of any
    type: only their successors matter. -/

namespace Flowchart

/-- The state of the recursive search. -/
structure Recursion (α : Type) where
  undiscovered : Finset α
  /-- The index of each discovered node. -/
  index : α → Nat
  lowlink : α → Nat
  /-- The discovered nodes not yet in a component, latest first. -/
  stack : List α
  /-- The index of the next node to be discovered. -/
  nextIndex : Nat
  /-- The components found, latest first. -/
  components : List (List α)

namespace Recursion

variable {α : Type} [DecidableEq α]

/-- None of `nodes` is discovered yet. -/
def start (nodes : List α) : Recursion α where
  undiscovered := nodes.toFinset
  index := fun _ => 0
  lowlink := fun _ => 0
  stack := []
  nextIndex := 0
  components := []

/-- Give `v` the next index, and push it. -/
def discover (t : Recursion α) (v : α) : Recursion α where
  undiscovered := t.undiscovered.erase v
  index := Function.update t.index v t.nextIndex
  lowlink := Function.update t.lowlink v t.nextIndex
  stack := v :: t.stack
  nextIndex := t.nextIndex + 1
  components := t.components

/-- Take the minimum of the low link of `v` and `bound`. -/
def lower (t : Recursion α) (v : α) (bound : Nat) : Recursion α :=
  { t with lowlink := Function.update t.lowlink v (min (t.lowlink v) bound) }

/-- Pop the stack down to `v`, and make what was popped a component. -/
def pop (t : Recursion α) (v : α) : Recursion α :=
  { t with
    stack := (t.stack.dropWhile (· ≠ v)).tail
    components := (t.stack.takeWhile (· ≠ v) ++ [v]) :: t.components }

/-- After the successors of `v`: pop a component if `v` is its root. -/
def finish (t : Recursion α) (v : α) : Recursion α :=
  if t.lowlink v = t.index v then t.pop v else t

@[simp] theorem lower_undiscovered (t : Recursion α) (v : α) (bound : Nat) :
    (t.lower v bound).undiscovered = t.undiscovered := rfl

@[simp] theorem lower_index (t : Recursion α) (v : α) (bound : Nat) :
    (t.lower v bound).index = t.index := rfl

@[simp] theorem finish_undiscovered (t : Recursion α) (v : α) :
    (t.finish v).undiscovered = t.undiscovered := by
  rw [finish]
  split <;> rfl

@[simp] theorem finish_lowlink (t : Recursion α) (v : α) : (t.finish v).lowlink = t.lowlink := by
  rw [finish]
  split <;> rfl

/-- A state after `t`: no node has become undiscovered again. -/
structure Later (t : Recursion α) where
  state : Recursion α
  undiscovered_subset : state.undiscovered ⊆ t.undiscovered

mutual

/-- Discover `v`, go through its successors, and finish it. -/
def connect (next : α → List α) (t : Recursion α) (v : α) (_hv : v ∈ t.undiscovered) : t.Later :=
  let u := scan next (t.discover v) v (next v)
  ⟨u.state.finish v, by
    rw [finish_undiscovered]
    exact u.undiscovered_subset.trans (Finset.erase_subset v t.undiscovered)⟩
termination_by (t.undiscovered.card, 0)
decreasing_by exact Prod.Lex.left _ _ (Finset.card_erase_lt_of_mem _hv)

/-- Go through successors of `v`: connect the undiscovered ones and take the
    minimum with their low links, and with the index of those on the stack. -/
def scan (next : α → List α) (t : Recursion α) (v : α) : List α → t.Later
  | [] => ⟨t, Finset.Subset.refl _⟩
  | w :: ws =>
      if hw : w ∈ t.undiscovered then
        let u := connect next t w hw
        let after := scan next (u.state.lower v (u.state.lowlink w)) v ws
        ⟨after.state, after.undiscovered_subset.trans u.undiscovered_subset⟩
      else if w ∈ t.stack then
        let after := scan next (t.lower v (t.index w)) v ws
        ⟨after.state, after.undiscovered_subset⟩
      else scan next t v ws
termination_by ws => (t.undiscovered.card, ws.length + 1)
decreasing_by
  · exact Prod.Lex.right _ (Nat.succ_pos _)
  · exact Prod.Lex.right' _ (Finset.card_le_card u.undiscovered_subset) (Nat.lt_succ_self _)
  · exact Prod.Lex.right _ (Nat.lt_succ_self _)
  · exact Prod.Lex.right _ (Nat.lt_succ_self _)

end

section Equations

variable {next : α → List α} {t : Recursion α} {v w : α} {ws : List α}

theorem connect_state (hv : v ∈ t.undiscovered) :
    (connect next t v hv).state = (scan next (t.discover v) v (next v)).state.finish v := by
  rw [connect]

@[simp] theorem scan_nil : (scan next t v []).state = t := by
  rw [scan]

theorem scan_cons_of_undiscovered (hw : w ∈ t.undiscovered) :
    (scan next t v (w :: ws)).state
      = (scan next ((connect next t w hw).state.lower v ((connect next t w hw).state.lowlink w))
          v ws).state := by
  rw [scan, dif_pos hw]

theorem scan_cons_of_stack (hw : w ∉ t.undiscovered) (hstack : w ∈ t.stack) :
    (scan next t v (w :: ws)).state = (scan next (t.lower v (t.index w)) v ws).state := by
  rw [scan, dif_neg hw, if_pos hstack]

theorem scan_cons_of_settled (hw : w ∉ t.undiscovered) (hstack : w ∉ t.stack) :
    (scan next t v (w :: ws)).state = (scan next t v ws).state := by
  rw [scan, dif_neg hw, if_neg hstack]

/-- **LOWERING AND POPPING COMMUTE**: the low link of `v` is handed on to `u`
    after a pop as before it, since a pop leaves the low links alone. -/
theorem finish_lower (t : Recursion α) (u v : α) :
    (t.lower u (t.lowlink v)).finish v = (t.finish v).lower u ((t.finish v).lowlink v) := by
  have hsame : (t.lower u (t.lowlink v)).lowlink v = t.lowlink v := by
    show Function.update t.lowlink u (min (t.lowlink u) (t.lowlink v)) v = t.lowlink v
    by_cases h : v = u
    · subst h
      rw [Function.update_self, Nat.min_self]
    · rw [Function.update_of_ne h]
  rw [finish_lowlink, finish, finish, hsame, lower_index]
  by_cases hroot : t.lowlink v = t.index v
  · rw [if_pos hroot, if_pos hroot]
    rfl
  · rw [if_neg hroot, if_neg hroot]

end Equations

/-- Connect `v`, unless it is discovered already. -/
def visit (next : α → List α) (t : Recursion α) (v : α) : Recursion α :=
  if hv : v ∈ t.undiscovered then (connect next t v hv).state else t

/-- The components of `nodes`, visited in their order, in the order in which they
    are popped. -/
def componentsOf (next : α → List α) (nodes : List α) : List (List α) :=
  (nodes.foldl (visit next) (start nodes)).components.reverse

end Recursion

end Flowchart
