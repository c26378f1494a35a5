/-! # Tables — one entry for every node

    A table over `n` nodes holds an entry for each.  Entries are read and put by
    node, so no index is ever out of range. -/

namespace Flowchart

/-- An entry for each of `n` nodes. -/
abbrev Table (n : Nat) (α : Type) := Vector α n

namespace Table

variable {n : Nat} {α : Type}

/-- The table with the same entry for every node. -/
def fill (n : Nat) (x : α) : Table n α := Vector.replicate n x

/-- The table with the entry of `v` replaced by `x`. -/
def put (t : Table n α) (v : Fin n) (x : α) : Table n α := Vector.set t v.val x v.isLt

/-- The table with the entry of every node in `nodes` replaced by `x`. -/
def putAll (t : Table n α) (nodes : List (Fin n)) (x : α) : Table n α :=
  nodes.foldl (fun t v => put t v x) t

/-- The number of nodes whose entry `p` accepts. -/
def count (t : Table n α) (p : α → Bool) : Nat := Vector.countP p t

private theorem get_eq_getElem (t : Table n α) (v : Fin n) : t.get v = t[v.val] := rfl

/-- Every entry of a table is the entry of a node. -/
theorem get_mem_toList (t : Table n α) (v : Fin n) : t.get v ∈ t.toList := by
  simp [get_eq_getElem]

@[simp] theorem get_fill (x : α) (v : Fin n) : (fill n x).get v = x := by
  simp [fill, get_eq_getElem]

/-- Only the entry that was put changes. -/
theorem get_put (t : Table n α) (v w : Fin n) (x : α) :
    (put t v x).get w = if v = w then x else t.get w := by
  simp only [put, get_eq_getElem, Vector.getElem_set, Fin.ext_iff]

/-- Nothing is marked yet. -/
theorem get_fill_false_iff (v : Fin n) : (fill n false).get v = true ↔ v ∈ [] := by
  rw [get_fill]
  exact ⟨fun hf => absurd hf Bool.false_ne_true, fun hv => absurd hv List.not_mem_nil⟩

/-- Marking one more node. -/
theorem get_put_true_iff {marks : Table n Bool} {nodes : List (Fin n)}
    (h : ∀ v, marks.get v = true ↔ v ∈ nodes) (w v : Fin n) :
    (put marks w true).get v = true ↔ v ∈ w :: nodes := by
  rw [get_put, List.mem_cons]
  by_cases hwv : w = v
  · rw [if_pos hwv]
    exact ⟨fun _ => Or.inl hwv.symm, fun _ => rfl⟩
  · rw [if_neg hwv, h v]
    exact ⟨Or.inr, fun hor => hor.resolve_left (Ne.symm hwv)⟩

/-- Taking one mark back. -/
theorem get_put_false_iff {marks : Table n Bool} {w : Fin n} {nodes : List (Fin n)}
    (h : ∀ v, marks.get v = true ↔ v ∈ w :: nodes) (hw : w ∉ nodes) (v : Fin n) :
    (put marks w false).get v = true ↔ v ∈ nodes := by
  rw [get_put]
  by_cases hwv : w = v
  · rw [if_pos hwv]
    exact ⟨fun hf => absurd hf Bool.false_ne_true, fun hv => absurd (hwv ▸ hv) hw⟩
  · rw [if_neg hwv, h v, List.mem_cons]
    exact ⟨fun hor => hor.resolve_left (Ne.symm hwv), Or.inr⟩

/-- Putting into all of `nodes` leaves the other entries alone. -/
theorem get_putAll_of_not_mem {t : Table n α} {nodes : List (Fin n)} {w : Fin n} {x : α}
    (h : w ∉ nodes) : (putAll t nodes x).get w = t.get w := by
  induction nodes generalizing t with
  | nil => rfl
  | cons v nodes ih =>
      rw [List.mem_cons, not_or] at h
      show (putAll (put t v x) nodes x).get w = _
      rw [ih h.2, get_put, if_neg (Ne.symm h.1)]

/-- Putting into all of `nodes` replaces the entry of each. -/
theorem get_putAll_of_mem {t : Table n α} {nodes : List (Fin n)} {w : Fin n} {x : α}
    (h : w ∈ nodes) : (putAll t nodes x).get w = x := by
  induction nodes generalizing t with
  | nil => exact nomatch h
  | cons v nodes ih =>
      show (putAll (put t v x) nodes x).get w = _
      by_cases hw : w ∈ nodes
      · exact ih hw
      · rcases List.mem_cons.1 h with rfl | hmem
        · rw [get_putAll_of_not_mem hw, get_put, if_pos rfl]
        · exact absurd hmem hw

/-- A node with an accepted entry is counted. -/
theorem count_pos {t : Table n α} {p : α → Bool} {v : Fin n} (h : p (t.get v) = true) :
    0 < count t p :=
  Vector.countP_pos_iff.2 ⟨t.get v, by simp [get_eq_getElem], h⟩

/-- Replacing an accepted entry by one that is not takes one off the count. -/
theorem count_put {t : Table n α} {p : α → Bool} {v : Fin n} {x : α}
    (h : p (t.get v) = true) (hx : p x = false) : count (put t v x) p + 1 = count t p := by
  have hpos := count_pos h
  rw [get_eq_getElem] at h
  unfold count put at *
  rw [Vector.countP_set]
  simp only [h, hx, if_true]
  simp only [Bool.false_eq_true, if_false]
  omega

/-- Putting one entry adds at most one to the count. -/
theorem count_put_le (t : Table n α) (p : α → Bool) (v : Fin n) (x : α) :
    count (put t v x) p ≤ count t p + 1 := by
  unfold count put
  rw [Vector.countP_set]
  split <;> split <;> omega

end Table

def total {α : Type} (f : α → Nat) (items : List α) : Nat :=
  items.foldr (fun item sum => f item + sum) 0

@[simp] theorem total_nil {α : Type} (f : α → Nat) : total f [] = 0 := rfl

@[simp] theorem total_cons {α : Type} (f : α → Nat) (item : α) (items : List α) :
    total f (item :: items) = f item + total f items := rfl

/-- No item outweighs the sum. -/
theorem le_total {α : Type} (f : α → Nat) {item : α} {items : List α} (h : item ∈ items) :
    f item ≤ total f items := by
  induction items with
  | nil => exact nomatch h
  | cons first items ih =>
      rw [total_cons]
      rcases List.mem_cons.1 h with rfl | h
      · omega
      · have := ih h
        omega

end Flowchart
