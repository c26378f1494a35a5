/-! # Ranges — membership in a class of code points

    A class of characters is given by closed ranges of code points, in ascending
    order and with a gap between any two.  Looking a code point up walks the
    ranges and stops at the first one that begins above it, so the common small
    code points are answered at once. -/

namespace Flowchart.Text

/-- Closed ranges of code points, in ascending order. -/
abbrev Ranges := List (Nat × Nat)

/-- Whether `n` lies in one of the ranges. -/
def Ranges.contains : Ranges → Nat → Bool
  | [], _ => false
  | (low, high) :: rest, n =>
      if n < low then false
      else if n ≤ high then true
      else Ranges.contains rest n

/-- Every range is nonempty, begins above `floor`, and leaves a gap before the
    next one. -/
def Ranges.ascending (floor : Nat) : Ranges → Bool
  | [] => true
  | (low, high) :: rest =>
      decide (floor < low) && decide (low ≤ high) && Ranges.ascending (high + 1) rest

private theorem contains_cons (low high n : Nat) (rest : Ranges) :
    Ranges.contains ((low, high) :: rest) n
      = if n < low then false
        else if n ≤ high then true
        else Ranges.contains rest n := rfl

/-- A code point at or below the floor is in none of the ranges. -/
theorem Ranges.contains_eq_false_of_le {ranges : Ranges} {floor n : Nat}
    (h : Ranges.ascending floor ranges = true) (hn : n ≤ floor) :
    Ranges.contains ranges n = false := by
  cases ranges with
  | nil => rfl
  | cons range rest =>
      obtain ⟨low, high⟩ := range
      simp only [Ranges.ascending, Bool.and_eq_true, decide_eq_true_eq] at h
      rw [contains_cons, if_pos (by omega)]

/-- **RANGES ARE A UNION**: in ascending ranges a code point is found exactly
    when some range holds it. -/
theorem Ranges.contains_iff {ranges : Ranges} {floor n : Nat}
    (h : Ranges.ascending floor ranges = true) :
    Ranges.contains ranges n = true ↔ ∃ r ∈ ranges, r.1 ≤ n ∧ n ≤ r.2 := by
  induction ranges generalizing floor with
  | nil => simp [Ranges.contains]
  | cons range rest ih =>
      obtain ⟨low, high⟩ := range
      simp only [Ranges.ascending, Bool.and_eq_true, decide_eq_true_eq] at h
      obtain ⟨⟨_, hlh⟩, hrest⟩ := h
      rw [contains_cons]
      by_cases hlow : n < low
      · have hnone : Ranges.contains rest n = false :=
          Ranges.contains_eq_false_of_le hrest (by omega)
        have hno : ¬ ∃ r ∈ rest, r.1 ≤ n ∧ n ≤ r.2 := fun hex =>
          nomatch hnone.symm.trans ((ih hrest).2 hex)
        rw [if_pos hlow]
        constructor
        · intro hf; exact nomatch hf
        · rintro ⟨r, hr, hr1, hr2⟩
          rcases List.mem_cons.1 hr with rfl | hr'
          · exact absurd hr1 (by show ¬ low ≤ n; omega)
          · exact absurd ⟨r, hr', hr1, hr2⟩ hno
      · rw [if_neg hlow]
        by_cases hhigh : n ≤ high
        · rw [if_pos hhigh]
          exact ⟨fun _ => ⟨(low, high), by simp, Nat.le_of_not_lt hlow, hhigh⟩, fun _ => rfl⟩
        · rw [if_neg hhigh, ih hrest]
          constructor
          · rintro ⟨r, hr, hb⟩
            exact ⟨r, List.mem_cons_of_mem _ hr, hb⟩
          · rintro ⟨r, hr, hr1, hr2⟩
            rcases List.mem_cons.1 hr with rfl | hr'
            · exact absurd hr2 hhigh
            · exact ⟨r, hr', hr1, hr2⟩

end Flowchart.Text
