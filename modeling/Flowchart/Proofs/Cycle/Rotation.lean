import Mathlib.Data.List.Rotate
import Mathlib.Data.List.TakeWhile
import Mathlib.Data.String.Basic
import Flowchart.Graph.Rotation

/-! # Rotations — the canonical one starts from the least id

    `canonicalRotation` only turns a cycle (`canonicalRotation_isRotated`), and
    turns it to its least id (`le_of_head?_canonicalRotation`).  A cycle that
    starts there already stays as it is (`canonicalRotation_eq_self`), and one
    without repeated ids has no other rotation with that start
    (`eq_of_isRotated`).  So it is one form for all rotations of such a cycle, and
    for no other cycle (`canonicalRotation_canonical`). -/

namespace Flowchart

/-! ## The least id -/

theorem least_cons (first id : String) (others : List String) :
    least first (id :: others) = least (if id < first then id else first) others := rfl

/-- The least id is one of the ids. -/
theorem least_mem (first : String) (others : List String) :
    least first others ∈ first :: others := by
  induction others generalizing first with
  | nil => exact List.mem_singleton_self first
  | cons id others ih =>
      rw [least_cons]
      split
      · exact List.mem_cons_of_mem first (ih id)
      · rcases List.mem_cons.1 (ih first) with heq | hmem
        · rw [heq]
          exact List.mem_cons_self
        · exact List.mem_cons_of_mem first (List.mem_cons_of_mem id hmem)

/-- No id is less than the least. -/
theorem least_le {first : String} {others : List String} :
    ∀ id ∈ first :: others, least first others ≤ id := by
  induction others generalizing first with
  | nil =>
      intro id hid
      rw [List.mem_singleton.1 hid]
      exact le_refl first
  | cons x others ih =>
      intro id hid
      rw [least_cons]
      split
      · next hlt =>
          rcases List.mem_cons.1 hid with rfl | hid
          · exact le_trans (ih x List.mem_cons_self) (le_of_lt hlt)
          · exact ih id hid
      · next hnot =>
          rcases List.mem_cons.1 hid with rfl | hid
          · exact ih id List.mem_cons_self
          · rcases List.mem_cons.1 hid with rfl | hid
            · exact le_trans (ih first List.mem_cons_self) (not_lt.1 hnot)
            · exact ih id (List.mem_cons_of_mem first hid)

/-! ## The canonical rotation -/

/-- **IT IS A ROTATION**: no id is lost and the direction is kept. -/
theorem canonicalRotation_isRotated (cycle : List String) : canonicalRotation cycle ~r cycle := by
  cases cycle with
  | nil => exact List.IsRotated.refl []
  | cons first others =>
      have hparts := List.takeWhile_append_dropWhile (p := (· != least first others))
        (l := first :: others)
      refine List.isRotated_append.trans ?_
      rw [hparts]

/-- It starts from the least id. -/
theorem head?_canonicalRotation (first : String) (others : List String) :
    (canonicalRotation (first :: others)).head? = some (least first others) := by
  rw [canonicalRotation]
  cases hdrop : (first :: others).dropWhile (· != least first others) with
  | nil =>
      -- then the least id would have been passed over
      have hpassed := List.dropWhile_eq_nil_iff.1 hdrop _ (least_mem first others)
      exact absurd rfl (bne_iff_ne.1 hpassed)
  | cons id rest =>
      have hstop := List.head?_dropWhile_not (· != least first others) (first :: others)
      rw [hdrop] at hstop
      have heq : id = least first others := by simpa using hstop
      rw [heq]
      rfl

/-- No id of a cycle is less than the first of its canonical rotation. -/
theorem le_of_head?_canonicalRotation {cycle : List String} {first : String}
    (h : (canonicalRotation cycle).head? = some first) : ∀ id ∈ cycle, first ≤ id := by
  cases cycle with
  | nil => cases h
  | cons x others =>
      rw [head?_canonicalRotation] at h
      rw [← Option.some.inj h]
      exact least_le

/-- A cycle that starts from its least id stays as it is. -/
theorem canonicalRotation_eq_self {first : String} {others : List String}
    (h : ∀ id ∈ first :: others, first ≤ id) :
    canonicalRotation (first :: others) = first :: others := by
  have heq : least first others = first :=
    le_antisymm (least_le first List.mem_cons_self) (h _ (least_mem first others))
  rw [canonicalRotation, heq, List.dropWhile_cons_of_neg (by simp),
    List.takeWhile_cons_of_neg (by simp), List.append_nil]

/-- Rotations that start alike are equal, when no id is repeated. -/
theorem eq_of_isRotated {cycle other : List String} (hnodup : cycle.Nodup)
    (hrot : cycle ~r other) (hfirst : cycle.head? = other.head?) : cycle = other := by
  obtain ⟨k, hk, rfl⟩ := List.isRotated_iff_mod.1 hrot
  rcases Nat.lt_or_eq_of_le hk with hlt | heq
  · have hzero : cycle[0] = cycle[k] := by
      rw [List.head?_rotate hlt, List.head?_eq_getElem?, List.getElem?_eq_getElem hlt,
        List.getElem?_eq_getElem (Nat.zero_lt_of_lt hlt)] at hfirst
      exact Option.some.inj hfirst
    have hk0 : 0 = k := (List.Nodup.getElem_inj_iff hnodup).1 hzero
    rw [← hk0, List.rotate_zero]
  · rw [heq, List.rotate_length]

/-! ## One form for all rotations -/

/-- Turning it again changes nothing. -/
theorem canonicalRotation_idem (cycle : List String) :
    canonicalRotation (canonicalRotation cycle) = canonicalRotation cycle := by
  cases hcycle : canonicalRotation cycle with
  | nil => rfl
  | cons first others =>
      refine canonicalRotation_eq_self ?_
      intro id hid
      have hfirst : (canonicalRotation cycle).head? = some first := by rw [hcycle]; rfl
      refine le_of_head?_canonicalRotation hfirst id ?_
      rw [← (canonicalRotation_isRotated cycle).mem_iff, hcycle]
      exact hid

/-- Rotations of each other have the same least id in front. -/
theorem head?_canonicalRotation_congr {cycle other : List String} (hrot : cycle ~r other) :
    (canonicalRotation cycle).head? = (canonicalRotation other).head? := by
  cases cycle with
  | nil => rw [List.isRotated_nil_iff'.1 hrot]
  | cons first others =>
      cases other with
      | nil => exact absurd (List.isRotated_nil_iff.1 hrot) (List.cons_ne_nil first others)
      | cons first' others' =>
          rw [head?_canonicalRotation, head?_canonicalRotation]
          refine congrArg some (le_antisymm ?_ ?_)
          · exact least_le _ (hrot.mem_iff.2 (least_mem first' others'))
          · exact least_le _ (hrot.mem_iff.1 (least_mem first others))

/-- **ROTATIONS HAVE ONE FORM**: without repeated ids, two cycles have the same
    canonical rotation exactly when each is a rotation of the other. -/
theorem canonicalRotation_eq_iff {cycle other : List String} (hnodup : cycle.Nodup) :
    canonicalRotation cycle = canonicalRotation other ↔ cycle ~r other := by
  have hcycle := canonicalRotation_isRotated cycle
  have hother := canonicalRotation_isRotated other
  constructor
  · intro heq
    exact hcycle.symm.trans (heq ▸ hother)
  · intro hrot
    exact eq_of_isRotated (hcycle.nodup_iff.2 hnodup) (hcycle.trans (hrot.trans hother.symm))
      (head?_canonicalRotation_congr hrot)

/-- The way back along three or more ids is another cycle. -/
theorem not_isRotated_reverse {cycle : List String} (hnodup : cycle.Nodup)
    (hlength : 3 ≤ cycle.length) : ¬cycle ~r cycle.reverse := by
  rintro ⟨k, hk⟩
  -- where an id of the way back stands on the way there
  have hplace : ∀ i, i < cycle.length → (i + k) % cycle.length = cycle.length - 1 - i := by
    intro i hi
    have hmod : (i + k) % cycle.length < cycle.length := Nat.mod_lt _ (Nat.zero_lt_of_lt hi)
    have hids : cycle[(i + k) % cycle.length] = cycle[cycle.length - 1 - i] := by
      rw [← List.getElem_rotate cycle k i (by rw [List.length_rotate]; exact hi)]
      simp only [hk, List.getElem_reverse]
    exact (List.Nodup.getElem_inj_iff hnodup).1 hids
  have hfirst := hplace 0 (by omega)
  have hsecond := hplace 1 (by omega)
  -- the first id of the way back stands last, so the next one stands first
  rw [Nat.zero_add] at hfirst
  rw [← Nat.add_mod_mod, hfirst, show 1 + (cycle.length - 1 - 0) = cycle.length by omega,
    Nat.mod_self] at hsecond
  omega

/-- **A CANONICAL FORM OF CYCLES**: the canonical rotation of any cycle is one of
    its rotations, starts from a least id, and is its own canonical rotation.
    Without repeated ids the cycles with the same canonical rotation are just the
    rotations of each other, so a cycle of three or more ids is told from its
    reverse. -/
theorem canonicalRotation_canonical (cycle : List String) :
    canonicalRotation cycle ~r cycle ∧
      (∀ first ∈ (canonicalRotation cycle).head?, ∀ id ∈ cycle, first ≤ id) ∧
      canonicalRotation (canonicalRotation cycle) = canonicalRotation cycle ∧
      (cycle.Nodup →
        (∀ other, canonicalRotation cycle = canonicalRotation other ↔ cycle ~r other) ∧
          (3 ≤ cycle.length → canonicalRotation cycle ≠ canonicalRotation cycle.reverse)) := by
  refine ⟨canonicalRotation_isRotated cycle, fun first hfirst => le_of_head?_canonicalRotation hfirst,
    canonicalRotation_idem cycle, fun hnodup => ⟨fun other => canonicalRotation_eq_iff hnodup, ?_⟩⟩
  intro hlength heq
  exact not_isRotated_reverse hnodup hlength ((canonicalRotation_eq_iff hnodup).1 heq)

/-- Three ids, the same from another start, and the way back. -/
theorem canonicalRotation_canonical_three :
    ["q", "b", "x"].Nodup ∧ 3 ≤ ["q", "b", "x"].length ∧
      canonicalRotation ["q", "b", "x"] = canonicalRotation ["x", "q", "b"] ∧
      canonicalRotation ["q", "b", "x"] ≠ canonicalRotation ["x", "b", "q"] := by
  have hnodup : ["q", "b", "x"].Nodup := by decide
  obtain ⟨-, -, -, hdistinct⟩ := canonicalRotation_canonical ["q", "b", "x"]
  obtain ⟨hsame, hback⟩ := hdistinct hnodup
  exact ⟨hnodup, Nat.le_refl 3, (hsame ["x", "q", "b"]).2 ⟨2, rfl⟩, hback (Nat.le_refl 3)⟩

end Flowchart
