import Flowchart.Proofs.Component.Partition

/-! # Component numbers — which nodes share a component with another node

    The table of component numbers knows the components of more than one node.
    Two nodes have the same number when such a component holds both
    (`same_number_iff`), and different nodes have when they reach each other
    (`same_number_iff_mutual`). -/

namespace Flowchart

variable {n : Nat}

/-- Enter one numbered component, if it has more than one node. -/
private def enterNumber (numbers : Table n (Option Nat)) (entry : List (Fin n) × Nat) :
    Table n (Option Nat) :=
  if 1 < entry.1.length then Table.putAll numbers entry.1 (some entry.2) else numbers

private theorem get_enterNumber_of_mem {c : List (Fin n)} {v : Fin n} (hlen : 1 < c.length)
    (hv : v ∈ c) (numbers : Table n (Option Nat)) (k : Nat) :
    (enterNumber numbers (c, k)).get v = some k := by
  rw [enterNumber, if_pos hlen, Table.get_putAll_of_mem hv]

private theorem get_enterNumber_of_not {c : List (Fin n)} {v : Fin n}
    (hout : ¬(1 < c.length ∧ v ∈ c)) (numbers : Table n (Option Nat)) (k : Nat) :
    (enterNumber numbers (c, k)).get v = numbers.get v := by
  rw [enterNumber]
  by_cases hlen : 1 < c.length
  · rw [if_pos hlen, Table.get_putAll_of_not_mem fun hv => hout ⟨hlen, hv⟩]
  · rw [if_neg hlen]

/-- A node keeps its number while components without it are entered. -/
private theorem get_enterNumbers_of_not_mem {components : List (List (Fin n))} {v : Fin n}
    (hv : v ∉ components.flatten) (numbers : Table n (Option Nat)) (k : Nat) :
    ((components.zipIdx k).foldl enterNumber numbers).get v = numbers.get v := by
  induction components generalizing numbers k with
  | nil => rfl
  | cons c components ih =>
      rw [List.flatten_cons, List.mem_append, not_or] at hv
      rw [List.zipIdx_cons, List.foldl_cons, ih hv.2, get_enterNumber_of_not fun h => hv.1 h.2]

/-- The number of a node is the place of its component, counted from `k`. -/
private theorem get_enterNumbers {components : List (List (Fin n))}
    (hnodup : components.flatten.Nodup) {numbers : Table n (Option Nat)} {k i : Nat} {v : Fin n}
    (hfree : numbers.get v = none) :
    ((components.zipIdx k).foldl enterNumber numbers).get v = some i ↔
      ∃ c, (c, i) ∈ components.zipIdx k ∧ 1 < c.length ∧ v ∈ c := by
  induction components generalizing numbers k with
  | nil =>
      rw [List.zipIdx_nil, List.foldl_nil, hfree]
      exact ⟨(fun h => nomatch h), (fun ⟨_, h, _⟩ => nomatch h)⟩
  | cons c components ih =>
      rw [List.flatten_cons] at hnodup
      obtain ⟨-, hnodup', hapart⟩ := List.nodup_append.1 hnodup
      rw [List.zipIdx_cons, List.foldl_cons]
      by_cases hmine : 1 < c.length ∧ v ∈ c
      · -- later components do not hold the node again
        have hoff : v ∉ components.flatten := fun h => hapart v hmine.2 v h rfl
        rw [get_enterNumbers_of_not_mem hoff, get_enterNumber_of_mem hmine.1 hmine.2]
        constructor
        · intro h
          exact ⟨c, Option.some.inj h ▸ List.mem_cons_self, hmine⟩
        · rintro ⟨d, hd, -, hv⟩
          rcases List.mem_cons.1 hd with heq | hd
          · exact congrArg some (Prod.mk.inj heq).2.symm
          · exact absurd (List.mem_flatten.2 ⟨d, List.fst_mem_of_mem_zipIdx hd, hv⟩) hoff
      · rw [ih hnodup' (by rw [get_enterNumber_of_not hmine, hfree])]
        constructor
        · rintro ⟨d, hd, hv⟩
          exact ⟨d, List.mem_cons_of_mem _ hd, hv⟩
        · rintro ⟨d, hd, hv⟩
          rcases List.mem_cons.1 hd with heq | hd
          · exact absurd ((Prod.mk.inj heq).1 ▸ hv) hmine
          · exact ⟨d, hd, hv⟩

/-- **THE NUMBER OF A NODE** is the place of the component that holds it, if that
    has more than one node. -/
theorem get_componentNumbers {components : List (List (Fin n))}
    (hnodup : components.flatten.Nodup) {v : Fin n} {k : Nat} :
    (componentNumbers components).get v = some k ↔
      ∃ c, components[k]? = some c ∧ 1 < c.length ∧ v ∈ c := by
  refine (get_enterNumbers hnodup (Table.get_fill none v)).trans ?_
  simp only [List.mk_mem_zipIdx_iff_getElem?]

/-- Two nodes have the same number when a component of more than one node holds
    both. -/
theorem same_number_iff {components : List (List (Fin n))} (hnodup : components.flatten.Nodup)
    {v w : Fin n} :
    ((componentNumbers components).get v).isSome ∧
        (componentNumbers components).get v = (componentNumbers components).get w ↔
      ∃ c ∈ components, 1 < c.length ∧ v ∈ c ∧ w ∈ c := by
  constructor
  · rintro ⟨hsome, heq⟩
    obtain ⟨k, hk⟩ := Option.isSome_iff_exists.1 hsome
    obtain ⟨c, hc, hlen, hv⟩ := (get_componentNumbers hnodup).1 hk
    obtain ⟨d, hd, -, hw⟩ := (get_componentNumbers hnodup).1 (heq ▸ hk)
    have hcd : c = d := Option.some.inj (hc.symm.trans hd)
    exact ⟨c, List.mem_of_getElem? hc, hlen, hv, hcd ▸ hw⟩
  · rintro ⟨c, hc, hlen, hv, hw⟩
    obtain ⟨k, hk⟩ := List.getElem?_of_mem hc
    have hnv := (get_componentNumbers hnodup).2 ⟨c, hk, hlen, hv⟩
    have hnw := (get_componentNumbers hnodup).2 ⟨c, hk, hlen, hw⟩
    exact ⟨by rw [hnv]; rfl, hnv.trans hnw.symm⟩

theorem one_lt_length {c : List (Fin n)} {v w : Fin n} (hv : v ∈ c) (hw : w ∈ c)
    (hne : v ≠ w) : 1 < c.length := by
  match c, hv, hw with
  | [x], hv, hw => exact absurd ((List.mem_singleton.1 hv).trans (List.mem_singleton.1 hw).symm) hne
  | _ :: _ :: _, _, _ => exact Nat.succ_lt_succ (Nat.succ_pos _)

/-- **DIFFERENT NODES HAVE THE SAME NUMBER** exactly when they reach each other. -/
theorem same_number_iff_mutual {next : Adjacency n} {v w : Fin n} (hne : v ≠ w) :
    ((componentNumbers next.components).get v).isSome ∧
        (componentNumbers next.components).get v = (componentNumbers next.components).get w ↔
      next.Mutual v w := by
  rw [same_number_iff next.nodup_components, ← Adjacency.share_component_iff]
  constructor
  · rintro ⟨c, hc, -, hv, hw⟩
    exact ⟨c, hc, hv, hw⟩
  · rintro ⟨c, hc, hv, hw⟩
    exact ⟨c, hc, one_lt_length hv hw hne, hv, hw⟩

end Flowchart
