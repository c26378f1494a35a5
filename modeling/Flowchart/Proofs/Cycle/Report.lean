import Flowchart.Proofs.Cycle.CyclicEdge
import Flowchart.Proofs.Cycle.Simple

/-! # Cycle reports — the edges and the cycles tell the same

    A report holds the cyclic edges, which the components decide, and the simple
    cycles, which the backtracking walks find.  They agree on every edge: a way
    back from its target, cut short wherever it repeats an id
    (`exists_path_of_reaches`), closes to a simple cycle that passes along the
    edge (`SimpleCycle.exists_passes`), and a cycle that passes along an edge is
    itself the way back (`SimpleCycle.reaches_of_passes`).

    The edges of a report are in ascending order, so looking one up by halving
    finds it exactly when it is there (`searchAscending_iff`). -/

namespace Flowchart

/-! ## Looking up by halving -/

/-- In an ascending array, earlier entries are no larger. -/
theorem getElem_le_of_ascending {xs : Array Nat} (hsorted : xs.toList.Pairwise (· < ·)) {i j : Nat}
    (hij : i ≤ j) (hj : j < xs.size) : xs[i] ≤ xs[j] := by
  rcases Nat.lt_or_eq_of_le hij with hlt | rfl
  · exact Nat.le_of_lt (List.pairwise_iff_getElem.1 hsorted i j (Nat.lt_trans hlt hj) hj hlt)
  · exact Nat.le_refl _

/-- An entry is found exactly when it stands between the bounds. -/
theorem searchAscending_iff {xs : Array Nat} (hsorted : xs.toList.Pairwise (· < ·)) {x : Nat}
    (low high : Nat) (hhigh : high ≤ xs.size) :
    searchAscending xs x low high = true ↔ ∃ i, low ≤ i ∧ i < high ∧ xs[i]? = some x := by
  -- along the halving: the half that is dropped holds only smaller or only larger entries
  fun_induction searchAscending xs x low high with
  | case1 low high hopen middle hfound =>
      have hmiddle : middle < xs.size := by omega
      refine ⟨fun _ => ⟨middle, by omega, by omega, ?_⟩, fun _ => rfl⟩
      rw [Array.getElem?_eq_getElem hmiddle, hfound]
  | case2 low high hopen middle hmiss hless ih =>
      refine (ih hhigh).trans ?_
      constructor
      · rintro ⟨i, hlow, hi, hx⟩
        exact ⟨i, by omega, hi, hx⟩
      · rintro ⟨i, hlow, hi, hx⟩
        obtain ⟨hin, hxi⟩ := Array.getElem?_eq_some_iff.1 hx
        have hright : middle < i := Nat.lt_of_not_le fun hnot => by
          have := getElem_le_of_ascending hsorted hnot (by omega)
          omega
        exact ⟨i, hright, hi, hx⟩
  | case3 low high hopen middle hmiss hless ih =>
      refine (ih (by omega)).trans ?_
      constructor
      · rintro ⟨i, hlow, hi, hx⟩
        exact ⟨i, hlow, by omega, hx⟩
      · rintro ⟨i, hlow, hi, hx⟩
        obtain ⟨hin, hxi⟩ := Array.getElem?_eq_some_iff.1 hx
        have hleft : i < middle := Nat.lt_of_not_le fun hnot => by
          have := getElem_le_of_ascending hsorted hnot hin
          omega
        exact ⟨i, hlow, hleft, hx⟩
  | case4 low high hclosed =>
      constructor
      · intro hfound
        exact nomatch hfound
      · rintro ⟨i, hlow, hi, -⟩
        exact absurd ⟨by omega, hhigh⟩ hclosed

/-! ## Passing along an edge -/

/-- Somewhere in `cycle`, `a` stands directly before `b`; the last id stands
    before the first. -/
def Passes (cycle : List String) (a b : String) : Prop :=
  ∃ i, cycle[i]? = some a ∧ cycle[(i + 1) % cycle.length]? = some b

/-- Turning a cycle does not change where it passes. -/
theorem Passes.of_isRotated {c d : List String} {a b : String} (h : Passes c a b)
    (hrot : d ~r c) : Passes d a b := by
  obtain ⟨k, rfl⟩ := hrot
  obtain ⟨i, ha, hb⟩ := h
  have hlength : (d.rotate k).length = d.length := List.length_rotate d k
  have hi : i < d.length := hlength ▸ (List.getElem?_eq_some_iff.1 ha).1
  have hnext : (i + 1) % d.length < d.length := Nat.mod_lt _ (Nat.zero_lt_of_lt hi)
  rw [hlength, List.getElem?_rotate hnext] at hb
  rw [List.getElem?_rotate hi] at ha
  refine ⟨(i + k) % d.length, ha, ?_⟩
  rw [← hb, Nat.mod_add_mod, Nat.mod_add_mod, Nat.add_right_comm]

/-- A cycle that ends with `a` and begins with `b` passes from `a` to `b`. -/
theorem passes_of_ends {c : List String} {a b : String} (hlast : c.getLast? = some a)
    (hfirst : c.head? = some b) : Passes c a b := by
  have hpos : 0 < c.length := by
    rw [List.length_pos_iff]
    rintro rfl
    cases hfirst
  refine ⟨c.length - 1, ?_, ?_⟩
  · rw [← List.getLast?_eq_getElem?]
    exact hlast
  · rw [Nat.sub_add_cancel hpos, Nat.mod_self, ← List.head?_eq_getElem?]
    exact hfirst

/-! ## From ways back to cycles -/

/-- **LOOPS CAN BE CUT OUT**: a way along some steps can be walked without
    repeating anything. -/
theorem exists_path_of_reaches {α : Type} {r : α → α → Prop} {a b : α}
    (h : Relation.ReflTransGen r a b) :
    ∃ path : List α, path.head? = some a ∧ path.getLast? = some b ∧ path.Nodup ∧
      path.IsChain r := by
  classical
  induction h using Relation.ReflTransGen.head_induction_on with
  | refl => exact ⟨[b], rfl, rfl, List.nodup_singleton b, List.isChain_singleton b⟩
  | @head a c hac _ ih =>
      obtain ⟨path, hfirst, hlast, hnodup, hchain⟩ := ih
      by_cases ha : a ∈ path
      · -- the path comes back to `a`: it is enough to start there
        obtain ⟨front, back, rfl⟩ := List.append_of_mem ha
        refine ⟨a :: back, rfl, ?_, hnodup.of_append_right, hchain.right_of_append⟩
        rwa [List.getLast?_append_of_ne_nil _ (List.cons_ne_nil a back)] at hlast
      · refine ⟨a :: path, rfl, ?_, List.nodup_cons.2 ⟨ha, hnodup⟩, ?_⟩
        · rw [List.getLast?_cons, hlast]
          rfl
        · refine List.isChain_cons.2 ⟨?_, hchain⟩
          intro d hd
          rw [hfirst] at hd
          rw [← Option.some.inj hd]
          exact hac

namespace Graph

variable {g : Graph}

/-- An edge that can be followed back lies on a simple cycle. -/
theorem SimpleCycle.exists_passes {a b : String} (hlead : g.Leads a b)
    (hback : g.Reaches b a) : ∃ c, g.SimpleCycle c ∧ Passes c a b := by
  obtain ⟨path, hfirst, hlast, hnodup, hchain⟩ := exists_path_of_reaches hback
  have hne : path ≠ [] := by
    rintro rfl
    cases hfirst
  have hclosed : Cycle.Chain g.Leads (path : Cycle String) := by
    cases path with
    | nil => exact Cycle.Chain.nil _
    | cons first others =>
        rw [Option.some.inj hfirst] at hlast hchain ⊢
        rw [Cycle.chain_coe_cons, ← List.cons_append, List.isChain_append]
        refine ⟨hchain, List.isChain_singleton b, ?_⟩
        intro x hx y hy
        rw [hlast] at hx
        rw [← Option.some.inj hx, ← Option.some.inj hy]
        exact hlead
  refine ⟨canonicalRotation path, simpleCycle_canonicalRotation hne hnodup hclosed, ?_⟩
  exact (passes_of_ends hlast hfirst).of_isRotated (canonicalRotation_isRotated path)

/-- A cycle leads back from every edge it passes along. -/
theorem SimpleCycle.reaches_of_passes {c : List String} (hc : g.SimpleCycle c) {a b : String}
    (h : Passes c a b) : g.Reaches b a := by
  obtain ⟨i, ha, hb⟩ := h
  have hchain : Cycle.Chain g.Leads (c : Cycle String) := chain_iff_get.2 hc.closed
  exact reaches_of_chain hchain b (List.mem_of_getElem? hb) a (List.mem_of_getElem? ha)

/-- A simple cycle passes along some edge. -/
theorem SimpleCycle.exists_edge {c : List String} (hc : g.SimpleCycle c) :
    ∃ i, ∃ h : i < g.edges.length, Passes c g.edges[i].source g.edges[i].target := by
  have hpos : 0 < c.length := List.length_pos_iff.2 hc.nonempty
  obtain ⟨e, he, hsource, htarget⟩ := hc.closed 0 hpos
  obtain ⟨i, hi, rfl⟩ := List.getElem_of_mem he
  refine ⟨i, hi, 0, ?_, ?_⟩
  · rw [hsource, List.getElem?_eq_getElem hpos]
  · rw [htarget, List.get_eq_getElem]
    exact List.getElem?_eq_getElem _

/-- **AN EDGE IS CYCLIC** exactly when some simple cycle passes along it. -/
theorem mem_cyclicEdges_iff_passes {i : Nat} :
    i ∈ g.cyclicEdges ↔
      ∃ h : i < g.edges.length,
        ∃ c ∈ g.simpleCycles, Passes c g.edges[i].source g.edges[i].target := by
  rw [mem_cyclicEdges_iff_reaches]
  refine exists_congr fun hlt => ?_
  constructor
  · intro hback
    obtain ⟨c, hc, hpasses⟩ :=
      SimpleCycle.exists_passes ⟨_, List.getElem_mem hlt, rfl, rfl⟩ hback
    exact ⟨c, mem_simpleCycles_iff.2 hc, hpasses⟩
  · rintro ⟨c, hc, hpasses⟩
    exact (mem_simpleCycles_iff.1 hc).reaches_of_passes hpasses

/-- Looking an edge up in the report answers whether it is listed there. -/
theorem isCyclicEdge_cycleReport_iff {i : Nat} :
    g.cycleReport.isCyclicEdge i = true ↔ i ∈ g.cycleReport.cyclicEdges := by
  have hsorted : g.cycleReport.cyclicEdges.toList.Pairwise (· < ·) := g.pairwise_cyclicEdges
  refine (searchAscending_iff hsorted 0 _ (Nat.le_refl _)).trans ?_
  rw [Array.mem_iff_getElem?]
  constructor
  · rintro ⟨k, -, -, hk⟩
    exact ⟨k, hk⟩
  · rintro ⟨k, hk⟩
    exact ⟨k, Nat.zero_le k, (Array.getElem?_eq_some_iff.1 hk).1, hk⟩

theorem mem_cyclicEdges_cycleReport {i : Nat} :
    i ∈ g.cycleReport.cyclicEdges ↔ i ∈ g.cyclicEdges :=
  List.mem_toArray

/-- An edge is flagged exactly when its place is that of a cyclic edge. -/
theorem isCyclicEdge_iff_mem {i : Nat} :
    g.cycleReport.isCyclicEdge i = true ↔ i ∈ g.cyclicEdges :=
  isCyclicEdge_cycleReport_iff.trans mem_cyclicEdges_cycleReport

/-- A graph has no cycle exactly when it has no cyclic edge. -/
theorem isAcyclic_iff : g.cycleReport.isAcyclic = true ↔ ∀ i, i ∉ g.cyclicEdges := by
  rw [CycleReport.isAcyclic, List.isEmpty_iff, List.eq_nil_iff_forall_not_mem]
  constructor
  · intro hnone i hi
    obtain ⟨-, c, hc, -⟩ := mem_cyclicEdges_iff_passes.1 hi
    exact hnone c hc
  · intro hnone c hc
    obtain ⟨i, hlt, hpasses⟩ := (mem_simpleCycles_iff.1 hc).exists_edge
    exact hnone i (mem_cyclicEdges_iff_passes.2 ⟨hlt, c, hc, hpasses⟩)

/-- **THE REPORT AGREES WITH ITSELF**: it flags an edge exactly when one of its
    cycles passes along it, so it holds no cycle exactly when it holds no cyclic
    edge; and it answers for every number whether it lists it. -/
theorem cycleReport_agrees (g : Graph) :
    (∀ i, g.cycleReport.isCyclicEdge i = true ↔
        ∃ h : i < g.edges.length,
          ∃ c ∈ g.cycleReport.cycles, Passes c g.edges[i].source g.edges[i].target) ∧
      (g.cycleReport.isAcyclic = true ↔ g.cycleReport.cyclicEdges = #[]) ∧
      ∀ i, g.cycleReport.isCyclicEdge i = true ↔ i ∈ g.cycleReport.cyclicEdges := by
  refine ⟨fun i => isCyclicEdge_iff_mem.trans mem_cyclicEdges_iff_passes, ?_,
    fun _ => isCyclicEdge_cycleReport_iff⟩
  have hedges : g.cycleReport.cyclicEdges = g.cyclicEdges.toArray := rfl
  rw [isAcyclic_iff, ← List.eq_nil_iff_forall_not_mem, hedges, List.toArray_eq_iff]

end Graph

end Flowchart
