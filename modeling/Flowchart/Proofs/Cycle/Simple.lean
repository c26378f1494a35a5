import Mathlib.Data.List.Cycle
import Mathlib.Data.Set.List
import Flowchart.Proofs.Component.Number
import Flowchart.Proofs.Cycle.Rotation
import Flowchart.Proofs.Cycle.Search

/-! # Simple cycles — all of them, each once, in order

    The walks look for round trips inside one component at a time.  Nothing is
    lost by that: the nodes of a cycle all reach each other, so they share a
    component and the cycle stays inside it (`Index.loop_or_roundTrip_iff`).  A cycle
    that starts from its least id is its own canonical rotation, so it is among
    the rotated finds (`mem_simpleCycles_iff`); it comes up once however many
    edges run along it (`simpleCycles_enumerates`). -/

namespace Flowchart

variable {n : Nat}

/-! ## Closed chains -/

/-- A round trip is a closed chain without repeated nodes. -/
theorem roundTrip_iff_chain {next : Adjacency n} {origin : Fin n} {c : List (Fin n)} :
    RoundTrip next origin c ↔
      c.head? = some origin ∧ c.Nodup ∧ Cycle.Chain next.Leads (c : Cycle (Fin n)) := by
  constructor
  · rintro ⟨hfirst, hnodup, hclosed⟩
    refine ⟨hfirst, hnodup, ?_⟩
    cases c with
    | nil => exact Cycle.Chain.nil _
    | cons v c =>
        rw [Option.some.inj hfirst] at hclosed ⊢
        exact hclosed
  · rintro ⟨hfirst, hnodup, hchain⟩
    refine ⟨hfirst, hnodup, ?_⟩
    cases c with
    | nil => cases hfirst
    | cons v c =>
        rw [Option.some.inj hfirst] at hchain ⊢
        exact hchain

/-- The links of a closed chain, one for each place; the last one leads back to
    the start. -/
theorem chain_iff_get {α : Type} {r : α → α → Prop} {xs : List α} :
    Cycle.Chain r (xs : Cycle α) ↔
      ∀ i (h : i < xs.length),
        r xs[i] (xs.get ⟨(i + 1) % xs.length, Nat.mod_lt _ (Nat.zero_lt_of_lt h)⟩) := by
  cases xs with
  | nil => exact ⟨fun _ i h => absurd h (Nat.not_lt_zero i), fun _ => Cycle.Chain.nil r⟩
  | cons a xs =>
      rw [Cycle.chain_coe_cons, ← List.cons_append, List.isChain_iff_getElem]
      have hlength : (a :: xs ++ [a]).length = (a :: xs).length + 1 := List.length_append
      -- past the last place stands the first node again
      have hlink : ∀ i (h : i < (a :: xs).length) (h' : i + 1 < (a :: xs ++ [a]).length),
          (a :: xs ++ [a])[i + 1]
            = (a :: xs).get ⟨(i + 1) % (a :: xs).length, Nat.mod_lt _ (Nat.zero_lt_of_lt h)⟩ := by
        intro i h h'
        rcases Nat.lt_or_eq_of_le (show i + 1 ≤ (a :: xs).length from h) with hlt | heq
        · rw [List.getElem_append_left hlt, List.get_eq_getElem]
          simp only [Nat.mod_eq_of_lt hlt]
        · rw [List.getElem_append_right (Nat.le_of_eq heq.symm), List.get_eq_getElem]
          simp only [heq, Nat.mod_self, List.getElem_singleton, List.getElem_cons_zero]
      constructor
      · intro hchain i h
        have hstep := hchain i (by omega)
        rw [List.getElem_append_left h, hlink i h] at hstep
        exact hstep
      · intro hlinks i h'
        have h : i < (a :: xs).length := by omega
        rw [List.getElem_append_left h, hlink i h]
        exact hlinks i h

/-- The members of a closed chain all reach each other. -/
theorem reaches_of_chain {α : Type} {r : α → α → Prop} {c : Cycle α} (hchain : c.Chain r) :
    ∀ v ∈ c, ∀ w ∈ c, Relation.ReflTransGen r v w :=
  Cycle.chain_iff_pairwise.1 (hchain.imp fun _ _ => Relation.ReflTransGen.single)

/-! ## Inside the components -/

theorem Adjacency.get_inside (next : Adjacency n) (numbers : Table n (Option Nat)) (v : Fin n) :
    (next.inside numbers).get v
      = (next.get v).filter fun w => numbers.get w = numbers.get v := by
  show (next.inside numbers)[v.val] = _
  rw [inside, Vector.getElem_ofFn]

/-- Inside a component the arcs are those between nodes with the same number. -/
theorem Adjacency.inside_leads_iff {next : Adjacency n} {numbers : Table n (Option Nat)}
    {v w : Fin n} :
    (next.inside numbers).Leads v w ↔ next.Leads v w ∧ numbers.get w = numbers.get v := by
  show w ∈ (next.inside numbers).get v ↔ w ∈ next.get v ∧ _
  rw [get_inside, List.mem_filter, decide_eq_true_iff]

/-- Inside a component of more than one node the successors are those that it
    holds. -/
theorem Adjacency.get_inside_component {next : Adjacency n} {component : List (Fin n)}
    (hcomponent : component ∈ next.components) (hlength : 1 < component.length) {v : Fin n}
    (hv : v ∈ component) :
    (next.inside (componentNumbers next.components)).get v
      = (next.get v).filter component.contains := by
  rw [get_inside]
  refine List.filter_congr fun w _ => ?_
  rw [Bool.eq_iff_iff, decide_eq_true_iff, List.contains_iff_mem]
  have hsame : ∀ w, _ := fun w => same_number_iff next.nodup_components (v := v) (w := w)
  constructor
  · intro heq
    -- the node has a number, so another with the same one shares its component
    obtain ⟨hsome, -⟩ := (hsame v).2 ⟨component, hcomponent, hlength, hv, hv⟩
    obtain ⟨c, hc, -, hvc, hwc⟩ := (hsame w).1 ⟨hsome, heq.symm⟩
    exact (mem_component_iff hcomponent hv w).2 (share_component_iff.1 ⟨c, hc, hvc, hwc⟩)
  · intro hw
    exact ((hsame w).2 ⟨component, hcomponent, hlength, hv, hw⟩).2.symm

/-- Nodes that reach each other have the same number. -/
theorem Adjacency.number_eq_of_mutual {next : Adjacency n} {v w : Fin n}
    (h : next.Mutual v w) :
    (componentNumbers next.components).get w = (componentNumbers next.components).get v := by
  by_cases heq : v = w
  · rw [heq]
  · exact ((same_number_iff_mutual heq).2 h).2.symm

/-- A closed chain stays inside its component. -/
theorem Adjacency.chain_inside {next : Adjacency n} {c : List (Fin n)}
    (hchain : Cycle.Chain next.Leads (c : Cycle (Fin n))) :
    Cycle.Chain (next.inside (componentNumbers next.components)).Leads (c : Cycle (Fin n)) := by
  have hreaches := reaches_of_chain hchain
  rw [chain_iff_get] at hchain ⊢
  intro i h
  refine inside_leads_iff.2 ⟨hchain i h, number_eq_of_mutual ⟨?_, ?_⟩⟩
  · exact hreaches _ (List.getElem_mem h) _ (List.get_mem c _)
  · exact hreaches _ (List.get_mem c _) _ (List.getElem_mem h)

namespace Index

variable {ix : Index}

theorem mem_loops_iff {v : Fin ix.order} : v ∈ ix.loops ↔ ix.forward.Leads v v := by
  show v ∈ (ix.arcs.filter _).map _ ↔ v ∈ ix.forward.get v
  rw [forward, Adjacency.get_ofArcs, List.mem_map, List.mem_map]
  constructor
  · rintro ⟨a, ha, rfl⟩
    obtain ⟨hmem, hloop⟩ := List.mem_filter.1 ha
    exact ⟨a, List.mem_filter.2 ⟨hmem, decide_eq_true rfl⟩, (of_decide_eq_true hloop).symm⟩
  · rintro ⟨a, ha, rfl⟩
    obtain ⟨hmem, hloop⟩ := List.mem_filter.1 ha
    exact ⟨a, List.mem_filter.2 ⟨hmem, hloop⟩, of_decide_eq_true hloop⟩

/-- A round trip is walked from a node of a component of more than one node. -/
theorem mem_roundTrips_iff {components : List (List (Fin ix.order))} {c : List (Fin ix.order)} :
    c ∈ ix.roundTrips components ↔
      ∃ component ∈ components, 1 < component.length ∧
        ∃ v ∈ component, RoundTrip (ix.forward.inside (componentNumbers components)) v c := by
  rw [roundTrips, List.mem_flatMap]
  constructor
  · rintro ⟨component, hmem, hc⟩
    obtain ⟨hcomponent, hlength⟩ := List.mem_filter.1 hmem
    obtain ⟨v, hv, hc⟩ := List.mem_flatMap.1 hc
    exact ⟨component, hcomponent, of_decide_eq_true hlength, v, hv,
      Adjacency.mem_cyclesThrough_iff.1 hc⟩
  · rintro ⟨component, hcomponent, hlength, v, hv, hc⟩
    exact ⟨component, List.mem_filter.2 ⟨hcomponent, decide_eq_true hlength⟩,
      List.mem_flatMap.2 ⟨v, hv, Adjacency.mem_cyclesThrough_iff.2 hc⟩⟩

/-- **NO CYCLE IS LOST** by staying inside the components: the loops and the round
    trips are the closed chains without repeated nodes. -/
theorem loop_or_roundTrip_iff {c : List (Fin ix.order)} :
    (∃ v ∈ ix.loops, [v] = c) ∨ c ∈ ix.roundTrips ix.forward.components ↔
      c ≠ [] ∧ c.Nodup ∧ Cycle.Chain ix.forward.Leads (c : Cycle (Fin ix.order)) := by
  constructor
  · rintro (⟨v, hv, rfl⟩ | hc)
    · refine ⟨List.cons_ne_nil v [], List.nodup_singleton v, ?_⟩
      exact (Cycle.chain_singleton _ v).2 (mem_loops_iff.1 hv)
    · obtain ⟨component, -, -, v, -, htrip⟩ := mem_roundTrips_iff.1 hc
      obtain ⟨hfirst, hnodup, hchain⟩ := roundTrip_iff_chain.1 htrip
      refine ⟨?_, hnodup, hchain.imp fun a b hlead => (Adjacency.inside_leads_iff.1 hlead).1⟩
      rintro rfl
      cases hfirst
  · rintro ⟨hne, hnodup, hchain⟩
    match c, hne with
    | [v], _ => exact Or.inl ⟨v, mem_loops_iff.2 ((Cycle.chain_singleton _ v).1 hchain), rfl⟩
    | v :: w :: c, _ =>
        refine Or.inr (mem_roundTrips_iff.2 ?_)
        -- the first two nodes reach each other, so their component is walked
        have hreaches := reaches_of_chain hchain
        have hmutual : ix.forward.Mutual v w := by
          have hv : v ∈ ((v :: w :: c : List (Fin ix.order)) : Cycle (Fin ix.order)) :=
            List.mem_cons_self
          have hw : w ∈ ((v :: w :: c : List (Fin ix.order)) : Cycle (Fin ix.order)) :=
            List.mem_cons_of_mem v List.mem_cons_self
          exact ⟨hreaches v hv w hw, hreaches w hw v hv⟩
        have hdiffer : v ≠ w := by
          rintro rfl
          exact (List.nodup_cons.1 hnodup).1 List.mem_cons_self
        obtain ⟨component, hcomponent, hv, hw⟩ := Adjacency.share_component_iff.2 hmutual
        exact ⟨component, hcomponent, one_lt_length hv hw hdiffer, v, hv,
          roundTrip_iff_chain.2 ⟨rfl, hnodup, Adjacency.chain_inside hchain⟩⟩

end Index

/-! ## The order of the cycles -/

instance : Std.TransCmp cycleOrder :=
  inferInstanceAs (Std.TransCmp (compareLex (compareOn List.length) compare))

instance : Std.LawfulEqCmp cycleOrder where
  eq_of_compare h := Std.LawfulEqCmp.eq_of_compare (compareLex_eq_eq.1 h).2

/-- Comparing lists of ids finds them in order exactly when the first comes
    before in the order of words. -/
theorem compare_ids_eq_lt_iff {a b : List String} :
    compare a b = .lt ↔ List.Lex (· < ·) a b := by
  induction a generalizing b with
  | nil =>
      cases b with
      | nil => exact ⟨(fun h => nomatch h), (fun h => nomatch h)⟩
      | cons y b => exact ⟨fun _ => List.Lex.nil, fun _ => List.compare_nil_cons⟩
  | cons x a ih =>
      cases b with
      | nil => exact ⟨(fun h => nomatch h), (fun h => nomatch h)⟩
      | cons y b =>
          rw [List.compare_cons_cons, Ordering.then_eq_lt, compare_eq_lt_iff,
            Std.LawfulEqCmp.compare_eq_iff_eq, ih, List.cons_lex_cons_iff]

/-- A cycle comes before another when it is shorter, or as long and before it in
    the order of words. -/
theorem cycleOrder_eq_lt_iff {a b : List String} :
    cycleOrder a b = .lt ↔
      a.length < b.length ∨ a.length = b.length ∧ List.Lex (· < ·) a b := by
  show (compare a.length b.length).then (compare a b) = .lt ↔ _
  rw [Ordering.then_eq_lt, Nat.compare_eq_lt, Nat.compare_eq_eq, compare_ids_eq_lt_iff]

/-- The simple cycles are the loops and the round trips, these from their least
    ids. -/
theorem Index.mem_simpleCycles_iff {ix : Index} {components : List (List (Fin ix.order))}
    {c : List String} :
    c ∈ ix.simpleCycles components ↔
      (∃ v ∈ ix.loops, [ix.name v] = c) ∨
        ∃ d ∈ ix.roundTrips components, canonicalRotation (d.map ix.name) = c := by
  rw [simpleCycles, Std.TreeSet.mem_toList, Std.TreeSet.mem_ofList, List.contains_iff_mem,
    List.mem_append, List.mem_map, List.mem_map]

/-! ## The cycles of a graph -/

namespace Graph

variable {g : Graph}

/-- A way along the edges from an id back to itself that repeats no id, written
    from its least id. -/
structure SimpleCycle (g : Graph) (cycle : List String) : Prop where
  nonempty : cycle ≠ []
  nodup : cycle.Nodup
  least : ∀ id ∈ cycle, cycle.head nonempty ≤ id
  /-- Each id leads to the next one, and the last to the first. -/
  closed : ∀ i (h : i < cycle.length),
    g.Leads cycle[i] (cycle.get ⟨(i + 1) % cycle.length, Nat.mod_lt _ (Nat.zero_lt_of_lt h)⟩)

/-- Closed chains over ids are those of the nodes. -/
theorem chain_map_name_iff {d : List (Fin g.index.order)} :
    Cycle.Chain g.Leads (d.map g.index.name : Cycle String) ↔
      Cycle.Chain g.index.forward.Leads (d : Cycle (Fin g.index.order)) := by
  rw [← Cycle.map_coe, Cycle.chain_map]
  have hleads : (fun v w => g.Leads (g.index.name v) (g.index.name w))
      = g.index.forward.Leads := by
    ext v w
    exact forward_leads_iff.symm
  rw [hleads]

/-- The ids of a simple cycle are those of some nodes. -/
theorem SimpleCycle.exists_map_name {c : List String} (h : g.SimpleCycle c) :
    ∃ d : List (Fin g.index.order), d.map g.index.name = c := by
  have hnames : ∀ id ∈ c, id ∈ Set.range g.index.name := by
    intro id hid
    obtain ⟨i, hi, rfl⟩ := List.getElem_of_mem hid
    exact mem_nodeNames_iff_name.1 (h.closed i hi).mem_nodeNames.1
  rw [← Set.mem_range, Set.range_list_map]
  exact hnames

/-- A rotation to the least id is a simple cycle, if it is closed and repeats
    nothing. -/
theorem simpleCycle_canonicalRotation {c : List String} (hne : c ≠ []) (hnodup : c.Nodup)
    (hchain : Cycle.Chain g.Leads (c : Cycle String)) : g.SimpleCycle (canonicalRotation c) := by
  have hrot := canonicalRotation_isRotated c
  have hne' : canonicalRotation c ≠ [] := by
    intro hnil
    rw [hnil, List.isRotated_nil_iff'] at hrot
    exact hne hrot.symm
  refine ⟨hne', hrot.nodup_iff.2 hnodup, ?_, ?_⟩
  · intro id hid
    exact le_of_head?_canonicalRotation (List.head?_eq_some_head hne') id (hrot.mem_iff.1 hid)
  · rw [← chain_iff_get, Cycle.coe_eq_coe.2 hrot]
    exact hchain

/-- A simple cycle is its own canonical rotation. -/
theorem SimpleCycle.canonicalRotation_eq {c : List String} (h : g.SimpleCycle c) :
    canonicalRotation c = c := by
  have hleast := h.least
  cases c with
  | nil => rfl
  | cons first others => exact canonicalRotation_eq_self hleast

/-- **EVERY SIMPLE CYCLE IS LISTED**, and nothing else. -/
theorem mem_simpleCycles_iff {c : List String} : c ∈ g.simpleCycles ↔ g.SimpleCycle c := by
  refine Index.mem_simpleCycles_iff.trans ?_
  constructor
  · have hcycle : ∀ d : List (Fin g.index.order),
        (∃ v ∈ g.index.loops, [v] = d) ∨ d ∈ g.index.roundTrips g.index.forward.components →
          g.SimpleCycle (canonicalRotation (d.map g.index.name)) := by
      intro d hd
      obtain ⟨hne, hnodup, hchain⟩ := Index.loop_or_roundTrip_iff.1 hd
      refine simpleCycle_canonicalRotation ?_ (hnodup.map (name_injective g)) ?_
      · exact fun hnil => hne (List.map_eq_nil_iff.1 hnil)
      · exact chain_map_name_iff.2 hchain
    rintro (⟨v, hv, rfl⟩ | ⟨d, hd, rfl⟩)
    · have hself : canonicalRotation [g.index.name v] = [g.index.name v] :=
        List.isRotated_singleton_iff.1 (canonicalRotation_isRotated _)
      rw [← hself]
      exact hcycle [v] (Or.inl ⟨v, hv, rfl⟩)
    · exact hcycle d (Or.inr hd)
  · intro h
    obtain ⟨d, rfl⟩ := h.exists_map_name
    have hfound := Index.loop_or_roundTrip_iff.2
      ⟨fun hnil => h.nonempty (List.map_eq_nil_iff.2 hnil), List.Nodup.of_map _ h.nodup,
        chain_map_name_iff.1 (chain_iff_get.2 h.closed)⟩
    rcases hfound with ⟨v, hv, rfl⟩ | hd
    · exact Or.inl ⟨v, hv, rfl⟩
    · exact Or.inr ⟨d, hd, h.canonicalRotation_eq⟩

/-- Two simple cycles that are rotations of each other are the same. -/
theorem SimpleCycle.eq_of_isRotated {c d : List String} (hc : g.SimpleCycle c)
    (hd : g.SimpleCycle d) (hrot : c ~r d) : c = d :=
  calc
    c = canonicalRotation c := hc.canonicalRotation_eq.symm
    _ = canonicalRotation d := (canonicalRotation_eq_iff hc.nodup).2 hrot
    _ = d := hd.canonicalRotation_eq

/-- The simple cycles are in strict order, shorter ones first. -/
theorem pairwise_simpleCycles (g : Graph) :
    g.simpleCycles.Pairwise fun a b =>
      a.length < b.length ∨ a.length = b.length ∧ List.Lex (· < ·) a b :=
  Std.TreeSet.ordered_toList.imp cycleOrder_eq_lt_iff.1

/-- **THE SIMPLE CYCLES** of the graph are listed, each in one rotation and once,
    and in strict order: shorter ones first, those of one length in the order of
    words. -/
theorem simpleCycles_enumerates (g : Graph) :
    (∀ c, c ∈ g.simpleCycles ↔ g.SimpleCycle c) ∧
      (g.simpleCycles.Pairwise fun a b => ¬a ~r b) ∧
      g.simpleCycles.Pairwise fun a b =>
        a.length < b.length ∨ a.length = b.length ∧ List.Lex (· < ·) a b := by
  refine ⟨fun c => mem_simpleCycles_iff, ?_, g.pairwise_simpleCycles⟩
  refine List.Pairwise.imp_of_mem ?_ Std.TreeSet.ordered_toList
  intro a b ha hb hlt hrot
  have heq := (mem_simpleCycles_iff.1 ha).eq_of_isRotated (mem_simpleCycles_iff.1 hb) hrot
  have hself : cycleOrder b b = .eq := Std.ReflCmp.compare_self
  rw [heq, hself] at hlt
  cases hlt

end Graph

end Flowchart
