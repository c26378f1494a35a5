import Flowchart.Proofs.Component.Bookkeeping

/-! # The low links of the walk for components

    `Settled` is what the components found so far are, and `LowLinked` what the
    low links of the nodes still on the stack mean.  Together with the
    bookkeeping they hold after every step (`Sound.step`) and every visit
    (`visit_sound`).

    The step that carries the argument is the closing of a root.  When the low
    link of the last node under way is its own index, the nodes above it on the
    stack lead nowhere but to each other and to settled nodes (`top_closed`), and
    each of them leads back to the root, by descending low links
    (`top_leads_back`). -/

namespace Flowchart

namespace ComponentWalk

variable {n : Nat} {next : Adjacency n} {s : ComponentWalk n}

/-! ## The components found -/

/-- Every component, latest first, holds all that its nodes reach and are
    reached by, and leads to itself and to earlier components alone. -/
inductive Settled (next : Adjacency n) : List (List (Fin n)) → Prop where
  | nil : Settled next []
  | cons {component : List (Fin n)} {earlier : List (List (Fin n))}
      (hne : component ≠ [])
      (hmutual : ∀ a ∈ component, ∀ b, b ∈ component ↔ next.Mutual a b)
      (hclosed : ∀ a ∈ component, ∀ b, next.Leads a b → b ∈ component ∨ b ∈ earlier.flatten)
      (hearlier : Settled next earlier) : Settled next (component :: earlier)

namespace Settled

variable {components : List (List (Fin n))}

/-- Settled nodes lead to settled nodes. -/
theorem leads (h : Settled next components) {a b : Fin n} (ha : a ∈ components.flatten)
    (hab : next.Leads a b) : b ∈ components.flatten := by
  induction h with
  | nil => exact nomatch ha
  | cons _ _ hclosed _ ih =>
      rw [List.flatten_cons, List.mem_append] at ha ⊢
      rcases ha with ha | ha
      · exact hclosed a ha b hab
      · exact Or.inr (ih ha)

/-- Settled nodes reach settled nodes alone. -/
theorem reaches (h : Settled next components) {a b : Fin n} (ha : a ∈ components.flatten)
    (hab : next.Reaches a b) : b ∈ components.flatten := by
  induction hab with
  | refl => exact ha
  | tail _ hlead ih => exact h.leads ih hlead

theorem ne_nil (h : Settled next components) {component : List (Fin n)}
    (hmem : component ∈ components) : component ≠ [] := by
  induction h with
  | nil => exact nomatch hmem
  | cons hne _ _ _ ih =>
      rcases List.mem_cons.1 hmem with rfl | hmem
      · exact hne
      · exact ih hmem

/-- A component is a class of nodes that reach each other. -/
theorem mem_iff_mutual (h : Settled next components) {component : List (Fin n)}
    (hmem : component ∈ components) {a : Fin n} (ha : a ∈ component) (b : Fin n) :
    b ∈ component ↔ next.Mutual a b := by
  induction h with
  | nil => exact nomatch hmem
  | cons _ hmutual _ _ ih =>
      rcases List.mem_cons.1 hmem with rfl | hmem
      · exact hmutual a ha b
      · exact ih hmem

end Settled

/-! ## The low links -/

/-- What the low links of the nodes on the stack mean. -/
structure LowLinked (next : Adjacency n) (s : ComponentWalk n) : Prop where
  lowlink_le : ∀ v ∈ s.stack, s.lowlink.get v ≤ s.rank v
  /-- A node whose frame is closed is no root. -/
  lowlink_lt : ∀ v ∈ s.stack, v ∉ s.path → s.lowlink.get v < s.rank v
  /-- A low link is the index of some node on the stack that can be reached. -/
  lowlink_reached : ∀ v ∈ s.stack, ∃ u ∈ s.stack, s.rank u = s.lowlink.get v ∧ next.Reaches v u
  /-- A node under way reaches all that is above it on the stack. -/
  path_reaches : ∀ p ∈ s.path, ∀ x ∈ s.stack, s.rank p ≤ s.rank x → next.Reaches p x
  /-- A successor that is not awaited was looked at. -/
  looked : ∀ x ∈ s.stack, ∀ y, next.Leads x y → s.Awaits x y ∨ s.Discovered y
  /-- A successor on the stack that was looked at from above `p` bounds the low
      link of a node under way that is not below `p`. -/
  noted : ∀ p ∈ s.path, ∀ x ∈ s.stack, s.rank p ≤ s.rank x → ∀ y ∈ s.stack, next.Leads x y →
    s.Awaits x y ∨ ∃ q ∈ s.path, s.rank p ≤ s.rank q ∧ s.lowlink.get q ≤ s.rank y
  settled : Settled next s.components

/-- All that holds of the walk between two steps. -/
structure Sound (next : Adjacency n) (s : ComponentWalk n) : Prop extends
  Orderly next s, LowLinked next s

namespace Sound

theorem start (next : Adjacency n) : Sound next (ComponentWalk.start n) where
  toOrderly := Orderly.start next
  lowlink_le _ hv := nomatch hv
  lowlink_lt _ hv := nomatch hv
  lowlink_reached _ hv := nomatch hv
  path_reaches _ hp := nomatch hp
  looked _ hx := nomatch hx
  noted _ hp := nomatch hp
  settled := Settled.nil

/-- Successors may be used up once they are discovered and noted. -/
theorem consume (h : Sound next s) {work : List (Frame n)}
    (hpath : ({ s with work := work } : ComponentWalk n).path = s.path)
    (hless : ∀ x y, ({ s with work := work } : ComponentWalk n).Awaits x y → s.Awaits x y)
    (hkept : ∀ x y, s.Awaits x y → ({ s with work := work } : ComponentWalk n).Awaits x y ∨
      (s.Discovered y ∧
        (y ∈ s.stack → ∃ q ∈ s.path, s.rank x ≤ s.rank q ∧ s.lowlink.get q ≤ s.rank y))) :
    Sound next { s with work := work } where
  toOrderly := h.toOrderly.consume hpath hless
  lowlink_le := h.lowlink_le
  lowlink_lt := by rw [hpath]; exact h.lowlink_lt
  lowlink_reached := h.lowlink_reached
  path_reaches := by rw [hpath]; exact h.path_reaches
  looked := by
    intro x hx y hxy
    rcases h.looked x hx y hxy with hawait | hdisc
    · exact (hkept x y hawait).imp_right And.left
    · exact Or.inr hdisc
  noted := by
    rw [hpath]
    intro p hp x hx hpx y hy hxy
    rcases h.noted p hp x hx hpx y hy hxy with hawait | hnoted
    · refine (hkept x y hawait).imp_right ?_
      rintro ⟨-, hq⟩
      obtain ⟨q, hq, hxq, hle⟩ := hq hy
      exact ⟨q, hq, Nat.le_trans hpx hxq, hle⟩
    · exact Or.inr hnoted
  settled := h.settled

/-- A low link may be lowered to the index of a reached node on the stack. -/
theorem lower (h : Sound next s) {v u : Fin n} (hu : u ∈ s.stack) (hreach : next.Reaches v u) :
    Sound next (s.lower v (s.rank u)) where
  toOrderly := h.toOrderly.lower v (s.rank u)
  lowlink_le x hx := Nat.le_trans (lowlink_lower_le s v _ x) (h.lowlink_le x hx)
  lowlink_lt x hx hoff := Nat.lt_of_le_of_lt (lowlink_lower_le s v _ x) (h.lowlink_lt x hx hoff)
  lowlink_reached := by
    intro x hx
    by_cases hvx : v = x
    · subst hvx
      rw [lowlink_lower_self]
      by_cases hle : s.lowlink.get v ≤ s.rank u
      · rw [Nat.min_eq_left hle]
        exact h.lowlink_reached v hx
      · rw [Nat.min_eq_right (Nat.le_of_not_le hle)]
        exact ⟨u, hu, rfl, hreach⟩
    · rw [lowlink_lower_of_ne hvx]
      exact h.lowlink_reached x hx
  path_reaches := h.path_reaches
  looked := h.looked
  noted := by
    intro p hp x hx hpx y hy hxy
    refine (h.noted p hp x hx hpx y hy hxy).imp_right ?_
    rintro ⟨q, hq, hpq, hle⟩
    exact ⟨q, hq, hpq, Nat.le_trans (lowlink_lower_le s v _ q) hle⟩
  settled := h.settled

/-- A discovered node starts with its own index as its low link. -/
theorem discover (h : Sound next s) {w : Fin n} {work : List (Frame n)}
    (hpath : ({ s with work := work } : ComponentWalk n).path = s.path)
    (hless : ∀ x y, ({ s with work := work } : ComponentWalk n).Awaits x y → s.Awaits x y)
    (hkept : ∀ x y, s.Awaits x y →
      y = w ∨ ({ s with work := work } : ComponentWalk n).Awaits x y)
    (hnew : s.index.get w = none) (hlink : ∀ v ∈ s.path.head?, next.Leads v w) :
    Sound next (({ s with work := work } : ComponentWalk n).discover next w) := by
  have horderly := (h.toOrderly.consume hpath hless).discover hnew (hpath ▸ hlink)
  generalize ht : (({ s with work := work } : ComponentWalk n).discover next w) = t at horderly ⊢
  have hstack : t.stack = w :: s.stack := by rw [← ht]; rfl
  have hpath' : t.path = w :: s.path := by rw [← ht, ← hpath]; rfl
  have hfresh : ∀ x ∈ s.stack, w ≠ x := by
    rintro x hx rfl
    exact h.discovered_of_stack hx hnew
  have hrank : ∀ x ∈ s.stack, t.rank x = s.rank x := by
    intro x hx
    rw [← ht]
    exact rank_discover_of_ne (hfresh x hx)
  have hlow : ∀ x ∈ s.stack, t.lowlink.get x = s.lowlink.get x := by
    intro x hx
    rw [← ht]
    exact lowlink_discover_of_ne (hfresh x hx)
  have hself : t.lowlink.get w = t.rank w := by
    rw [← ht, lowlink_discover_self, rank_discover_self]
  have htop : ∀ x ∈ s.stack, t.rank x < t.rank w := by
    have hdesc := horderly.stack_descending
    rw [hstack] at hdesc
    exact (List.pairwise_cons.1 hdesc).1
  have hold : ∀ x y, ({ s with work := work } : ComponentWalk n).Awaits x y → t.Awaits x y := by
    rintro x y ⟨f, hf, hxy⟩
    exact ⟨f, ht ▸ List.mem_cons_of_mem _ hf, hxy⟩
  have hfirst : ∀ y, next.Leads w y → t.Awaits w y := by
    intro y hy
    exact ⟨⟨w, next.get w⟩, ht ▸ List.mem_cons_self, rfl, hy⟩
  refine
    { toOrderly := horderly
      lowlink_le := ?lowlink_le
      lowlink_lt := ?lowlink_lt
      lowlink_reached := ?lowlink_reached
      path_reaches := ?path_reaches
      looked := ?looked
      noted := ?noted
      settled := ?settled }
  case lowlink_le =>
    rw [hstack]
    intro x hx
    rcases List.mem_cons.1 hx with rfl | hx
    · exact Nat.le_of_eq hself
    · rw [hlow x hx, hrank x hx]
      exact h.lowlink_le x hx
  case lowlink_lt =>
    rw [hstack, hpath']
    intro x hx hoff
    rw [List.mem_cons, not_or] at hoff
    have hx := (List.mem_cons.1 hx).resolve_left hoff.1
    rw [hlow x hx, hrank x hx]
    exact h.lowlink_lt x hx hoff.2
  case lowlink_reached =>
    rw [hstack]
    intro x hx
    rcases List.mem_cons.1 hx with rfl | hx
    · exact ⟨x, List.mem_cons_self, hself.symm, Relation.ReflTransGen.refl⟩
    · obtain ⟨u, hu, hrank', hreach⟩ := h.lowlink_reached x hx
      refine ⟨u, List.mem_cons_of_mem w hu, ?_, hreach⟩
      rw [hrank u hu, hlow x hx]
      exact hrank'
  case path_reaches =>
    rw [hstack, hpath']
    intro p hp x hx hpx
    rcases List.mem_cons.1 hp with rfl | hpold <;> rcases List.mem_cons.1 hx with rfl | hxold
    · exact Relation.ReflTransGen.refl
    · exact absurd (htop x hxold) (Nat.not_lt_of_le hpx)
    · -- the last node under way leads to the new one
      cases hcons : s.path with
      | nil =>
          rw [hcons] at hpold
          exact nomatch hpold
      | cons v tail =>
          have hv : v ∈ s.path := hcons ▸ List.mem_cons_self
          have hpv : s.rank p ≤ s.rank v := by
            rcases List.mem_cons.1 (hcons ▸ hpold) with hpv | htail
            · exact Nat.le_of_eq (congrArg s.rank hpv)
            · exact Nat.le_of_lt (h.rank_lt_of_tail hcons p htail)
          refine (h.path_reaches p hpold v (h.path_stack v hv) hpv).tail ?_
          exact hlink v (by rw [hcons]; rfl)
    · rw [hrank p (h.path_stack p hpold), hrank x hxold] at hpx
      exact h.path_reaches p hpold x hxold hpx
  case looked =>
    rw [hstack]
    intro x hx y hxy
    rcases List.mem_cons.1 hx with rfl | hx
    · exact Or.inl (hfirst y hxy)
    · have hdisc : y = w ∨ s.Discovered y → t.Discovered y := by
        rw [← ht]
        exact (discovered_discover_iff next).2
      rcases h.looked x hx y hxy with hawait | hy
      · rcases hkept x y hawait with hw | hawait
        · exact Or.inr (hdisc (Or.inl hw))
        · exact Or.inl (hold x y hawait)
      · exact Or.inr (hdisc (Or.inr hy))
  case noted =>
    rw [hstack, hpath']
    intro p hp x hx hpx y hy hxy
    rcases List.mem_cons.1 hy with rfl | hyold
    · -- the new node notes itself
      refine Or.inr ⟨y, List.mem_cons_self, ?_, Nat.le_of_eq hself⟩
      rcases List.mem_cons.1 hp with rfl | hpold
      · exact Nat.le_refl _
      · exact Nat.le_of_lt (htop p (h.path_stack p hpold))
    rcases List.mem_cons.1 hx with rfl | hxold
    · exact Or.inl (hfirst y hxy)
    rcases List.mem_cons.1 hp with rfl | hpold
    · exact absurd (htop x hxold) (Nat.not_lt_of_le hpx)
    have hpstack := h.path_stack p hpold
    rw [hrank p hpstack, hrank x hxold] at hpx
    rcases h.noted p hpold x hxold hpx y hyold hxy with hawait | ⟨q, hq, hpq, hle⟩
    · have hne : y ≠ w := (hfresh y hyold).symm
      exact Or.inl (hold x y ((hkept x y hawait).resolve_left hne))
    · have hqstack := h.path_stack q hq
      refine Or.inr ⟨q, List.mem_cons_of_mem w hq, ?_, ?_⟩
      · rw [hrank p hpstack, hrank q hqstack]
        exact hpq
      · rw [hlow q hqstack, hrank y hyold]
        exact hle
  case settled => exact ht ▸ h.settled

/-! ## Closing a frame -/

section Close

variable {v : Fin n} {rest : List (Frame n)}

/-- Nothing is awaited from above a node whose successors are used up. -/
theorem not_awaits (h : Sound next s) (hwork : s.work = ⟨v, []⟩ :: rest) {x y : Fin n}
    (hx : s.rank v ≤ s.rank x) : ¬ s.Awaits x y := by
  rintro ⟨f, hf, rfl, hy⟩
  rw [hwork] at hf
  rcases List.mem_cons.1 hf with rfl | hf
  · exact nomatch hy
  · have := h.rank_lt_of_tail (path_of_work hwork) f.node (List.mem_map_of_mem hf)
    omega

/-- What awaits a look still does when the frame above it is closed. -/
theorem awaits_rest (hwork : s.work = ⟨v, []⟩ :: rest) {x y : Fin n} (hxy : s.Awaits x y) :
    ({ s with work := rest } : ComponentWalk n).Awaits x y := by
  obtain ⟨f, hf, hx, hy⟩ := hxy
  rw [hwork] at hf
  rcases List.mem_cons.1 hf with rfl | hf
  · exact nomatch hy
  · exact ⟨f, hf, hx, hy⟩

/-- No node under way is above the last one. -/
theorem eq_of_path_of_rank_le (h : Sound next s) (hwork : s.work = ⟨v, []⟩ :: rest) {q : Fin n}
    (hq : q ∈ s.path) (hle : s.rank v ≤ s.rank q) : q = v := by
  have hpath := path_of_work hwork
  rw [hpath] at hq
  refine (List.mem_cons.1 hq).resolve_right fun htail => ?_
  have := h.rank_lt_of_tail hpath q htail
  omega

/-- **FROM ABOVE A ROOT NOTHING LEADS BELOW IT**: a node on the stack that is not
    below the root leads to such nodes and to settled ones. -/
theorem top_closed (h : Sound next s) (hwork : s.work = ⟨v, []⟩ :: rest)
    (hroot : s.lowlink.get v = s.rank v) {x y : Fin n} (hx : x ∈ s.stack)
    (hvx : s.rank v ≤ s.rank x) (hxy : next.Leads x y) :
    (y ∈ s.stack ∧ s.rank v ≤ s.rank y) ∨ y ∈ s.settled := by
  have hquiet : ¬ s.Awaits x y := h.not_awaits hwork hvx
  have hdisc : s.Discovered y := (h.looked x hx y hxy).resolve_left hquiet
  rcases (h.discovered_iff y).1 hdisc with hy | hy
  · refine Or.inl ⟨hy, ?_⟩
    have hv : v ∈ s.path := path_of_work hwork ▸ List.mem_cons_self
    -- the bound noted for `y` is on the root, for no other node under way is so high
    obtain ⟨q, hq, hvq, hle⟩ := (h.noted v hv x hx hvx y hy hxy).resolve_left hquiet
    rw [h.eq_of_path_of_rank_le hwork hq hvq, hroot] at hle
    exact hle
  · exact Or.inr hy

/-- The same along a path. -/
theorem top_reaches (h : Sound next s) (hwork : s.work = ⟨v, []⟩ :: rest)
    (hroot : s.lowlink.get v = s.rank v) {x y : Fin n} (hx : x ∈ s.stack)
    (hvx : s.rank v ≤ s.rank x) (hxy : next.Reaches x y) :
    (y ∈ s.stack ∧ s.rank v ≤ s.rank y) ∨ y ∈ s.settled := by
  induction hxy with
  | refl => exact Or.inl ⟨hx, hvx⟩
  | tail _ hlead ih =>
      rcases ih with ⟨hz, hvz⟩ | hz
      · exact h.top_closed hwork hroot hz hvz hlead
      · exact Or.inr (h.settled.leads hz hlead)

/-- **ALL ABOVE A ROOT LEADS BACK TO IT**: a node that is no root reaches a node
    of lower index above the root. -/
theorem top_leads_back (h : Sound next s) (hwork : s.work = ⟨v, []⟩ :: rest)
    (hroot : s.lowlink.get v = s.rank v) {x : Fin n} (hx : x ∈ s.stack)
    (hvx : s.rank v ≤ s.rank x) : next.Reaches x v := by
  -- the induction is on the index of the node
  induction hk : s.rank x using Nat.strongRecOn generalizing x with
  | _ k ih =>
      by_cases hxv : x = v
      · rw [hxv]
        exact Relation.ReflTransGen.refl
      · have hoff : x ∉ s.path := fun hpath => hxv (h.eq_of_path_of_rank_le hwork hpath hvx)
        have hlt := h.lowlink_lt x hx hoff
        obtain ⟨u, hu, hrank, hreach⟩ := h.lowlink_reached x hx
        rcases h.top_reaches hwork hroot hx hvx hreach with ⟨-, hvu⟩ | hset
        · exact hreach.trans (ih (s.rank u) (by omega) hu hvu rfl)
        · exact absurd hset (h.settled_off u hu)

/-- A node that is no root leaves the path, once its low link is handed on. -/
theorem leave (h : Sound next s) (hwork : s.work = ⟨v, []⟩ :: rest)
    (hlow : s.lowlink.get v < s.rank v) {parent : Fin n} {tail : List (Fin n)}
    (hparent : rest.map (·.node) = parent :: tail)
    (hhand : s.lowlink.get parent ≤ s.lowlink.get v) : Sound next { s with work := rest } := by
  have hpath : s.path = v :: rest.map (·.node) := path_of_work hwork
  have hrest : rest ≠ [] := by
    rintro rfl
    exact nomatch hparent
  have hbest : ∀ p ∈ rest.map (·.node), s.rank p ≤ s.rank parent := by
    have hdesc := h.path_descending
    rw [hpath, hparent] at hdesc
    rw [hparent]
    intro p hp
    rcases List.mem_cons.1 hp with rfl | hp
    · exact Nat.le_refl _
    · exact Nat.le_of_lt ((List.pairwise_cons.1 (List.pairwise_cons.1 hdesc).2).1 p hp)
  have hsub : ∀ p ∈ rest.map (·.node), p ∈ s.path := fun p hp =>
    hpath ▸ List.mem_cons_of_mem v hp
  refine
    { toOrderly := h.toOrderly.leave hwork hrest
      lowlink_le := h.lowlink_le
      lowlink_lt := ?lowlink_lt
      lowlink_reached := h.lowlink_reached
      path_reaches := fun p hp => h.path_reaches p (hsub p hp)
      looked := fun x hx y hxy => (h.looked x hx y hxy).imp_left (awaits_rest hwork)
      noted := ?noted
      settled := h.settled }
  case lowlink_lt =>
    intro x hx hoff
    by_cases hxv : x = v
    · rw [hxv]
      exact hlow
    · refine h.lowlink_lt x hx fun hmem => ?_
      rw [hpath] at hmem
      exact hoff ((List.mem_cons.1 hmem).resolve_left hxv)
  case noted =>
    intro p hp x hx hpx y hy hxy
    rcases h.noted p (hsub p hp) x hx hpx y hy hxy with hawait | ⟨q, hq, hpq, hle⟩
    · exact Or.inl (awaits_rest hwork hawait)
    · rw [hpath] at hq
      rcases List.mem_cons.1 hq with rfl | hq
      · -- the parent now stands for the node that leaves
        refine Or.inr ⟨parent, ?_, hbest p hp, Nat.le_trans hhand hle⟩
        show parent ∈ rest.map (·.node)
        rw [hparent]
        exact List.mem_cons_self
      · exact Or.inr ⟨q, hq, hpq, hle⟩

/-- A root leaves the path, and what is not below it on the stack is settled. -/
theorem complete (h : Sound next s) (hwork : s.work = ⟨v, []⟩ :: rest)
    (hroot : s.lowlink.get v = s.rank v) :
    Sound next (({ s with work := rest } : ComponentWalk n).complete v) := by
  have hpath : s.path = v :: rest.map (·.node) := path_of_work hwork
  have hvpath : v ∈ s.path := hpath ▸ List.mem_cons_self
  have hv : v ∈ s.stack := h.path_stack v hvpath
  have htop : ∀ {x}, x ∈ (popTo v s.stack).1 ↔ x ∈ s.stack ∧ s.rank v ≤ s.rank x :=
    h.mem_popTo_fst_iff hv
  have hbelow : ∀ {x}, x ∈ (popTo v s.stack).2 ↔ x ∈ s.stack ∧ s.rank x < s.rank v :=
    h.mem_popTo_snd_iff hv
  have hsub : ∀ p ∈ rest.map (·.node), p ∈ s.path := fun p hp =>
    hpath ▸ List.mem_cons_of_mem v hp
  refine
    { toOrderly := h.toOrderly.complete hwork
      lowlink_le := fun x hx => h.lowlink_le x (hbelow.1 hx).1
      lowlink_lt := ?lowlink_lt
      lowlink_reached := ?lowlink_reached
      path_reaches := fun p hp x hx => h.path_reaches p (hsub p hp) x (hbelow.1 hx).1
      looked := fun x hx y hxy =>
        (h.looked x (hbelow.1 hx).1 y hxy).imp_left (awaits_rest hwork)
      noted := ?noted
      settled := Settled.cons ?nonempty ?classes ?closed h.settled }
  case lowlink_lt =>
    intro x hx hoff
    obtain ⟨hxs, hlt⟩ := hbelow.1 hx
    refine h.lowlink_lt x hxs fun hmem => ?_
    rw [hpath] at hmem
    rcases List.mem_cons.1 hmem with rfl | hmem
    · exact Nat.lt_irrefl _ hlt
    · exact hoff hmem
  case lowlink_reached =>
    intro x hx
    obtain ⟨hxs, hlt⟩ := hbelow.1 hx
    obtain ⟨u, hu, hrank, hreach⟩ := h.lowlink_reached x hxs
    have hle := h.lowlink_le x hxs
    exact ⟨u, hbelow.2 ⟨hu, by omega⟩, hrank, hreach⟩
  case noted =>
    intro p hp x hx hpx y hy hxy
    obtain ⟨hys, hlt⟩ := hbelow.1 hy
    rcases h.noted p (hsub p hp) x (hbelow.1 hx).1 hpx y hys hxy with hawait | ⟨q, hq, hpq, hle⟩
    · exact Or.inl (awaits_rest hwork hawait)
    · rw [hpath] at hq
      rcases List.mem_cons.1 hq with rfl | hq
      · -- the root notes nothing below itself
        rw [hroot] at hle
        exact absurd hlt (Nat.not_lt_of_le hle)
      · exact Or.inr ⟨q, hq, hpq, hle⟩
  case nonempty =>
    exact List.ne_nil_of_mem (htop.2 ⟨hv, Nat.le_refl _⟩)
  case classes =>
    intro a ha b
    obtain ⟨has, hva⟩ := htop.1 ha
    constructor
    · intro hb
      obtain ⟨hbs, hvb⟩ := htop.1 hb
      -- from each of both up to the root, and from there down to the other
      exact ⟨(h.top_leads_back hwork hroot has hva).trans (h.path_reaches v hvpath b hbs hvb),
        (h.top_leads_back hwork hroot hbs hvb).trans (h.path_reaches v hvpath a has hva)⟩
    · rintro ⟨hab, hba⟩
      rcases h.top_reaches hwork hroot has hva hab with hb | hb
      · exact htop.2 hb
      · -- no way leads back from a settled node
        exact absurd (h.settled.reaches hb hba) (h.settled_off a has)
  case closed =>
    intro a ha b hab
    obtain ⟨has, hva⟩ := htop.1 ha
    exact (h.top_closed hwork hroot has hva hab).imp_left htop.2

/-- A frame without successors may be closed. -/
theorem close (h : Sound next s) (hwork : s.work = ⟨v, []⟩ :: rest) :
    Sound next (s.close v rest) := by
  have hpath : s.path = v :: rest.map (·.node) := path_of_work hwork
  have hvpath : v ∈ s.path := hpath ▸ List.mem_cons_self
  have hv : v ∈ s.stack := h.path_stack v hvpath
  have hindex := (h.discovered_of_stack hv).index_eq
  obtain ⟨u, hu, hrank, hreach⟩ := h.lowlink_reached v hv
  rw [ComponentWalk.close]
  cases rest with
  | nil =>
      -- the first node under way is a root, as nothing on the stack is below it
      have hroot : s.lowlink.get v = s.rank v := by
        obtain ⟨p, hp, hle⟩ := h.stack_path u hu
        rw [hpath] at hp
        have hpv : p = v := List.mem_singleton.1 hp
        rw [hpv] at hle
        have := h.lowlink_le v hv
        omega
      have hcond : s.index.get v = some (s.lowlink.get v) := by rw [hindex, hroot]
      show Sound next (if s.index.get v = some (s.lowlink.get v) then _ else _)
      rw [if_pos hcond]
      exact h.complete hwork hroot
  | cons parent rest =>
      have hparent : parent.node ∈ s.path := hpath ▸ List.mem_cons_of_mem v List.mem_cons_self
      have hlt : s.rank parent.node < s.rank v := h.rank_lt_of_tail hpath _ List.mem_cons_self
      have hne : parent.node ≠ v := by
        intro heq
        rw [heq] at hlt
        exact Nat.lt_irrefl _ hlt
      -- the parent reaches `v`, and so what the low link of `v` stands for
      have hlow := h.lower hu
        ((h.path_reaches parent.node hparent v hv (Nat.le_of_lt hlt)).trans hreach)
      rw [hrank] at hlow
      have hkeep := lowlink_lower_of_ne (s := s) hne (s.lowlink.get v)
      show Sound next (if s.index.get v
        = some ((s.lower parent.node (s.lowlink.get v)).lowlink.get v) then _ else _)
      rw [hkeep]
      by_cases hcond : s.index.get v = some (s.lowlink.get v)
      · rw [if_pos hcond]
        rw [hindex] at hcond
        exact hlow.complete hwork (hkeep.trans (Option.some.inj hcond).symm)
      · rw [if_neg hcond]
        refine hlow.leave hwork ?_ rfl ?_
        · have hle := h.lowlink_le v hv
          have hneq : s.rank v ≠ s.lowlink.get v := by
            intro heq
            exact hcond (by rw [hindex, heq])
          show (s.lower parent.node (s.lowlink.get v)).lowlink.get v < s.rank v
          omega
        · rw [hkeep, lowlink_lower_self]
          exact Nat.min_le_right _ _

end Close

/-! ## Steps and runs -/

/-- Using up one successor of the last node under way. -/
private theorem path_use {v w : Fin n} {pending : List (Fin n)} {rest : List (Frame n)}
    (hwork : s.work = ⟨v, w :: pending⟩ :: rest) :
    ({ s with work := ⟨v, pending⟩ :: rest } : ComponentWalk n).path = s.path :=
  (path_of_work hwork).symm

private theorem awaits_of_use {v w : Fin n} {pending : List (Fin n)} {rest : List (Frame n)}
    (hwork : s.work = ⟨v, w :: pending⟩ :: rest) (x y : Fin n)
    (hxy : ({ s with work := ⟨v, pending⟩ :: rest } : ComponentWalk n).Awaits x y) :
    s.Awaits x y := by
  obtain ⟨f, hf, hx, hy⟩ := hxy
  rcases List.mem_cons.1 hf with rfl | hf
  · exact ⟨⟨v, w :: pending⟩, hwork ▸ List.mem_cons_self, hx, List.mem_cons_of_mem w hy⟩
  · exact ⟨f, hwork ▸ List.mem_cons_of_mem _ hf, hx, hy⟩

private theorem awaits_use {v w : Fin n} {pending : List (Fin n)} {rest : List (Frame n)}
    (hwork : s.work = ⟨v, w :: pending⟩ :: rest) (x y : Fin n) (hxy : s.Awaits x y) :
    ({ s with work := ⟨v, pending⟩ :: rest } : ComponentWalk n).Awaits x y ∨ x = v ∧ y = w := by
  obtain ⟨f, hf, hx, hy⟩ := hxy
  rw [hwork] at hf
  rcases List.mem_cons.1 hf with rfl | hf
  · rcases List.mem_cons.1 hy with hyw | hy
    · exact Or.inr ⟨hx.symm, hyw⟩
    · exact Or.inl ⟨⟨v, pending⟩, List.mem_cons_self, hx, hy⟩
  · exact Or.inl ⟨f, List.mem_cons_of_mem _ hf, hx, hy⟩

/-- **ONE STEP KEEPS ALL OF IT.** -/
theorem step (h : Sound next s) (hopen : s.work ≠ []) : Sound next (s.step next) := by
  generalize hs : s.step next = t
  have hstep : Step next s t := hs ▸ step_spec hopen
  cases hstep with
  | @discover v w pending rest hwork hnew =>
      refine h.discover (path_use hwork) (awaits_of_use hwork) ?_ hnew ?_
      · intro x y hxy
        exact (awaits_use hwork x y hxy).symm.imp_left And.right
      · intro u hu
        rw [path_of_work hwork] at hu
        cases hu
        exact h.awaits_leads v w ⟨_, hwork ▸ List.mem_cons_self, rfl, List.mem_cons_self⟩
  | @lower v w pending rest i hwork hindex hon =>
      have hawait : s.Awaits v w := ⟨_, hwork ▸ List.mem_cons_self, rfl, List.mem_cons_self⟩
      have hvpath : v ∈ s.path := path_of_work hwork ▸ List.mem_cons_self
      have hlow := h.lower ((h.onStack_iff w).1 hon)
        (Relation.ReflTransGen.single (h.awaits_leads v w hawait))
      rw [rank_of_index hindex] at hlow
      refine hlow.consume (path_use hwork) (awaits_of_use hwork) ?_
      intro x y hxy
      refine (awaits_use hwork x y hxy).imp_right ?_
      rintro ⟨rfl, rfl⟩
      refine ⟨discovered_of_index hindex, fun _ => ⟨x, hvpath, Nat.le_refl _, ?_⟩⟩
      rw [lowlink_lower_self]
      exact Nat.le_trans (Nat.min_le_right _ _) (Nat.le_of_eq (rank_of_index hindex).symm)
  | @pass v w pending rest i hwork hindex hoff =>
      refine h.consume (path_use hwork) (awaits_of_use hwork) ?_
      intro x y hxy
      refine (awaits_use hwork x y hxy).imp_right ?_
      rintro ⟨rfl, rfl⟩
      refine ⟨discovered_of_index hindex, fun hy => ?_⟩
      rw [(h.onStack_iff y).2 hy] at hoff
      exact nomatch hoff
  | close hwork => exact h.close hwork

end Sound

/-- A step forgets no discovered node. -/
theorem discovered_step (hopen : s.work ≠ []) {x : Fin n} (hx : s.Discovered x) :
    (s.step next).Discovered x := by
  generalize hs : s.step next = t
  have hstep : Step next s t := hs ▸ step_spec hopen
  cases hstep with
  | discover hwork hnew => exact (discovered_discover_iff next).2 (Or.inr hx)
  | lower hwork hindex hon => exact hx
  | pass hwork hindex hoff => exact hx
  | close hwork =>
      rw [Discovered, close_index]
      exact hx

/-- **A RUN ENDS IN ORDER**, with no node under way and none forgotten. -/
theorem run_sound (h : Sound next s) :
    Sound next (run next s) ∧ (run next s).work = [] ∧
      ∀ x, s.Discovered x → (run next s).Discovered x := by
  have hstep : ∀ t : ComponentWalk n,
      (Sound next t ∧ ∀ x, s.Discovered x → t.Discovered x) → t.work ≠ [] →
        Sound next (t.step next) ∧ ∀ x, s.Discovered x → (t.step next).Discovered x := by
    rintro t ⟨ht, hkept⟩ hopen
    exact ⟨ht.step hopen, fun x hx => discovered_step hopen (hkept x hx)⟩
  obtain ⟨⟨hsound, hkept⟩, hend⟩ := run_induction hstep s ⟨h, fun _ hx => hx⟩
  exact ⟨hsound, hend, hkept⟩

/-- The first node of a walk is discovered. -/
theorem Sound.discover_first (h : Sound next s) (hwork : s.work = []) {root : Fin n}
    (hnew : s.index.get root = none) : Sound next (s.discover next root) := by
  have hpath : s.path = [] := by
    rw [path, hwork]
    rfl
  have hfirst : Sound next (({ s with work := s.work } : ComponentWalk n).discover next root) := by
    refine h.discover rfl (fun _ _ hxy => hxy) (fun _ _ hxy => Or.inr hxy) hnew ?_
    intro v hv
    rw [hpath] at hv
    cases hv
  exact hfirst

/-- A visit from a state without a node under way leads to another, where the
    root is discovered. -/
theorem visit_sound (h : Sound next s) (hwork : s.work = []) (root : Fin n) :
    Sound next (visit next s root) ∧ (visit next s root).work = [] ∧
      ∀ x, x = root ∨ s.Discovered x → (visit next s root).Discovered x := by
  rw [visit]
  by_cases hnew : s.index.get root = none
  · rw [if_pos (by rw [hnew]; rfl)]
    obtain ⟨hsound, hend, hkept⟩ := run_sound (h.discover_first hwork hnew)
    exact ⟨hsound, hend, fun x hx => hkept x ((discovered_discover_iff next).2 hx)⟩
  · rw [if_neg (by simpa using hnew)]
    refine ⟨h, hwork, ?_⟩
    rintro x (rfl | hx)
    · exact hnew
    · exact hx

/-- Visits from all of `roots` discover all of them. -/
theorem visits_sound (roots : List (Fin n)) (h : Sound next s) (hwork : s.work = []) :
    Sound next (roots.foldl (visit next) s) ∧ (roots.foldl (visit next) s).work = [] ∧
      ∀ x, x ∈ roots ∨ s.Discovered x → (roots.foldl (visit next) s).Discovered x := by
  induction roots generalizing s with
  | nil => exact ⟨h, hwork, fun x hx => hx.resolve_left List.not_mem_nil⟩
  | cons root roots ih =>
      obtain ⟨hsound, hend, hkept⟩ := visit_sound h hwork root
      obtain ⟨hsound', hend', hkept'⟩ := ih hsound hend
      refine ⟨hsound', hend', fun x hx => hkept' x ?_⟩
      rw [List.mem_cons] at hx
      rcases hx with (rfl | hx) | hx
      · exact Or.inr (hkept x (Or.inl rfl))
      · exact Or.inl hx
      · exact Or.inr (hkept x (Or.inr hx))

end ComponentWalk

end Flowchart
