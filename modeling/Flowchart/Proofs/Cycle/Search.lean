import Mathlib.Data.List.Chain
import Mathlib.Data.List.Nodup
import Flowchart.Graph.Cycle
import Flowchart.Proofs.Path

/-! # The backtracking walk — every way round is found

    `Aligned` says that frames, path and marks stay in step, and that only round
    trips are found.  That none is missed needs a view of what is still to come:
    a walk lies `Ahead` of the frames when it follows them up to one of them and
    goes on to a successor that is pending there.  A step uses up a pending
    successor only by finding the trip, by going on along it, or when no trip
    goes that way, so every round trip is found or still ahead
    (`found_or_ahead_step`).  At the end nothing is ahead. -/

namespace Flowchart

variable {n : Nat}

/-- A way round from `origin` that repeats no node. -/
structure RoundTrip (next : Adjacency n) (origin : Fin n) (c : List (Fin n)) : Prop where
  first : c.head? = some origin
  nodup : c.Nodup
  /-- Back at the origin the way is closed. -/
  closed : (c ++ [origin]).IsChain next.Leads

namespace CycleWalk

variable {next : Adjacency n} {origin : Fin n} {s : CycleWalk n}

/-! ## What a step can do -/

/-- The outcomes of a step while a node is under way. -/
inductive Step (next : Adjacency n) (origin : Fin n) (s : CycleWalk n) : CycleWalk n → Prop where
  | backtrack {v : Fin n} {rest : List (Frame n)} (hwork : s.work = ⟨v, []⟩ :: rest) :
      Step next origin s (s.backtrack rest)
  | record {v : Fin n} {pending : List (Fin n)} {rest : List (Frame n)}
      (hwork : s.work = ⟨v, origin :: pending⟩ :: rest) :
      Step next origin s
        { s with work := ⟨v, pending⟩ :: rest, found := s.path.reverse :: s.found }
  | skip {v w : Fin n} {pending : List (Fin n)} {rest : List (Frame n)}
      (hwork : s.work = ⟨v, w :: pending⟩ :: rest) (hne : w ≠ origin)
      (hon : s.onPath.get w = true) :
      Step next origin s { s with work := ⟨v, pending⟩ :: rest }
  | extend {v w : Fin n} {pending : List (Fin n)} {rest : List (Frame n)}
      (hwork : s.work = ⟨v, w :: pending⟩ :: rest) (hne : w ≠ origin)
      (hoff : s.onPath.get w = false) :
      Step next origin s (extend next { s with work := ⟨v, pending⟩ :: rest } w)

theorem step_spec (h : s.work ≠ []) : Step next origin s (s.step next origin) := by
  rw [step]
  split
  · next hwork => exact absurd hwork h
  · next v rest hwork => exact Step.backtrack hwork
  · next v w pending rest hwork =>
      simp only
      split
      · next heq => exact Step.record (heq ▸ hwork)
      · next hne =>
          split
          · next hon => exact Step.skip hwork hne hon
          · next hoff => exact Step.extend hwork hne (Bool.eq_false_iff.2 hoff)

/-! ## Frames, path and marks -/

/-- Frames, path and marks are in step, and what was found are round trips. -/
structure Aligned (next : Adjacency n) (origin : Fin n) (s : CycleWalk n) : Prop where
  frames : s.work.map (·.node) = s.path
  origin_last : ∀ v ∈ s.path.getLast?, v = origin
  nodup : s.path.Nodup
  linked : s.path.IsChain fun v u => next.Leads u v
  onPath_iff : ∀ v, s.onPath.get v = true ↔ v ∈ s.path
  pending_leads : ∀ f ∈ s.work, ∀ w ∈ f.pending, next.Leads f.node w
  found_round : ∀ c ∈ s.found, RoundTrip next origin c

namespace Aligned

theorem path_eq (h : Aligned next origin s) {v : Fin n} {pending : List (Fin n)}
    {rest : List (Frame n)} (hwork : s.work = ⟨v, pending⟩ :: rest) :
    s.path = v :: rest.map (·.node) := by
  rw [← h.frames, hwork]
  rfl

theorem start (next : Adjacency n) (origin : Fin n) :
    Aligned next origin (CycleWalk.start next origin) where
  frames := rfl
  origin_last v hv := (Option.some.inj hv).symm
  nodup := List.nodup_singleton origin
  linked := List.isChain_singleton origin
  onPath_iff := Table.get_put_true_iff Table.get_fill_false_iff origin
  pending_leads f hf w hw := by
    rw [List.mem_singleton.1 hf] at hw ⊢
    exact hw
  found_round c hc := absurd hc List.not_mem_nil

/-- The frames with one pending successor of the last used up. -/
theorem consume (h : Aligned next origin s) {v w : Fin n} {pending : List (Fin n)}
    {rest : List (Frame n)} (hwork : s.work = ⟨v, w :: pending⟩ :: rest) :
    Aligned next origin { s with work := ⟨v, pending⟩ :: rest } where
  frames := (h.path_eq hwork).symm
  origin_last := h.origin_last
  nodup := h.nodup
  linked := h.linked
  onPath_iff := h.onPath_iff
  pending_leads f hf u hu := by
    rcases List.mem_cons.1 hf with rfl | hf
    · exact h.pending_leads ⟨v, w :: pending⟩ (hwork ▸ List.mem_cons_self) u
        (List.mem_cons_of_mem w hu)
    · exact h.pending_leads f (hwork ▸ List.mem_cons_of_mem _ hf) u hu
  found_round := h.found_round

theorem leads_next (h : Aligned next origin s) {v w : Fin n} {pending : List (Fin n)}
    {rest : List (Frame n)} (hwork : s.work = ⟨v, w :: pending⟩ :: rest) : next.Leads v w :=
  h.pending_leads ⟨v, w :: pending⟩ (hwork ▸ List.mem_cons_self) w List.mem_cons_self

/-- A path of any nodes begins at the origin. -/
theorem getLast?_path (h : Aligned next origin s) (hne : s.path ≠ []) :
    s.path.getLast? = some origin := by
  have hlast := List.getLast?_eq_some_getLast hne
  rw [hlast, h.origin_last _ hlast]

/-- When the last node leads to the origin, the path is a round trip. -/
theorem path_roundTrip (h : Aligned next origin s) {v : Fin n} {tail : List (Fin n)}
    (hpath : s.path = v :: tail) (hlead : next.Leads v origin) :
    RoundTrip next origin s.path.reverse where
  first := by
    rw [List.head?_reverse]
    exact h.getLast?_path (hpath ▸ List.cons_ne_nil v tail)
  nodup := List.nodup_reverse.2 h.nodup
  closed := by
    rw [← List.reverse_cons, List.isChain_reverse, hpath]
    have hlinked := h.linked
    rw [hpath] at hlinked
    exact List.isChain_cons_cons.2 ⟨hlead, hlinked⟩

/-- Going back takes the last node off the path and its mark away. -/
theorem backtrack (h : Aligned next origin s) {v : Fin n} {rest : List (Frame n)}
    (hwork : s.work = ⟨v, []⟩ :: rest) : Aligned next origin (s.backtrack rest) := by
  have hpath := h.path_eq hwork
  have hnodup := h.nodup
  have hlinked := h.linked
  have hlast := h.origin_last
  rw [hpath] at hnodup hlinked hlast
  rw [CycleWalk.backtrack, hpath]
  refine
    { frames := rfl
      origin_last := ?_
      nodup := (List.nodup_cons.1 hnodup).2
      linked := (List.isChain_cons.1 hlinked).2
      onPath_iff := Table.get_put_false_iff (hpath ▸ h.onPath_iff) (List.nodup_cons.1 hnodup).1
      pending_leads := fun f hf => h.pending_leads f (hwork ▸ List.mem_cons_of_mem _ hf)
      found_round := h.found_round }
  intro u hu
  refine hlast u ?_
  show (v :: rest.map (·.node)).getLast? = some u
  rw [List.getLast?_cons, show (rest.map (·.node)).getLast? = some u from hu]
  rfl

/-- Going on puts a node on the path that is not there yet. -/
theorem extend (h : Aligned next origin s) {v w : Fin n} {pending : List (Fin n)}
    {rest : List (Frame n)} (hwork : s.work = ⟨v, pending⟩ :: rest) (hlead : next.Leads v w)
    (hoff : s.onPath.get w = false) : Aligned next origin (s.extend next w) := by
  have hpath := h.path_eq hwork
  have hnew : w ∉ s.path := by
    intro hmem
    rw [(h.onPath_iff w).2 hmem] at hoff
    cases hoff
  refine
    { frames := congrArg (w :: ·) h.frames
      origin_last := ?_
      nodup := List.nodup_cons.2 ⟨hnew, h.nodup⟩
      linked := ?_
      onPath_iff := Table.get_put_true_iff h.onPath_iff w
      pending_leads := ?_
      found_round := h.found_round }
  · intro u hu
    refine h.origin_last u ?_
    have hu' : (w :: s.path).getLast? = some u := hu
    rw [hpath, List.getLast?_cons_cons] at hu'
    rw [hpath]
    exact hu'
  · show (w :: s.path).IsChain _
    have hlinked := h.linked
    rw [hpath] at hlinked ⊢
    exact List.isChain_cons_cons.2 ⟨hlead, hlinked⟩
  · intro f hf
    rcases List.mem_cons.1 hf with rfl | hf
    · exact fun u hu => hu
    · exact h.pending_leads f hf

/-- **ONE STEP KEEPS THEM IN STEP.** -/
theorem step (h : Aligned next origin s) (hopen : s.work ≠ []) :
    Aligned next origin (s.step next origin) := by
  generalize hs : s.step next origin = t
  have hstep : Step next origin s t := hs ▸ step_spec hopen
  cases hstep with
  | backtrack hwork => exact h.backtrack hwork
  | record hwork =>
      have hnext := h.consume hwork
      refine { hnext with found_round := ?_ }
      intro c hc
      rcases List.mem_cons.1 hc with rfl | hc
      · exact h.path_roundTrip (h.path_eq hwork) (h.leads_next hwork)
      · exact h.found_round c hc
  | skip hwork hne hon => exact h.consume hwork
  | extend hwork hne hoff => exact (h.consume hwork).extend rfl (h.leads_next hwork) hoff

end Aligned

/-! ## What is still to come -/

/-- The walk follows the frames up to one of them, and goes on to a successor
    that is pending there. -/
def Ahead : List (Frame n) → List (Fin n) → Prop
  | [], _ => False
  | f :: below, walk =>
      (∃ w ∈ f.pending, ∃ tail, walk = ((f :: below).map (·.node)).reverse ++ w :: tail) ∨
        Ahead below walk

/-- The first node after a part of a round trip is the origin at the very end, or
    a node of the trip. -/
private theorem split_round {c part tail : List (Fin n)} {w : Fin n}
    (heq : c ++ [origin] = part ++ w :: tail) :
    (c = part ∧ w = origin) ∨ ∃ tail', tail = tail' ++ [origin] ∧ c = part ++ w :: tail' := by
  rcases List.eq_nil_or_concat tail with rfl | ⟨tail', x, rfl⟩
  · obtain ⟨hc, hw⟩ := List.append_inj' heq rfl
    exact Or.inl ⟨hc, (List.cons.inj hw).1.symm⟩
  · rw [List.concat_eq_append, ← List.cons_append, ← List.append_assoc] at heq
    obtain ⟨hc, hx⟩ := List.append_inj' heq rfl
    refine Or.inr ⟨tail', ?_, hc⟩
    rw [List.concat_eq_append, (List.cons.inj hx).1]

/-- A round trip that follows `part` and is then back at the origin is `part`. -/
private theorem round_eq_part {c part tail : List (Fin n)} (hc : RoundTrip next origin c)
    (hpart : part ≠ []) (heq : c ++ [origin] = part ++ origin :: tail) : c = part := by
  rcases split_round heq with ⟨h, -⟩ | ⟨tail', -, rfl⟩
  · exact h
  · exfalso
    have hfirst := hc.first
    cases part with
    | nil => exact hpart rfl
    | cons u part =>
        have hu : u = origin := Option.some.inj hfirst
        have hnodup := hc.nodup
        rw [hu, List.cons_append, List.nodup_cons] at hnodup
        exact hnodup.1 (List.mem_append_right _ List.mem_cons_self)

/-- A round trip does not come back to a node on its way. -/
private theorem round_not_back {c part tail : List (Fin n)} {w : Fin n}
    (hc : RoundTrip next origin c) (hw : w ∈ part) (hne : w ≠ origin)
    (heq : c ++ [origin] = part ++ w :: tail) : False := by
  rcases split_round heq with ⟨-, h⟩ | ⟨tail', -, rfl⟩
  · exact hne h
  · exact (List.nodup_append.1 hc.nodup).2.2 w hw w List.mem_cons_self rfl

/-- A round trip goes on from any other node along an arc. -/
private theorem round_goes_on {c part tail : List (Fin n)} {w : Fin n}
    (hc : RoundTrip next origin c) (hne : w ≠ origin)
    (heq : c ++ [origin] = part ++ w :: tail) :
    ∃ u tail', tail = u :: tail' ∧ next.Leads w u := by
  have hclosed := hc.closed
  rw [heq] at hclosed
  cases tail with
  | nil =>
      rcases split_round heq with ⟨-, h⟩ | ⟨tail', h, -⟩
      · exact absurd h hne
      · exact absurd h.symm (List.append_ne_nil_of_right_ne_nil _ (List.cons_ne_nil _ _))
  | cons u tail' =>
      exact ⟨u, tail', rfl, (List.isChain_cons_cons.1 hclosed.right_of_append).1⟩

/-- A round trip is ahead of the start. -/
theorem ahead_start {c : List (Fin n)} (hc : RoundTrip next origin c) :
    Ahead (CycleWalk.start next origin).work (c ++ [origin]) := by
  have hclosed := hc.closed
  have hfirst := hc.first
  cases c with
  | nil => cases hfirst
  | cons v c =>
      have hv : v = origin := Option.some.inj hfirst
      subst hv
      cases hrest : c ++ [v] with
      | nil => exact absurd hrest (List.append_ne_nil_of_right_ne_nil _ (List.cons_ne_nil _ _))
      | cons u tail =>
          rw [List.cons_append, hrest] at hclosed ⊢
          exact Or.inl ⟨u, (List.isChain_cons_cons.1 hclosed).1, tail, rfl⟩

/-- A walk ahead takes the successor that a step looks at, or stays ahead without
    it. -/
private theorem takes_or_ahead (h : Aligned next origin s) {v w : Fin n}
    {pending : List (Fin n)} {rest : List (Frame n)} (hwork : s.work = ⟨v, w :: pending⟩ :: rest)
    {walk : List (Fin n)} (hahead : Ahead s.work walk) :
    (∃ tail, walk = s.path.reverse ++ w :: tail) ∨ Ahead (⟨v, pending⟩ :: rest) walk := by
  rw [hwork] at hahead
  rcases hahead with ⟨u, hu, tail, heq⟩ | hbelow
  · rcases List.mem_cons.1 hu with rfl | hu
    · refine Or.inl ⟨tail, ?_⟩
      rw [h.path_eq hwork]
      exact heq
    · exact Or.inr (Or.inl ⟨u, hu, tail, heq⟩)
  · exact Or.inr (Or.inr hbelow)

/-- **NO ROUND TRIP IS MISSED**: after a step it is found or still ahead. -/
theorem found_or_ahead_step (h : Aligned next origin s) (hopen : s.work ≠ [])
    {c : List (Fin n)} (hc : RoundTrip next origin c)
    (hbefore : c ∈ s.found ∨ Ahead s.work (c ++ [origin])) :
    c ∈ (s.step next origin).found ∨ Ahead (s.step next origin).work (c ++ [origin]) := by
  generalize hs : s.step next origin = t
  have hstep : Step next origin s t := hs ▸ step_spec hopen
  cases hstep with
  | @backtrack v rest hwork =>
      rw [CycleWalk.backtrack, h.path_eq hwork]
      refine hbefore.imp_right fun hahead => ?_
      rw [hwork] at hahead
      rcases hahead with ⟨w, hw, -⟩ | hbelow
      · exact absurd hw List.not_mem_nil
      · exact hbelow
  | @record v pending rest hwork =>
      rcases hbefore with hfound | hahead
      · exact Or.inl (List.mem_cons_of_mem _ hfound)
      · rcases takes_or_ahead h hwork hahead with ⟨tail, heq⟩ | hstill
        · -- the trip is back at its origin, so the path is all of it
          have hne : s.path.reverse ≠ [] := by
            rw [h.path_eq hwork]
            exact List.reverse_ne_nil_iff.2 (List.cons_ne_nil _ _)
          have hself : c = s.path.reverse := round_eq_part hc hne heq
          exact Or.inl (hself ▸ List.mem_cons_self)
        · exact Or.inr hstill
  | @skip v w pending rest hwork hne hon =>
      refine hbefore.imp_right fun hahead => ?_
      refine (takes_or_ahead h hwork hahead).resolve_left ?_
      rintro ⟨tail, heq⟩
      exact round_not_back hc (List.mem_reverse.2 ((h.onPath_iff w).1 hon)) hne heq
  | @extend v w pending rest hwork hne hoff =>
      refine hbefore.imp_right fun hahead => ?_
      rcases takes_or_ahead h hwork hahead with ⟨tail, heq⟩ | hstill
      · -- it goes on along one of the successors pending in the new frame
        obtain ⟨u, tail', rfl, hlead⟩ := round_goes_on hc hne heq
        refine Or.inl ⟨u, hlead, tail', ?_⟩
        rw [heq, h.path_eq hwork]
        simp
      · exact Or.inr hstill

/-- Every round trip is found or still ahead. -/
def Exhaustive (next : Adjacency n) (origin : Fin n) (s : CycleWalk n) : Prop :=
  ∀ c, RoundTrip next origin c → c ∈ s.found ∨ Ahead s.work (c ++ [origin])

/-- **A RUN FINDS THE ROUND TRIPS**, all of them and nothing else. -/
theorem mem_found_run_iff {c : List (Fin n)} :
    c ∈ ((CycleWalk.start next origin).run next origin).found ↔ RoundTrip next origin c := by
  have hstart : Exhaustive next origin (CycleWalk.start next origin) :=
    fun c hc => Or.inr (ahead_start hc)
  have hstep : ∀ s : CycleWalk n, Aligned next origin s ∧ Exhaustive next origin s →
      s.work ≠ [] → Aligned next origin (s.step next origin) ∧
        Exhaustive next origin (s.step next origin) := by
    rintro s ⟨haligned, hall⟩ hopen
    exact ⟨haligned.step hopen, fun c hc => found_or_ahead_step haligned hopen hc (hall c hc)⟩
  obtain ⟨⟨haligned, hall⟩, hend⟩ :=
    run_induction hstep (CycleWalk.start next origin) ⟨Aligned.start next origin, hstart⟩
  constructor
  · exact haligned.found_round c
  · intro hc
    refine (hall c hc).resolve_right ?_
    rw [hend]
    exact id

end CycleWalk

/-- The cycles through a node are the ways round from it. -/
theorem Adjacency.mem_cyclesThrough_iff {next : Adjacency n} {v : Fin n} {c : List (Fin n)} :
    c ∈ next.cyclesThrough v ↔ RoundTrip next v c := by
  rw [cyclesThrough, List.mem_reverse]
  exact CycleWalk.mem_found_run_iff

end Flowchart
