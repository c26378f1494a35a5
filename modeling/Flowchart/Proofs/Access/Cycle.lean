import Flowchart.Graph.Cycle
import Flowchart.Proofs.Access.Component

/-! # Node numbers — cycles and selections over plain numbers

    The index of a graph numbers its nodes, and whatever is said about cycles or
    a selection is found by walks over these numbers and then turned back into
    ids.  Here this is written out over plain numbers, every table and every id
    looked up with a check.  The numbers come from the index alone, and a walk
    meets no others, so each look-up succeeds (`Checked.cycleReport_eq`,
    `Checked.highlight_eq`). -/

namespace Flowchart

namespace Checked

/-! ## Numbered graphs -/

/-- An edge between two numbers. -/
structure Arc where
  edge : Nat
  source : Nat
  target : Nat

def Arc.flip (a : Arc) : Arc := ⟨a.edge, a.target, a.source⟩

/-- A graph of `n` nodes over plain numbers. -/
structure Index (n : Nat) where
  names : Table n String
  numbers : Std.TreeMap String Nat
  arcs : List Arc

/-- The number of each name. -/
def numbers (names : List String) : Std.TreeMap String Nat := .ofList names.zipIdx

/-- The arc of the edge at place `i`, whose ends must be numbers of nodes; none
    unless both ends have numbers. -/
def arc (n : Nat) (numbers : Std.TreeMap String Nat) (e : Edge) (i : Nat) : Option (Option Arc) :=
  match numbers[e.source]?, numbers[e.target]? with
  | some source, some target =>
      if source < n ∧ target < n then some (some ⟨i, source, target⟩) else none
  | _, _ => some none

def index (g : Graph) : Option (Index g.index.order) := do
  let numbers := numbers g.nodeNames
  let arcs ← g.edges.zipIdx.filterMapM fun entry => arc g.index.order numbers entry.1 entry.2
  return { names := g.nodeNames.toArray.toVector, numbers, arcs }

/-- The id of the node with number `v`. -/
def Index.name {n : Nat} (ix : Index n) (v : Nat) : Option String := Table.read? ix.names v

/-- The successors of each of `n` nodes along `arcs`. -/
def successors (n : Nat) (arcs : List Arc) : Option (Table n (List Nat)) :=
  arcs.foldrM
    (fun a next => do Table.put? next a.source (a.target :: (← Table.read? next a.source)))
    (Table.fill n [])

/-! ## The walk for cycles -/

/-- The state of the walk for the cycles through one node, by number. -/
structure Search (n : Nat) where
  work : List Frame
  path : List Nat
  onPath : Table n Bool
  found : List (List Nat)

namespace Search

variable {n : Nat}

def start (next : Table n (List Nat)) (v : Nat) : Option (Search n) := do
  let pending ← Table.read? next v
  let onPath ← Table.put? (Table.fill n false) v true
  return { work := [⟨v, pending⟩], path := [v], onPath, found := [] }

def backtrack (s : Search n) (rest : List Frame) : Option (Search n) := do
  match s.path with
  | [] => return { s with work := rest }
  | v :: path =>
      let onPath ← Table.put? s.onPath v false
      return { s with work := rest, path, onPath }

def extend (next : Table n (List Nat)) (s : Search n) (w : Nat) : Option (Search n) := do
  let pending ← Table.read? next w
  let onPath ← Table.put? s.onPath w true
  return { work := ⟨w, pending⟩ :: s.work, path := w :: s.path, onPath, found := s.found }

def step (next : Table n (List Nat)) (origin : Nat) (s : Search n) : Option (Search n) := do
  match s.work with
  | [] => return s
  | ⟨_, []⟩ :: rest => s.backtrack rest
  | ⟨v, w :: pending⟩ :: rest =>
      let s := { s with work := ⟨v, pending⟩ :: rest }
      if w = origin then return { s with found := s.path.reverse :: s.found }
      else if ← Table.read? s.onPath w then return s
      else extend next s w

noncomputable def run (next : Table n (List Nat)) (origin : Nat) : Search n → Option (Search n) :=
  loop (·.work.isEmpty) (step next origin)

end Search

noncomputable def cyclesThrough {n : Nat} (next : Table n (List Nat)) (v : Nat) :
    Option (List (List Nat)) := do
  return (← (← Search.start next v).run next v).found.reverse

/-! ## Cycles -/

/-- Whether `w` is in the component of `v`. -/
def isInside {n : Nat} (numbers : Table n (Option Nat)) (v w : Nat) : Option Bool := do
  return (← Table.read? numbers w) = (← Table.read? numbers v)

/-- The successors of each node that are in its own component. -/
def inside {n : Nat} (next : Table n (List Nat)) (numbers : Table n (Option Nat)) :
    Option (Table n (List Nat)) :=
  Vector.ofFnM fun v : Fin n => do (← Table.read? next v).filterM (isInside numbers v)

noncomputable def roundTrips {n : Nat} (next : Table n (List Nat)) (components : List (List Nat)) :
    Option (List (List Nat)) := do
  let inside ← inside next (← componentNumbers n components)
  let found ← (components.filter fun component => 1 < component.length).mapM fun component => do
    return (← component.mapM (cyclesThrough inside)).flatten
  return found.flatten

/-- The ids along a cycle. -/
def Index.ids {n : Nat} (ix : Index n) (cycle : List Nat) : Option (List String) :=
  cycle.mapM ix.name

noncomputable def simpleCycles {n : Nat} (ix : Index n) (next : Table n (List Nat))
    (components : List (List Nat)) : Option (List (List String)) := do
  let loops ← (ix.arcs.filter fun a => a.source = a.target).mapM fun a => ix.ids [a.source]
  let trips ← (← roundTrips next components).mapM ix.ids
  return (Std.TreeSet.ofList (loops ++ trips.map canonicalRotation) cycleOrder).toList

/-- Whether an arc lies on a cycle. -/
def isCyclic {n : Nat} (numbers : Table n (Option Nat)) (a : Arc) : Option Bool := do
  if a.source = a.target then return true
  else
    let number ← Table.read? numbers a.source
    return number.isSome && number = (← Table.read? numbers a.target)

def cyclicEdges {n : Nat} (ix : Index n) (components : List (List Nat)) : Option (List Nat) := do
  let numbers ← componentNumbers n components
  return (← ix.arcs.filterM (isCyclic numbers)).map (·.edge)

noncomputable def cycleReport (g : Graph) : Option CycleReport := do
  let ix ← index g
  let next ← successors g.index.order ix.arcs
  let components ← components next
  return {
    cyclicEdges := (← cyclicEdges ix components).toArray
    cycles := ← simpleCycles ix next components }

/-! ## Selections -/

/-- The nodes that are pending and those that were seen, by number. -/
structure Spread (n : Nat) where
  pending : List Nat
  seen : Table n Bool

def Spread.step {n : Nat} (next : Table n (List Nat)) (s : Spread n) : Option (Spread n) := do
  match s.pending with
  | [] => return s
  | v :: rest =>
      if ← Table.read? s.seen v then return { s with pending := rest }
      else
        let pending := (← Table.read? next v) ++ rest
        return { pending, seen := ← Table.put? s.seen v true }

/-- All that can be reached from `start`. -/
noncomputable def reach {n : Nat} (next : Table n (List Nat)) (start : Nat) :
    Option (Table n Bool) := do
  return (← loop (·.pending.isEmpty) (Spread.step next) ⟨[start], Table.fill n false⟩).seen

/-- Whether `v` lies before or after. -/
def isRelated {n : Nat} (below above : Table n Bool) (v : Nat) : Option Bool := do
  return (← Table.read? below v) || (← Table.read? above v)

noncomputable def related (g : Graph) (node : String) : Option (List String) := do
  let ix ← index g
  match ix.numbers[node]? with
  | none => return []
  | some start =>
      let below ← reach (← successors g.index.order ix.arcs) start
      let above ← reach (← successors g.index.order (ix.arcs.map Arc.flip)) start
      (← (List.range g.index.order).filterM (isRelated below above)).mapM ix.name

noncomputable def highlight (g : Graph) (node : String) : Option Highlight := do
  let nodes := Std.TreeSet.ofList (node :: (← related g node))
  return {
    selected := node
    highlightedNodes := nodes.toList
    dimmedNodes := g.nodeNames.filter fun id => !nodes.contains id
    highlightedEdges := g.edgesWhere (Edge.within nodes)
    dimmedEdges := g.edgesWhere fun e => !e.within nodes }

end Checked

/-! ## Nothing is out of range -/

def Arc.plain {n : Nat} (a : Arc n) : Checked.Arc := ⟨a.edge, a.source, a.target⟩

/-- The index of a graph with its nodes by number. -/
def Graph.plainIndex (g : Graph) : Checked.Index g.index.order where
  names := g.index.names
  numbers := Checked.numbers g.nodeNames
  arcs := g.index.arcs.map Arc.plain

def CycleWalk.plain {n : Nat} (s : CycleWalk n) : Checked.Search n where
  work := s.work.map Frame.plain
  path := s.path.map Fin.val
  onPath := s.onPath
  found := s.found.map (List.map Fin.val)

namespace Checked

/-! ### Traversals -/

section Traversal

variable {α β γ : Type} {f : α → β} {entries : List α}

/-- What succeeds for each entry succeeds for the list. -/
theorem mapM_of_forall {visit : α → Option β} {value : α → β}
    (h : ∀ entry ∈ entries, visit entry = some (value entry)) :
    entries.mapM visit = some (entries.map value) := by
  induction entries with
  | nil => rfl
  | cons entry entries ih =>
      have hrest := ih fun later hlater => h later (List.mem_cons_of_mem _ hlater)
      rw [List.mapM_cons, List.map_cons, h entry List.mem_cons_self, hrest]
      rfl

/-- A list is passed over nowhere if every entry has a value. -/
theorem mapM_of_isSome {visit : α → Option β} (h : ∀ entry ∈ entries, (visit entry).isSome) :
    entries.mapM visit = some (entries.filterMap visit) := by
  induction entries with
  | nil => rfl
  | cons entry entries ih =>
      have hrest := ih fun later hlater => h later (List.mem_cons_of_mem _ hlater)
      obtain ⟨value, hvalue⟩ := Option.isSome_iff_exists.1 (h entry List.mem_cons_self)
      rw [List.mapM_cons, List.filterMap_cons, hvalue, hrest]
      rfl

theorem mapM_map_of_forall {visit : β → Option γ} {value : α → γ}
    (h : ∀ entry ∈ entries, visit (f entry) = some (value entry)) :
    (entries.map f).mapM visit = some (entries.map value) := by
  rw [List.mapM_map]
  exact mapM_of_forall h

theorem filterAuxM_of_forall {visit : β → Option Bool} {keep : α → Bool} (done : List β)
    (h : ∀ entry ∈ entries, visit (f entry) = some (keep entry)) :
    (entries.map f).filterAuxM visit done
      = some (((entries.filter keep).map f).reverse ++ done) := by
  induction entries generalizing done with
  | nil => rfl
  | cons entry entries ih =>
      have hrest := fun done => ih done fun later hlater => h later (List.mem_cons_of_mem _ hlater)
      rw [List.map_cons, List.filterAuxM, h entry List.mem_cons_self]
      cases hkeep : keep entry with
      | true =>
          rw [List.filter_cons_of_pos hkeep, List.map_cons, List.reverse_cons, List.append_assoc]
          exact hrest (f entry :: done)
      | false =>
          rw [List.filter_cons_of_neg (Bool.eq_false_iff.1 hkeep)]
          exact hrest done

/-- What is decided for each entry is decided for the list. -/
theorem filterM_of_forall {visit : β → Option Bool} {keep : α → Bool}
    (h : ∀ entry ∈ entries, visit (f entry) = some (keep entry)) :
    (entries.map f).filterM visit = some ((entries.filter keep).map f) := by
  rw [List.filterM, filterAuxM_of_forall [] h, List.append_nil]
  exact congrArg some (List.reverse_reverse _)

theorem filterMapM_of_forall {visit : α → Option (Option β)} {value : α → Option β}
    (h : ∀ entry ∈ entries, visit entry = some (value entry)) :
    entries.filterMapM visit = some (entries.filterMap value) := by
  induction entries with
  | nil => rfl
  | cons entry entries ih =>
      have hrest := ih fun later hlater => h later (List.mem_cons_of_mem _ hlater)
      rw [List.filterMapM_cons, List.filterMap_cons, h entry List.mem_cons_self, hrest]
      cases value entry <;> rfl

end Traversal

/-! ### The index -/

/-- The number of a name is where it stands. -/
theorem getElem?_numbers {names : List String} (h : names.Nodup) {id : String} {k : Nat} :
    (numbers names)[id]? = some k ↔ names[k]? = some id := by
  -- no name stands twice in the list, so no number is put in place of another
  have hdistinct : names.zipIdx.Pairwise fun a b => ¬compare a.1 b.1 = .eq := by
    have hnames := List.pairwise_map.1 (List.zipIdx_map_fst 0 names ▸ h)
    exact hnames.imp fun hne heq => hne (Std.LawfulEqCmp.eq_of_compare heq)
  have hput : ∀ {id : String} {k : Nat}, names[k]? = some id → (numbers names)[id]? = some k :=
    fun hk => Std.TreeMap.getElem?_ofList_of_mem Std.ReflCmp.compare_self hdistinct
      (List.mk_mem_zipIdx_iff_getElem?.2 hk)
  refine ⟨fun hk => ?_, hput⟩
  by_cases hmem : id ∈ names
  · obtain ⟨j, hj⟩ := List.getElem?_of_mem hmem
    rw [hput hj] at hk
    rw [← Option.some.inj hk, hj]
  · have hnone : (numbers names)[id]? = none := by
      refine Std.TreeMap.getElem?_ofList_of_contains_eq_false ?_
      rw [List.zipIdx_map_fst, Bool.eq_false_iff, ne_eq, List.contains_iff_mem]
      exact hmem
    rw [hnone] at hk
    cases hk

/-- The number of an id is that of its node. -/
theorem getElem?_plainIndex (g : Graph) (id : String) :
    (numbers g.nodeNames)[id]? = (g.index.node? id).map Fin.val := by
  refine Option.ext fun k => ?_
  rw [getElem?_numbers g.nodup_nodeNames, Option.map_eq_some_iff]
  constructor
  · intro hk
    obtain ⟨hlt, hname⟩ := List.getElem?_eq_some_iff.1 hk
    exact ⟨⟨k, hlt⟩, Graph.index_node?_eq_some_iff.2 hname, rfl⟩
  · rintro ⟨v, hv, rfl⟩
    have hname := Graph.index_node?_eq_some_iff.1 hv
    exact List.getElem?_eq_some_iff.2 ⟨v.isLt, hname⟩

/-- The ends of an arc are numbers of nodes. -/
theorem arc_plain (g : Graph) (e : Edge) (i : Nat) :
    arc g.index.order (numbers g.nodeNames) e i
      = some ((e.arc? g.index.positions i).map Arc.plain) := by
  have hnumber : ∀ id, (numbers g.nodeNames)[id]? = (g.index.positions[id]?).map Fin.val :=
    getElem?_plainIndex g
  rw [arc, Edge.arc?, hnumber, hnumber]
  cases g.index.positions[e.source]? with
  | none => rfl
  | some source =>
      cases g.index.positions[e.target]? with
      | none => rfl
      | some target => exact if_pos ⟨source.isLt, target.isLt⟩

theorem index_eq (g : Graph) : index g = some g.plainIndex := by
  have harcs : g.index.arcs.map Arc.plain
      = g.edges.zipIdx.filterMap fun entry =>
          (entry.1.arc? g.index.positions entry.2).map Arc.plain := List.map_filterMap
  rw [index, filterMapM_of_forall fun entry _ => arc_plain g entry.1 entry.2, ← harcs]
  rfl

theorem name_plainIndex (g : Graph) (v : Fin g.index.order) :
    g.plainIndex.name v = some (g.index.name v) :=
  Table.read?_val g.index.names v

theorem successors_plain {n : Nat} (arcs : List (Flowchart.Arc n)) :
    successors n (arcs.map Arc.plain) = some (Adjacency.ofArcs arcs).plain := by
  induction arcs with
  | nil =>
      have hfill : Vector.map (List.map Fin.val) (Vector.replicate n ([] : List (Fin n)))
          = Vector.replicate n [] := Vector.map_replicate
      exact congrArg some hfill.symm
  | cons a arcs ih =>
      have hput : Table.put (Adjacency.ofArcs arcs).plain a.source
            ((a.target :: (Adjacency.ofArcs arcs).get a.source).map Fin.val)
          = (Adjacency.ofArcs (a :: arcs)).plain := Vector.map_set.symm
      rw [successors] at ih
      rw [successors, List.map_cons, List.foldrM_cons, ih]
      simp only [Arc.plain, Table.read?_val, Adjacency.get_plain, Table.put?_val,
        Option.bind_eq_bind, Option.bind_some]
      rw [← hput]
      rfl

/-! ### The walk for cycles -/

namespace Search

variable {n : Nat} (next : Adjacency n) (s : CycleWalk n)

theorem start_plain (v : Fin n) : start next.plain v = some (CycleWalk.start next v).plain := by
  rw [start, Table.read?_val, Adjacency.get_plain, Table.put?_val]
  rfl

theorem backtrack_plain (rest : List (Flowchart.Frame n)) :
    s.plain.backtrack (rest.map Frame.plain) = some (s.backtrack rest).plain := by
  have hpath : s.plain.path = s.path.map Fin.val := rfl
  have hmarks : s.plain.onPath = s.onPath := rfl
  rw [backtrack, CycleWalk.backtrack, hpath, hmarks]
  cases s.path with
  | nil => rfl
  | cons v path =>
      simp only [List.map_cons, Table.put?_val, Option.bind_eq_bind, Option.bind_some]
      rfl

theorem extend_plain (w : Fin n) : extend next.plain s.plain w = some (s.extend next w).plain := by
  have hmarks : s.plain.onPath = s.onPath := rfl
  rw [extend, Table.read?_val, Adjacency.get_plain, hmarks, Table.put?_val]
  rfl

/-- **NO STEP IS OUT OF RANGE**: it is the step of the typed walk. -/
theorem step_plain (origin : Fin n) :
    s.plain.step next.plain origin = some (s.step next origin).plain := by
  have hframes : s.plain.work = s.work.map Frame.plain := rfl
  rw [step, CycleWalk.step, hframes]
  cases s.work with
  | nil => rfl
  | cons frame rest =>
      obtain ⟨v, pending⟩ := frame
      cases pending with
      | nil => exact backtrack_plain s rest
      | cons w pending =>
          have hmark : Table.read? s.plain.onPath w = some (s.onPath.get w) :=
            Table.read?_val s.onPath w
          have hopened : ({ s.plain with
                work := ⟨v, pending.map Fin.val⟩ :: rest.map Frame.plain } : Search n)
              = ({ s with work := ⟨v, pending⟩ :: rest } : CycleWalk n).plain := rfl
          simp only [List.map_cons, Frame.plain, hmark, hopened, Fin.val_inj, Option.bind_eq_bind,
            Option.bind_some, extend_plain]
          split
          · simp only [CycleWalk.plain, List.map_cons, List.map_reverse]
            rfl
          · split <;> rfl

/-- A walk from a typed state comes to its end. -/
theorem ends_plain (origin : Fin n) :
    Ends (·.work.isEmpty) (step next.plain origin) s.plain (s.run next origin).plain := by
  fun_induction CycleWalk.run next origin s with
  | case1 s hwork =>
      exact .here (List.isEmpty_iff.2 (congrArg (List.map Frame.plain) hwork))
  | case2 s hwork ih =>
      have hopen : s.plain.work.isEmpty = false :=
        List.isEmpty_eq_false_iff.2 fun hnone => hwork (List.map_eq_nil_iff.1 hnone)
      exact .later hopen (step_plain next s origin) ih

theorem run_plain (origin : Fin n) :
    run next.plain origin s.plain = some (s.run next origin).plain :=
  loop_eq_some (ends_plain next s origin)

end Search

theorem cyclesThrough_plain {n : Nat} (next : Adjacency n) (v : Fin n) :
    cyclesThrough next.plain v = some ((next.cyclesThrough v).map (List.map Fin.val)) := by
  have hrun := Search.run_plain next (CycleWalk.start next v) v
  simp only [cyclesThrough, Search.start_plain, hrun, Option.bind_eq_bind, Option.bind_some]
  exact congrArg some List.map_reverse.symm

theorem isInside_val {n : Nat} (numbers : Table n (Option Nat)) (v w : Fin n) :
    isInside numbers v w = some (decide (numbers.get w = numbers.get v)) := by
  rw [isInside, Table.read?_val, Table.read?_val]
  rfl

theorem inside_plain {n : Nat} (next : Adjacency n) (numbers : Table n (Option Nat)) :
    inside next.plain numbers = some (next.inside numbers).plain := by
  have hentries : (fun v : Fin n => do (← Table.read? next.plain v).filterM (isInside numbers v))
      = fun v =>
        pure (((next.get v).filter fun w => numbers.get w = numbers.get v).map Fin.val) := by
    funext v
    rw [Table.read?_val, Adjacency.get_plain]
    exact filterM_of_forall fun w _ => isInside_val numbers v w
  rw [inside, hentries, Vector.ofFnM_pure]
  exact congrArg some Vector.map_ofFn.symm

/-! ### Cycles -/

theorem roundTrips_plain (ix : Flowchart.Index) (components : List (List (Fin ix.order))) :
    roundTrips ix.forward.plain (components.map (List.map Fin.val))
      = some ((ix.roundTrips components).map (List.map Fin.val)) := by
  let inside := ix.forward.inside (Flowchart.componentNumbers components)
  have hcomponent : ∀ component : List (Fin ix.order), (do
        return (← (component.map Fin.val).mapM (cyclesThrough inside.plain)).flatten)
      = some ((component.flatMap inside.cyclesThrough).map (List.map Fin.val)) := by
    intro component
    rw [mapM_map_of_forall fun v _ => cyclesThrough_plain inside v, List.map_flatMap,
      List.flatMap_def]
    rfl
  simp only [roundTrips, componentNumbers_plain, inside_plain, Option.bind_eq_bind,
    Option.bind_some, List.filter_map, Function.comp_def, List.length_map]
  rw [mapM_map_of_forall fun component _ => hcomponent component, Flowchart.Index.roundTrips,
    List.map_flatMap, List.flatMap_def]
  rfl

theorem ids_plain (g : Graph) (cycle : List (Fin g.index.order)) :
    g.plainIndex.ids (cycle.map Fin.val) = some (cycle.map g.index.name) :=
  mapM_map_of_forall fun v _ => name_plainIndex g v

theorem simpleCycles_plain (g : Graph) (components : List (List (Fin g.index.order))) :
    simpleCycles g.plainIndex g.index.forward.plain (components.map (List.map Fin.val))
      = some (g.index.simpleCycles components) := by
  have hloops : (g.plainIndex.arcs.filter fun a => a.source = a.target).mapM
        (fun a => g.plainIndex.ids [a.source])
      = some (g.index.loops.map fun v => [g.index.name v]) := by
    have harcs : g.plainIndex.arcs.filter (fun a => a.source = a.target)
        = (g.index.arcs.filter fun a => a.source = a.target).map Arc.plain := by
      show (g.index.arcs.map Arc.plain).filter _ = _
      simp only [List.filter_map, Function.comp_def, Arc.plain, Fin.val_inj]
    rw [harcs, mapM_map_of_forall fun a _ => ids_plain g [a.source], Flowchart.Index.loops,
      List.map_map]
    rfl
  simp only [simpleCycles, hloops, roundTrips_plain, mapM_map_of_forall fun c _ => ids_plain g c,
    Option.bind_eq_bind, Option.bind_some, List.map_map]
  rfl

theorem isCyclic_plain {n : Nat} (numbers : Table n (Option Nat)) (a : Flowchart.Arc n) :
    isCyclic numbers a.plain = some (decide (a.source = a.target) ||
      ((numbers.get a.source).isSome && numbers.get a.source = numbers.get a.target)) := by
  by_cases hloop : a.source = a.target
  · simp only [isCyclic, Arc.plain, hloop, if_true, decide_true, Bool.true_or]
    rfl
  · simp only [isCyclic, Arc.plain, Fin.val_inj, hloop, if_false, decide_false, Bool.false_or,
      Table.read?_val, Option.bind_eq_bind, Option.bind_some]
    rfl

theorem cyclicEdges_plain (g : Graph) (components : List (List (Fin g.index.order))) :
    cyclicEdges g.plainIndex (components.map (List.map Fin.val))
      = some (g.index.cyclicEdges components) := by
  have hkept : g.plainIndex.arcs.filterM (isCyclic (Flowchart.componentNumbers components))
      = _ := filterM_of_forall fun a _ => isCyclic_plain (Flowchart.componentNumbers components) a
  simp only [cyclicEdges, componentNumbers_plain, hkept, Option.bind_eq_bind, Option.bind_some,
    List.map_map]
  rfl

/-- **NO LOOK-UP FAILS** in the search for cycles. -/
theorem cycleReport_eq (g : Graph) : cycleReport g = some g.cycleReport := by
  have hnext : successors g.index.order g.plainIndex.arcs = some g.index.forward.plain :=
    successors_plain g.index.arcs
  simp only [cycleReport, index_eq, hnext, components_plain, cyclicEdges_plain, simpleCycles_plain,
    Option.bind_eq_bind, Option.bind_some]
  rfl

/-! ### Selections -/

/-- A spread over typed nodes comes to its end. -/
theorem ends_spread {n : Nat} (next : Adjacency n) (pending : List (Fin n)) (seen : Table n Bool) :
    Ends (·.pending.isEmpty) (Spread.step next.plain) ⟨pending.map Fin.val, seen⟩
      ⟨[], next.spread pending seen⟩ := by
  -- each round of the spread is one step: nothing left, a new node, a node seen before
  fun_induction Adjacency.spread next pending seen with
  | case1 seen => exact .here rfl
  | case2 seen v rest hunseen ih =>
      have hpending : (next.get v).map Fin.val ++ rest.map Fin.val
          = (next.get v ++ rest).map Fin.val := List.map_append.symm
      refine .later rfl ?_ ih
      simp only [Spread.step, List.map_cons, Table.read?_val, hunseen, Adjacency.get_plain,
        Table.put?_val, Option.bind_eq_bind, Option.bind_some, hpending]
      rfl
  | case3 seen v rest hseen ih =>
      rw [Bool.not_eq_false] at hseen
      refine .later rfl ?_ ih
      simp only [Spread.step, List.map_cons, Table.read?_val, hseen, Option.bind_eq_bind,
        Option.bind_some]
      rfl

theorem reach_plain {n : Nat} (next : Adjacency n) (start : Fin n) :
    reach next.plain start = some (next.reach start) := by
  have hends := ends_spread next [start] (Table.fill n false)
  rw [List.map_singleton] at hends
  rw [reach, loop_eq_some hends]
  rfl

theorem isRelated_val {n : Nat} (below above : Table n Bool) (v : Fin n) :
    isRelated below above v = some (below.get v || above.get v) := by
  rw [isRelated, Table.read?_val, Table.read?_val]
  rfl

/-- **NO LOOK-UP FAILS** in the search for what belongs to a node. -/
theorem related_eq (g : Graph) (node : String) : related g node = some (g.related node) := by
  have hnumber : g.plainIndex.numbers[node]? = (g.index.node? node).map Fin.val :=
    getElem?_plainIndex g node
  have hforward : successors g.index.order g.plainIndex.arcs = some g.index.forward.plain :=
    successors_plain g.index.arcs
  have hbackward : successors g.index.order (g.plainIndex.arcs.map Arc.flip)
      = some g.index.backward.plain := by
    have harcs : g.plainIndex.arcs.map Arc.flip
        = (g.index.arcs.map Flowchart.Arc.flip).map Arc.plain := by
      show (g.index.arcs.map Arc.plain).map Arc.flip = _
      rw [List.map_map, List.map_map]
      rfl
    rw [harcs]
    exact successors_plain (g.index.arcs.map Flowchart.Arc.flip)
  rw [related, Graph.related, index_eq]
  simp only [Option.bind_eq_bind, Option.bind_some, hnumber]
  cases g.index.node? node with
  | none => rfl
  | some start =>
      simp only [Option.map_some, hforward, hbackward, reach_plain, Option.bind_some]
      rw [← List.map_coe_finRange_eq_range, filterM_of_forall fun v _ => isRelated_val _ _ v]
      exact mapM_map_of_forall fun v _ => name_plainIndex g v

theorem highlight_eq (g : Graph) (node : String) : highlight g node = some (g.highlight node) := by
  rw [highlight, related_eq]
  rfl

end Checked

end Flowchart
