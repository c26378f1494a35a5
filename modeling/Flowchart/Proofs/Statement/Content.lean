import Flowchart.Proofs.Chain.Derivation
import Flowchart.Syntax.Statement

/-! # Statement contents — ids, names and labels as reading finds them

    What a line names is made of what the line holds: an id is a run of word
    characters, a label between bars is trimmed and holds no bar, and a name in
    quotes holds no quote.  Since a line holds no line feed, neither does any of
    them (`Statement.sound_read`).  In a chain every node is an end of one of the
    edges (`Chain.exists_edge`), so a label found there belongs to a node
    of the graph. -/

namespace Flowchart

open Text

/-- An id as reading finds it. -/
structure IsId (id : String) : Prop where
  ne_nil : id.toList ≠ []
  word : ∀ c ∈ id.toList, isWord c = true

/-- A label of an edge as reading finds it. -/
structure IsEdgeLabel (label : String) : Prop where
  ne_nil : label.toList ≠ []
  trimmed : Trimmed label.toList
  no_bar : '|' ∉ label.toList
  single : '\n' ∉ label.toList

/-- The name of a subgraph as reading finds it. -/
structure IsName (name : String) : Prop where
  no_quote : '"' ∉ name.toList
  single : '\n' ∉ name.toList

/-- The ids and the label of an edge are as reading finds them. -/
structure Edge.Sound (e : Edge) : Prop where
  source : IsId e.source
  target : IsId e.target
  label : ∀ label ∈ e.label, IsEdgeLabel label

/-! ## Nodes and hops -/

/-- A token names an id. -/
theorem NodeToken.isId_of_read? {text rest : List Char} {token : NodeToken}
    (h : NodeToken.read? text = some (token, rest)) : IsId token.id := by
  obtain ⟨-, -, -, hid, hne, -⟩ := NodeToken.read?_sound h
  refine ⟨hne, ?_⟩
  rw [hid]
  exact forall_mem_takeWhile isWord text

/-- A label between bars is one, unless only blanks stand there. -/
theorem isEdgeLabel_of_shownLabel {body : List Char} (hbar : '|' ∉ body) (hsingle : '\n' ∉ body) :
    ∀ label ∈ shownLabel body, IsEdgeLabel label := by
  intro label hlabel
  rw [shownLabel] at hlabel
  split at hlabel
  · exact absurd hlabel (Option.not_mem_none label)
  · next hne =>
      obtain rfl := Option.some.inj hlabel
      refine ⟨?_, ?_, ?_, ?_⟩ <;> rw [String.toList_ofList]
      · exact hne
      · exact trimmed_trim body
      · exact fun hmem => hbar (mem_of_mem_trim hmem)
      · exact fun hmem => hsingle (mem_of_mem_trim hmem)

namespace Hop.Fits

variable {hop : Hop} {text rest : List Char}

/-- What follows a hop is the end of its text. -/
theorem suffix (h : hop.Fits text rest) : rest <:+ text := by
  cases h with
  | intro hbefore harrow hpart hgap hne htarget =>
      obtain ⟨front, rfl, -⟩ := NodeToken.read?_sound htarget
      simp only [← List.append_assoc]
      exact List.suffix_append _ _

theorem isId_target (h : hop.Fits text rest) : IsId hop.target.id := by
  cases h with
  | intro hbefore harrow hpart hgap hne htarget => exact NodeToken.isId_of_read? htarget

/-- The label of a hop within a line is one. -/
theorem isEdgeLabel (h : hop.Fits text rest) (hsingle : '\n' ∉ text) :
    ∀ label ∈ hop.label, IsEdgeLabel label := by
  cases h with
  | intro hbefore harrow hpart hgap hne htarget =>
      cases hpart with
      | absent =>
          intro label hlabel
          exact absurd hlabel (Option.not_mem_none label)
      | barred hblanks hbody =>
          refine isEdgeLabel_of_shownLabel hbody fun hmem => hsingle ?_
          simp [hmem]

end Hop.Fits

/-- The hops within a line lead to ids, and their labels are labels. -/
theorem HopsFit.sound {text rest : List Char} {hops : List Hop} (h : HopsFit text hops rest)
    (hsingle : '\n' ∉ text) :
    ∀ hop ∈ hops, IsId hop.target.id ∧ ∀ label ∈ hop.label, IsEdgeLabel label := by
  induction h with
  | done text =>
      intro hop hhop
      exact absurd hhop List.not_mem_nil
  | hop hfits _ ih =>
      intro other hother
      rcases List.mem_cons.1 hother with rfl | hlater
      · exact ⟨hfits.isId_target, hfits.isEdgeLabel hsingle⟩
      · exact ih (fun hmem => hsingle (hfits.suffix.subset hmem)) other hlater

/-! ## Chains -/

/-- The ends of the edges of hops are the nodes on the way, and their labels are
    those of the hops. -/
theorem Chain.of_mem_edgesFrom {source : String} {hops : List Hop} {e : Edge}
    (h : e ∈ Chain.edgesFrom source hops) :
    e.source ∈ source :: hops.map (·.target.id) ∧ e.target ∈ source :: hops.map (·.target.id) ∧
      ∃ hop ∈ hops, e.label = hop.label := by
  induction hops generalizing source with
  | nil => exact absurd h List.not_mem_nil
  | cons hop hops ih =>
      rw [Chain.edgesFrom, List.mem_append] at h
      rcases h with hfirst | hlater
      · -- an edge of the first hop joins the source and its target
        have hjoins : e = ⟨source, hop.target.id, hop.label, hop.arrow.style⟩ ∨
            e = ⟨hop.target.id, source, hop.label, hop.arrow.style⟩ := by
          rw [Hop.edges] at hfirst
          split at hfirst
          · simpa using hfirst
          · exact Or.inl (List.mem_singleton.1 hfirst)
        rcases hjoins with rfl | rfl <;> simp
      · obtain ⟨hsource, htarget, other, hother, hlabel⟩ := ih hlater
        exact ⟨List.mem_cons_of_mem _ hsource, List.mem_cons_of_mem _ htarget, other,
          List.mem_cons_of_mem _ hother, hlabel⟩

/-- The first edge of a hop leads along it. -/
theorem Hop.mem_edges (source : String) (hop : Hop) :
    (⟨source, hop.target.id, hop.label, hop.arrow.style⟩ : Edge) ∈ hop.edges source := by
  rw [Hop.edges]
  split <;> exact List.mem_cons_self

/-- Every hop has an edge to its target. -/
theorem Chain.exists_edge_to {source : String} {hops : List Hop} {hop : Hop} (h : hop ∈ hops) :
    ∃ e ∈ Chain.edgesFrom source hops, hop.target.id = e.target := by
  induction hops generalizing source with
  | nil => exact absurd h List.not_mem_nil
  | cons first hops ih =>
      rw [Chain.edgesFrom]
      rcases List.mem_cons.1 h with rfl | hlater
      · exact ⟨_, List.mem_append_left _ (Hop.mem_edges source hop), rfl⟩
      · obtain ⟨e, he, htarget⟩ := ih hlater
        exact ⟨e, List.mem_append_right _ he, htarget⟩

/-- The nodes and the labels of a chain are as reading finds them, and it has a
    hop. -/
structure Chain.Sound (chain : Chain) : Prop where
  hops_ne_nil : chain.hops ≠ []
  first : IsId chain.first.id
  hops : ∀ hop ∈ chain.hops, IsId hop.target.id ∧ ∀ label ∈ hop.label, IsEdgeLabel label

/-- The edges of a chain are as reading finds them. -/
theorem Chain.Sound.edges {chain : Chain} (h : chain.Sound) : ∀ e ∈ chain.edges, e.Sound := by
  have hids : ∀ id ∈ chain.first.id :: chain.hops.map (·.target.id), IsId id := by
    intro id hid
    rcases List.mem_cons.1 hid with rfl | hlater
    · exact h.first
    · obtain ⟨hop, hhop, rfl⟩ := List.mem_map.1 hlater
      exact (h.hops hop hhop).1
  intro e he
  obtain ⟨hsource, htarget, hop, hhop, hlabel⟩ := Chain.of_mem_edgesFrom he
  refine ⟨hids _ hsource, hids _ htarget, ?_⟩
  rw [hlabel]
  exact (h.hops hop hhop).2

/-- **EVERY NODE OF A CHAIN IS AN END** of one of its edges. -/
theorem Chain.exists_edge {chain : Chain} (h : chain.hops ≠ []) :
    ∀ token ∈ chain.tokens, ∃ e ∈ chain.edges, token.id = e.source ∨ token.id = e.target := by
  intro token htoken
  rcases List.mem_cons.1 htoken with rfl | hlater
  · obtain ⟨hop, hops, hhops⟩ := List.exists_cons_of_ne_nil h
    refine ⟨⟨chain.first.id, hop.target.id, hop.label, hop.arrow.style⟩, ?_, Or.inl rfl⟩
    rw [Chain.edges, hhops, Chain.edgesFrom]
    exact List.mem_append_left _ (Hop.mem_edges _ hop)
  · obtain ⟨hop, hhop, rfl⟩ := List.mem_map.1 hlater
    have hedge : ∃ e ∈ chain.edges, hop.target.id = e.target := Chain.exists_edge_to hhop
    obtain ⟨e, he, htarget⟩ := hedge
    exact ⟨e, he, Or.inr htarget⟩

/-- A chain that is read has a hop. -/
theorem Chain.hops_ne_nil_of_read? {line : List Char} {chain : Chain}
    (h : Chain.read? line = some chain) : chain.hops ≠ [] := by
  rw [Chain.read?] at h
  split at h
  · cases h
  · split at h
    · cases h
    · next hop hops _ =>
        obtain rfl := Option.some.inj h
        exact List.cons_ne_nil hop hops

/-- A chain read off a line is as reading finds it. -/
theorem Chain.sound_read? {line : List Char} {chain : Chain} (h : Chain.read? line = some chain)
    (hsingle : '\n' ∉ line) : chain.Sound := by
  cases hfirst : NodeToken.read? line with
  | none =>
      rw [Chain.read?, hfirst] at h
      cases h
  | some found =>
      obtain ⟨first, middle⟩ := found
      obtain ⟨front, rfl, -⟩ := NodeToken.read?_sound hfirst
      have hmiddle : '\n' ∉ middle := fun hmem => hsingle (List.mem_append_right _ hmem)
      rw [Chain.read?_of_first hfirst] at h
      split at h
      · cases h
      · next hne =>
          obtain rfl := Option.some.inj h
          exact ⟨hne, NodeToken.isId_of_read? hfirst, (hopsFit_readAll middle).sound hmiddle⟩

/-! ## Statements -/

namespace Statement

/-- What the statement carries is read off `line`. -/
def ReadFrom (line : List Char) : Statement → Prop
  | openSubgraph name => readOpening? line = some name
  | edges chain => Chain.read? line = some chain
  | declaration token => readDeclaration? line = some token
  | blank | comment | direction | styling | closeSubgraph | other => True

theorem readFrom_read (line : List Char) : (read line).ReadFrom line := by
  rw [read]
  split
  · trivial
  split
  · trivial
  split
  · trivial
  split
  · trivial
  split
  · next name hname => exact hname
  split
  · trivial
  split
  · next chain hchain => exact hchain
  split
  · next token htoken => exact htoken
  · trivial

theorem hops_ne_nil_of_read {line : List Char} {chain : Chain} (h : read line = edges chain) :
    chain.hops ≠ [] := by
  have hread := readFrom_read line
  rw [h] at hread
  exact Chain.hops_ne_nil_of_read? hread

/-- No reserved word is declared. -/
theorem not_reserved_of_readDeclaration? {line : List Char} {token : NodeToken}
    (h : readDeclaration? line = some token) : isReserved token.id = false := by
  rw [readDeclaration?] at h
  split at h
  · next found hread =>
      split at h
      · exact nomatch h
      · next hfree =>
          obtain rfl := Option.some.inj h
          exact Bool.eq_false_iff.2 hfree
  · exact nomatch h

/-- What a statement carries is as reading finds it. -/
def Sound : Statement → Prop
  | openSubgraph name => IsName name
  | edges chain => chain.Sound
  | declaration token => IsId token.id
  | _ => True

/-- A name is one, in quotes or not. -/
theorem isName_of_readName? {text name : List Char} (h : readName? text = some name)
    (hsingle : '\n' ∉ text) : IsName (String.ofList name) := by
  rw [readName?.eq_def] at h
  split at h
  · exact nomatch h
  · next inner =>
      split at h
      · exact nomatch h
      · obtain rfl := Option.some.inj h
        refine ⟨?_, ?_⟩ <;> rw [String.toList_ofList]
        · intro hmem
          exact bne_iff_ne.1 (forall_mem_takeWhile (· != '"') inner _ hmem) rfl
        · intro hmem
          exact hsingle (List.mem_cons_of_mem _ ((List.takeWhile_sublist _).subset hmem))
  · next c rest hquote =>
      split at h
      · obtain rfl := Option.some.inj h
        have hword := forall_mem_takeWhile isWord (c :: rest)
        refine ⟨?_, ?_⟩ <;> rw [String.toList_ofList]
        · intro hmem
          exact absurd (hword _ hmem) (by decide)
        · intro hmem
          exact absurd (hword _ hmem) (by decide)
      · exact nomatch h

/-- What follows a word and blanks is part of the line. -/
theorem subset_of_afterWord? {word : String} {line rest : List Char}
    (h : afterWord? word line = some rest) : rest ⊆ line := by
  rw [afterWord?] at h
  split at h
  · exact nomatch h
  · next tail htail =>
      split at h
      · obtain rfl := Option.some.inj h
        rw [after?_eq_some_iff.1 htail]
        exact fun c hc => List.mem_append_right _ ((List.dropWhile_sublist isBlank).subset hc)
      · exact nomatch h

theorem isName_of_readOpening? {line : List Char} {name : String}
    (h : readOpening? line = some name) (hsingle : '\n' ∉ line) : IsName name := by
  rw [readOpening?] at h
  split at h
  · exact nomatch h
  · next rest hrest =>
      obtain ⟨text, htext, rfl⟩ := Option.map_eq_some_iff.1 h
      exact isName_of_readName? htext fun hmem => hsingle (subset_of_afterWord? hrest hmem)

theorem isId_of_readDeclaration? {line : List Char} {token : NodeToken}
    (h : readDeclaration? line = some token) : IsId token.id := by
  rw [readDeclaration?] at h
  split at h
  · next found hread =>
      split at h
      · exact nomatch h
      · obtain rfl := Option.some.inj h
        exact NodeToken.isId_of_read? hread
  · exact nomatch h

/-- **WHAT A LINE SAYS IS SOUND**: ids, names and labels are as reading finds
    them. -/
theorem sound_read {line : List Char} (hsingle : '\n' ∉ line) : (read line).Sound := by
  have hread := readFrom_read line
  cases h : read line with
  | blank | comment | direction | styling | closeSubgraph | other => trivial
  | openSubgraph name =>
      rw [h] at hread
      exact isName_of_readOpening? hread hsingle
  | edges chain =>
      rw [h] at hread
      exact Chain.sound_read? hread hsingle
  | declaration token =>
      rw [h] at hread
      exact isId_of_readDeclaration? hread

end Statement

end Flowchart
