import Mathlib.Data.List.Infix
import Mathlib.Logic.ExistsUnique
import Flowchart.Proofs.Chain.Grammar

/-! # Derivations — a chain is the longest one its line allows

    A derivation takes a node token off the front of a line and then hops, as
    many as it likes, each wherever one fits.  It may stop early, but it cannot
    go another way: at every place at most one hop fits, the one that is read
    there.  So every derivation is a beginning of the chain that reading gives
    (`HopsFit.readAll_eq`), and the longest one is that chain
    (`chain_longest_derivation`). -/

namespace Flowchart

/-! ## What a chain is -/

/-- The hops stand one after the other at the front of the first text, and the
    second text follows them. -/
inductive HopsFit : List Char → List Hop → List Char → Prop where
  | done (text : List Char) : HopsFit text [] text
  | hop {text middle rest : List Char} {hop : Hop} {hops : List Hop}
      (hfits : hop.Fits text middle) (hhops : HopsFit middle hops rest) :
      HopsFit text (hop :: hops) rest

/-- A node token and hops, and the text after them. -/
structure Derivation where
  first : NodeToken
  hops : List Hop
  rest : List Char

namespace Derivation

/-- The derivation is one of a front of `line`. -/
def Of (d : Derivation) (line : List Char) : Prop :=
  ∃ middle, NodeToken.read? line = some (d.first, middle) ∧ HopsFit middle d.hops d.rest

/-- No derivation of a front of `line` takes more of it. -/
structure Longest (d : Derivation) (line : List Char) : Prop where
  of_line : d.Of line
  most : ∀ other : Derivation, other.Of line → d.rest.length ≤ other.rest.length

/-- The nodes in the order of the line. -/
def tokens (d : Derivation) : List NodeToken := d.first :: d.hops.map (·.target)

/-- The edges of a hop between two nodes: one along it, and one back for an arrow
    with two heads. -/
def joins (source target : NodeToken) (hop : Hop) : List Edge :=
  let forth : Edge := ⟨source.id, target.id, hop.label, hop.arrow.style⟩
  let back : Edge := ⟨target.id, source.id, hop.label, hop.arrow.style⟩
  if hop.arrow.twoHeaded then [forth, back] else [forth]

/-- The edges between each node and the next one, hop by hop. -/
def edges (d : Derivation) : List Edge :=
  ((d.tokens.zip d.tokens.tail).zip d.hops).flatMap fun link => joins link.1.1 link.1.2 link.2

end Derivation

namespace Chain

/-- The edges read off `line`, none where there is no chain. -/
def edgesOf (line : List Char) : List Edge := (read? line).elim [] edges

/-- The node tokens read off `line`, none where there is no chain. -/
def tokensOf (line : List Char) : List NodeToken := (read? line).elim [] tokens

end Chain

/-! ## Every derivation begins what is read -/

namespace HopsFit

variable {text rest : List Char} {hops : List Hop}

/-- Reading goes through hops that fit, and on from there. -/
theorem readAll_eq (h : HopsFit text hops rest) :
    Hop.readAll text = (hops ++ (Hop.readAll rest).1, (Hop.readAll rest).2) := by
  induction h with
  | done text => rfl
  | hop hfits _ ih => rw [Hop.readAll_of_some (Hop.read?_eq_some_iff.2 hfits), ih, List.cons_append]

/-- Hops take some of the text, unless there are none. -/
theorem eq_nil_or_shorter (h : HopsFit text hops rest) :
    hops = [] ∧ rest = text ∨ rest.length < text.length := by
  induction h with
  | done text => exact Or.inl ⟨rfl, rfl⟩
  | hop hfits _ ih =>
      have hshorter := Hop.read?_shorter (Hop.read?_eq_some_iff.2 hfits)
      rcases ih with ⟨-, rfl⟩ | hless
      · exact Or.inr hshorter
      · exact Or.inr (Nat.lt_trans hless hshorter)

theorem rest_length_le (h : HopsFit text hops rest) : rest.length ≤ text.length := by
  rcases h.eq_nil_or_shorter with ⟨-, rfl⟩ | hless
  · exact Nat.le_refl _
  · exact Nat.le_of_lt hless

end HopsFit

/-- The hops that are read fit. -/
theorem hopsFit_readAll (text : List Char) :
    HopsFit text (Hop.readAll text).1 (Hop.readAll text).2 := by
  fun_induction Hop.readAll text with
  | case1 text hread => exact HopsFit.done text
  | case2 text hop rest hread hops final hall ih =>
      rw [hall] at ih
      exact HopsFit.hop (Hop.read?_eq_some_iff.1 hread) ih

/-- Where reading stops no hop fits. -/
theorem not_fits_readAll (text : List Char) (hop : Hop) (rest : List Char) :
    ¬ hop.Fits (Hop.readAll text).2 rest := by
  intro hfits
  have hagain := (hopsFit_readAll text).readAll_eq
  have hread := Hop.readAll_of_some (Hop.read?_eq_some_iff.2 hfits)
  have hshorter := Hop.read?_shorter (Hop.read?_eq_some_iff.2 hfits)
  have hle := (hopsFit_readAll rest).rest_length_le
  have hfinal := congrArg (fun answer => answer.2.length) hagain
  simp only [hread] at hfinal
  omega

/-! ## The longest derivation -/

/-- The derivation that reading gives, after the first node. -/
def readDerivation (first : NodeToken) (middle : List Char) : Derivation :=
  ⟨first, (Hop.readAll middle).1, (Hop.readAll middle).2⟩

variable {line middle : List Char} {first : NodeToken} {d : Derivation}

/-- Derivations of a line all begin with the node token read there. -/
theorem Derivation.of_iff (hfirst : NodeToken.read? line = some (first, middle)) :
    d.Of line ↔ d.first = first ∧ HopsFit middle d.hops d.rest := by
  constructor
  · rintro ⟨middle', hread, hhops⟩
    obtain ⟨rfl, rfl⟩ := Prod.mk.inj (Option.some.inj (hfirst.symm.trans hread))
    exact ⟨rfl, hhops⟩
  · rintro ⟨rfl, hhops⟩
    exact ⟨middle, hfirst, hhops⟩

/-- **THE LONGEST DERIVATION IS THE ONE READ**. -/
theorem Derivation.longest_iff (hfirst : NodeToken.read? line = some (first, middle)) :
    d.Longest line ↔ d = readDerivation first middle := by
  have hread : (readDerivation first middle).Of line :=
    (Derivation.of_iff hfirst).2 ⟨rfl, hopsFit_readAll middle⟩
  constructor
  · intro h
    obtain ⟨hsame, hhops⟩ := (Derivation.of_iff hfirst).1 h.of_line
    have hall := hhops.readAll_eq
    have hmost := h.most _ hread
    rw [readDerivation, hall] at hmost
    -- nothing is left to read after the longest derivation
    rcases (hopsFit_readAll d.rest).eq_nil_or_shorter with ⟨hnil, hrest⟩ | hless
    · rw [readDerivation, hall, hnil, hrest, List.append_nil, ← hsame]
    · exact absurd hmost (Nat.not_le.2 hless)
  · rintro rfl
    refine ⟨hread, ?_⟩
    intro other hother
    have hall := ((Derivation.of_iff hfirst).1 hother).2.readAll_eq
    rw [readDerivation, hall]
    exact (hopsFit_readAll other.rest).rest_length_le

/-- A chain is read exactly when the longest derivation has a hop. -/
theorem Chain.read?_of_first (hfirst : NodeToken.read? line = some (first, middle)) :
    Chain.read? line
      = if (Hop.readAll middle).1 = [] then none else some ⟨first, (Hop.readAll middle).1⟩ := by
  rw [Chain.read?, hfirst]
  cases hhops : (Hop.readAll middle).1 with
  | nil => simp only [hhops, if_true]
  | cons hop hops => simp only [hhops, List.cons_ne_nil, if_false]

/-- The edges of hops are those between each node and the next one. -/
theorem Chain.edgesFrom_eq (first : NodeToken) (hops : List Hop) :
    Chain.edgesFrom first.id hops
      = (((first :: hops.map (·.target)).zip (hops.map (·.target))).zip hops).flatMap
          fun link => Derivation.joins link.1.1 link.1.2 link.2 := by
  induction hops generalizing first with
  | nil => rfl
  | cons hop hops ih =>
      rw [Chain.edgesFrom, ih, List.map_cons, List.zip_cons_cons, List.zip_cons_cons,
        List.flatMap_cons]
      rfl

/-- **A CHAIN IS THE LONGEST DERIVATION** of its line.  A hop is read exactly where
    some arrow and some label complete one.  A line without a derivation gives
    nothing.  Any other has one that is longer than all others; these are
    beginnings of it, and no hop fits after it.  The tokens are its nodes, none
    when it has no hop, and the edges are those between each node and the next. -/
theorem chain_longest_derivation (line : List Char) :
    (∀ text (hop : Hop) rest, Hop.read? text = some (hop, rest) ↔ hop.Fits text rest) ∧
      ((∀ d : Derivation, ¬ d.Of line) ∧ Chain.tokensOf line = [] ∧ Chain.edgesOf line = [] ∨
        ∃ longest : Derivation, (∀ d : Derivation, d.Longest line ↔ d = longest) ∧
          (∀ d : Derivation, d.Of line → d.first = longest.first ∧ d.hops <+: longest.hops) ∧
          (∀ (hop : Hop) rest, ¬ hop.Fits longest.rest rest) ∧
          Chain.tokensOf line = (if longest.hops = [] then [] else longest.tokens) ∧
          Chain.edgesOf line = longest.edges) := by
  refine ⟨fun text hop rest => Hop.read?_eq_some_iff, ?_⟩
  cases hfirst : NodeToken.read? line with
  | none =>
      refine Or.inl ⟨?_, ?_⟩
      · rintro d ⟨middle, hread, -⟩
        rw [hfirst] at hread
        exact nomatch hread
      · rw [Chain.tokensOf, Chain.edgesOf, Chain.read?, hfirst]
        exact ⟨rfl, rfl⟩
  | some found =>
      obtain ⟨first, middle⟩ := found
      have hchain := Chain.read?_of_first hfirst
      refine Or.inr ⟨readDerivation first middle, fun d => Derivation.longest_iff hfirst, ?_,
        not_fits_readAll middle, ?_, ?_⟩
      · intro d hd
        obtain ⟨hsame, hhops⟩ := (Derivation.of_iff hfirst).1 hd
        refine ⟨hsame, (Hop.readAll d.rest).1, ?_⟩
        rw [readDerivation, hhops.readAll_eq]
      · rw [Chain.tokensOf, hchain, readDerivation]
        split
        · rfl
        · rfl
      · rw [Chain.edgesOf, hchain, Derivation.edges, Derivation.tokens, List.tail_cons,
          readDerivation, ← Chain.edgesFrom_eq]
        split
        · next hnil =>
            rw [hnil]
            rfl
        · rfl

/-- A derivation that stops after one of two hops begins the longest one. -/
theorem chain_longest_derivation_early_stop :
    (⟨⟨"A", none, 1⟩, [⟨⟨['-', '-', '>'], .arrow, false⟩, some "go", ⟨"B", none, 1⟩⟩],
        " <==> C;".toList⟩ : Derivation).Of "A --> | go | B <==> C;".toList ∧
      ∃ longest : Derivation, longest.Longest "A --> | go | B <==> C;".toList ∧
        [⟨⟨['-', '-', '>'], .arrow, false⟩, some "go", ⟨"B", none, 1⟩⟩] <+: longest.hops ∧
        longest.edges = [⟨"A", "B", some "go", .arrow⟩, ⟨"B", "C", none, .thick⟩,
          ⟨"C", "B", none, .thick⟩] := by
  have hof : (⟨⟨"A", none, 1⟩, [⟨⟨['-', '-', '>'], .arrow, false⟩, some "go", ⟨"B", none, 1⟩⟩],
      " <==> C;".toList⟩ : Derivation).Of "A --> | go | B <==> C;".toList :=
    ⟨" --> | go | B <==> C;".toList, by decide +kernel,
      HopsFit.hop (Hop.read?_eq_some_iff.1 (by decide +kernel)) (HopsFit.done _)⟩
  refine ⟨hof, ?_⟩
  rcases (chain_longest_derivation "A --> | go | B <==> C;".toList).2 with
    ⟨hnone, -⟩ | ⟨longest, hunique, hbegins, -, -, hedges⟩
  · exact absurd hof (hnone _)
  · exact ⟨longest, (hunique longest).2 rfl, (hbegins _ hof).2, hedges ▸ by decide +kernel⟩

end Flowchart
