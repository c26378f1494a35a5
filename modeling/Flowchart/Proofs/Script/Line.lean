import Flowchart.Proofs.Chain.Derivation
import Flowchart.Proofs.Script.Node
import Flowchart.Proofs.Statement.LeadingWord

/-! # Written items — each line says what its item means

    The links of a written chain fit one after the other (`hopsFit_writeLinks`),
    so the chain read there is the one meant.  A written node is led by its id,
    which is free, so no directive is read in its place.  So every written item is
    read back (`Item.read_write`), and carrying it out does what the item means
    (`Item.execute_statement`). -/

namespace Flowchart

namespace Script

open Text

/-! ## Links -/

/-- The hop of a written link. -/
def Link.hop (link : Link) : Hop := ⟨link.arrow, link.label.map (·.text), link.target.token⟩

theorem blanks_space : Blanks [' '] := blanks_singleton (by decide)

/-- A written label gives itself, a missing one nothing. -/
theorem labelPart_write (label : Option Label) :
    LabelPart (label.elim [] Label.write) (label.map (·.text)) := by
  cases label with
  | none => exact LabelPart.absent
  | some label =>
      have hshown : shownLabel label.text.toList = some label.text := by
        rw [shownLabel, label.text_trimmed, if_neg label.text_ne_nil, String.ofList_toList]
      have hpart := LabelPart.barred blanks_nil label.text_plain.1
      rw [hshown] at hpart
      exact hpart

/-- A written link fits, where a blank or the end follows it. -/
theorem Link.fits_write (link : Link) {rest : List Char} (h : Spaced rest) :
    link.hop.Fits (link.write ++ rest) rest := by
  have hfits := Hop.Fits.intro blanks_space link.arrow_mem (labelPart_write link.label)
    blanks_space (List.cons_ne_nil _ _) (link.target.read?_write h)
  simpa [Link.hop, Link.write] using hfits

/-- Links begin with a blank, where there are any. -/
theorem spaced_writeLinks (links : List Link) : Spaced (writeLinks links) := by
  cases links with
  | nil => exact spaced_nil
  | cons link links =>
      intro c hc
      exact blanks_space c (List.mem_singleton.2 (Option.some.inj hc).symm)

/-- **WRITTEN LINKS FIT**, one after the other and up to the end. -/
theorem hopsFit_writeLinks (links : List Link) :
    HopsFit (writeLinks links) (links.map Link.hop) [] := by
  induction links with
  | nil => exact HopsFit.done []
  | cons link links ih =>
      -- what follows a link is the blank of the next one, or the end
      have hfits := link.fits_write (spaced_writeLinks links)
      exact HopsFit.hop hfits ih

/-- All written links are read, and nothing is left. -/
theorem readAll_writeLinks (links : List Link) :
    Hop.readAll (writeLinks links) = (links.map Link.hop, []) := by
  have hend : Hop.readAll [] = ([], []) := Hop.readAll_of_none rfl
  rw [(hopsFit_writeLinks links).readAll_eq, hend, List.append_nil]

/-! ## Items -/

/-- What the line of an item says. -/
def Item.statement : Item → Statement
  | openSubgraph name => .openSubgraph name.text
  | closeSubgraph => .closeSubgraph
  | declare node => .declaration node.token
  | chain first link links => .edges ⟨first.token, (link :: links).map Link.hop⟩

/-- A written node and the links after it are read as a chain, if there is a link. -/
theorem Node.read?_chain (first : Node) (links : List Link) :
    Chain.read? (first.write ++ writeLinks links)
      = if links = [] then none else some ⟨first.token, links.map Link.hop⟩ := by
  rw [Chain.read?_of_first (first.read?_write (spaced_writeLinks links)), readAll_writeLinks]
  cases links with
  | nil => rfl
  | cons link links => simp only [List.map_cons, List.cons_ne_nil, if_false]

/-- A written node is declared by its line. -/
theorem Node.readDeclaration?_write (node : Node) :
    Statement.readDeclaration? node.write = some node.token := by
  have hread := node.read?_write spaced_nil
  rw [List.append_nil] at hread
  have hfree : isReserved node.token.id = false := node.id_free
  simp only [Statement.readDeclaration?, hread, hfree, Bool.false_eq_true, if_false]

/-- A text in quotes is read as a name. -/
theorem readName?_quoted {name : List Char} (h : '"' ∉ name) :
    Statement.readName? ('"' :: (name ++ ['"'])) = some name := by
  rw [Statement.readName?, dropWhile_before h, takeWhile_before h]

/-- The line that opens a subgraph is read back. -/
theorem Name.read_write (name : Name) :
    Statement.read (Item.openSubgraph name).write = .openSubgraph name.text := by
  have hline : (Item.openSubgraph name).write
      = "subgraph".toList ++ ' ' :: '"' :: (name.text.toList ++ ['"']) := rfl
  have hlead : (Item.openSubgraph name).write.takeWhile isWord = "subgraph".toList := by
    rw [hline]
    refine takeWhile_run (Statement.isWord_of_mem_reservedWords "subgraph" (by decide)) ?_
    intro c hc
    rw [← Option.some.inj hc]
    decide
  have hafter : Statement.afterWord? "subgraph" (Item.openSubgraph name).write
      = some ('"' :: (name.text.toList ++ ['"'])) := by
    rw [Statement.afterWord?, after?_eq_some_iff.2 hline]
    rfl
  have hopening : Statement.readOpening? (Item.openSubgraph name).write = some name.text := by
    rw [Statement.readOpening?, hafter]
    simp only [readName?_quoted name.text_plain.1, Option.map_some, String.ofList_toList]
  have hsignificant : isSignificant (Item.openSubgraph name).write = true :=
    Statement.isSignificant_of_word (by rw [hlead]; decide)
  -- led by `subgraph`, the line is none of the directives tried before
  rw [Statement.read_of_significant hsignificant,
    Statement.isDirection_eq_false (by rw [hlead]; decide),
    Statement.isStyling_eq_false (by rw [hlead]; decide), hopening]
  rfl

/-- **EVERY WRITTEN ITEM IS READ BACK**. -/
theorem Item.read_write (item : Item) : Statement.read item.write = item.statement := by
  cases item with
  | openSubgraph name => exact name.read_write
  | closeSubgraph => rfl
  | declare node =>
      -- no link follows the node, so it is no chain
      have hid := (node.takeWhile_write spaced_nil).1
      have hchain := node.read?_chain []
      rw [List.append_nil] at hid
      rw [writeLinks, List.flatMap_nil, List.append_nil, if_pos rfl] at hchain
      show Statement.read node.write = _
      rw [Statement.read_of_free hid node.id_ne_nil node.id_free, hchain,
        node.readDeclaration?_write]
      rfl
  | chain first link links =>
      have hid := (first.takeWhile_write (spaced_writeLinks (link :: links))).1
      show Statement.read (first.write ++ writeLinks (link :: links)) = _
      rw [Statement.read_of_free hid first.id_ne_nil first.id_free, first.read?_chain,
        if_neg (List.cons_ne_nil link links)]
      rfl

/-! ## Carrying items out -/

/-- Pushing the edges of a hop pushes its link. -/
theorem foldl_pushEdge_edges (b : Builder) (source : String) (link : Link) :
    (link.hop.edges source).foldl Builder.pushEdge b = pushLink b source link := by
  rw [pushLink, Hop.edges]
  show (if link.arrow.twoHeaded then _ else _ : List Edge).foldl Builder.pushEdge b = _
  split
  · rfl
  · rfl

/-- Pushing the edges of hops pushes the links, one after the other. -/
theorem foldl_pushEdge_edgesFrom (b : Builder) (source : String) (links : List Link) :
    (Chain.edgesFrom source (links.map Link.hop)).foldl Builder.pushEdge b
      = pushLinks b source links := by
  induction links generalizing b source with
  | nil => rfl
  | cons link links ih =>
      rw [List.map_cons, Chain.edgesFrom, List.foldl_append, foldl_pushEdge_edges, pushLinks]
      exact ih _ _

/-- **A LINE DOES WHAT ITS ITEM MEANS**. -/
theorem Item.execute_statement (b : Builder) (item : Item) :
    (b.execute item.statement).1 = item.build b := by
  cases item with
  | openSubgraph name => rfl
  | closeSubgraph => rfl
  | declare node =>
      have hscope : b.scope.isSome = b.current.isSome := Option.isSome_map
      show (if b.current.isSome then (_, _) else _ : Builder × LineKind).1 = _
      rw [Item.build, hscope]
      split
      · rfl
      · rfl
  | chain first link links =>
      have hnodes : (Chain.tokens ⟨first.token, (link :: links).map Link.hop⟩)
          = (first :: (link :: links).map (·.target)).map Node.token := by
        simp [Chain.tokens, Link.hop]
      show (Chain.edges _).foldl Builder.pushEdge ((Chain.tokens _).foldl Builder.noteLabel b) = _
      rw [hnodes, List.foldl_map]
      exact foldl_pushEdge_edgesFrom _ _ _

end Script

end Flowchart
