import Flowchart.Syntax.Statement

/-! # Builders — a graph while its statements are read

    Subgraphs do not nest: opening one closes the one that is open.  A builder
    keeps the closed subgraphs apart from the open one, so the open subgraph is
    always the last one of the graph. -/

namespace Flowchart

/-- A graph under construction. -/
structure Builder where
  direction : String
  /-- The subgraphs that can no longer change. -/
  closed : List Subgraph := []
  /-- The subgraph that takes members, none at top level. -/
  current : Option Subgraph := none
  edges : List Edge := []
  labels : Std.ExtTreeMap String String := ∅
  shapes : Std.ExtTreeMap String Shape := ∅
deriving DecidableEq

/-- What a line turned out to be, for the builder that read it. -/
inductive LineKind where
  | blank
  | comment
  | direction
  | styling
  | subgraphOpen
  | subgraphClose
  | edges (count : Nat)
  | declaration
  | ignored
deriving DecidableEq, Repr

namespace Builder

def new (direction : String) : Builder := { direction }

/-- The subgraphs so far, the open one last. -/
def subgraphs (b : Builder) : List Subgraph := b.closed ++ b.current.toList

/-- The index of the open subgraph, none at top level. -/
def scope (b : Builder) : Option Nat := b.current.map fun _ => b.closed.length

def graph (b : Builder) : Graph :=
  { direction := b.direction, subgraphs := b.subgraphs, edges := b.edges,
    labels := b.labels, shapes := b.shapes }

/-- Close the open subgraph and go back to top level. -/
def closeSubgraph (b : Builder) : Builder :=
  { b with closed := b.subgraphs, current := none }

/-- Open a new subgraph, closing the one that is open. -/
def openSubgraph (b : Builder) (name : String) : Builder :=
  { b with closed := b.subgraphs, current := some { name } }

/-- Make `id` a member of the open subgraph; nothing happens at top level. -/
def addMember (b : Builder) (id : String) : Builder :=
  { b with current := b.current.map (·.add id) }

/-- Give `id` a label and a shape; the last declaration stands. -/
def setLabel (b : Builder) (id : String) (d : Decoration) : Builder :=
  { b with labels := b.labels.insert id d.label, shapes := b.shapes.insert id d.shape }

/-- Append an edge, and make its ends members of the open subgraph. -/
def pushEdge (b : Builder) (e : Edge) : Builder :=
  let b := (b.addMember e.source).addMember e.target
  { b with edges := b.edges ++ [e] }

/-- Set the label that a token carries, if it carries one. -/
def noteLabel (b : Builder) (token : NodeToken) : Builder :=
  match token.decoration with
  | some d => b.setLabel token.id d
  | none => b

def execute (b : Builder) : Statement → Builder × LineKind
  | .blank => (b, .blank)
  | .comment => (b, .comment)
  | .direction => (b, .direction)
  | .styling => (b, .styling)
  | .openSubgraph name => (b.openSubgraph name, .subgraphOpen)
  | .closeSubgraph => (b.closeSubgraph, .subgraphClose)
  | .edges chain =>
      (chain.edges.foldl pushEdge (chain.tokens.foldl noteLabel b), .edges chain.edges.length)
  | .declaration token =>
      if b.current.isSome then ((b.addMember token.id).noteLabel token, .declaration)
      else (b, .ignored)
  | .other => (b, .ignored)

/-- Read a line and carry out what it says. -/
def readLine (b : Builder) (line : List Char) : Builder × LineKind :=
  b.execute (Statement.read line)

end Builder

end Flowchart
