import Flowchart.Builder

/-! # Scripts — diagrams before they are written down

    A script is a direction and a list of items: subgraphs that open and close,
    declared nodes, and chains of nodes joined by links.  `Script.text` writes it,
    one line for each item and every label in quotes, and `Script.graph` is the
    graph it means, built by the operations of a builder.  The parts of a script
    carry what makes them writable: a label in quotes holds no quote, a label
    between bars no bar, and an id is a word that begins no other statement. -/

namespace Flowchart

namespace Script

/-! ## The parts -/

/-- A node, perhaps with a shape and a label. -/
structure Node where
  id : String
  decoration : Option Decoration := none
  id_ne_nil : id.toList ≠ [] := by decide
  id_word : id.toList.all Text.isWord = true := by decide
  id_free : isReserved id = false := by decide
  label_plain : ∀ d ∈ decoration, '"' ∉ d.label.toList ∧ '\n' ∉ d.label.toList := by decide

/-- A label of an edge. -/
structure Label where
  text : String
  text_ne_nil : text.toList ≠ [] := by decide
  text_trimmed : Text.trim text.toList = text.toList := by decide
  text_plain : '|' ∉ text.toList ∧ '\n' ∉ text.toList := by decide

/-- An arrow, perhaps with a label, and the node it leads to. -/
structure Link where
  arrow : Arrow
  label : Option Label := none
  target : Node
  arrow_mem : arrow ∈ Arrow.all := by decide

/-- The name of a subgraph. -/
structure Name where
  text : String
  text_plain : '"' ∉ text.toList ∧ '\n' ∉ text.toList := by decide

inductive Item where
  | openSubgraph (name : Name)
  | closeSubgraph
  | declare (node : Node)
  /-- A node and at least one link. -/
  | chain (first : Node) (link : Link) (links : List Link)

theorem Node.isWord_of_mem (node : Node) : ∀ c ∈ node.id.toList, Text.isWord c = true :=
  List.all_eq_true.1 node.id_word

end Script

structure Script where
  direction : String
  items : List Script.Item
  direction_ne_nil : direction.toList ≠ [] := by decide
  direction_alpha : direction.toList.all Char.isAlpha = true := by decide

namespace Script

theorem isAlpha_of_mem (script : Script) : ∀ c ∈ script.direction.toList, c.isAlpha = true :=
  List.all_eq_true.1 script.direction_alpha

/-! ## Writing -/

/-- A label in quotes, in the brackets of its shape. -/
def writeDecoration (d : Decoration) : List Char :=
  d.shape.opening ++ '"' :: (d.label.toList ++ '"' :: d.shape.closing)

def Node.write (node : Node) : List Char :=
  node.id.toList ++ node.decoration.elim [] writeDecoration

def Label.write (label : Label) : List Char := '|' :: (label.text.toList ++ ['|'])

def Link.write (link : Link) : List Char :=
  ' ' :: (link.arrow.lexeme ++ (link.label.elim [] Label.write ++ ' ' :: link.target.write))

def writeLinks (links : List Link) : List Char := links.flatMap Link.write

def Item.write : Item → List Char
  | openSubgraph name => "subgraph ".toList ++ '"' :: (name.text.toList ++ ['"'])
  | closeSubgraph => "end".toList
  | declare node => node.write
  | chain first link links => first.write ++ writeLinks (link :: links)

def header (script : Script) : List Char := "flowchart ".toList ++ script.direction.toList

/-- The header, and a line for each item. -/
def lines (script : Script) : List (List Char) := script.header :: script.items.map Item.write

def text (script : Script) : String := String.ofList (['\n'].intercalate script.lines)

/-! ## Meaning -/

/-- Set the label of a node that has one. -/
def noteNode (b : Builder) (node : Node) : Builder :=
  match node.decoration with
  | some d => b.setLabel node.id d
  | none => b

/-- Push the edge along a link that starts at `source`, then one back when its
    arrow has two heads. -/
def pushLink (b : Builder) (source : String) (link : Link) : Builder :=
  let label := link.label.map (·.text)
  let forth := b.pushEdge ⟨source, link.target.id, label, link.arrow.style⟩
  if link.arrow.twoHeaded then forth.pushEdge ⟨link.target.id, source, label, link.arrow.style⟩
  else forth

/-- Push the edges of links, each of which starts where the one before it leads. -/
def pushLinks (b : Builder) (source : String) : List Link → Builder
  | [] => b
  | link :: links => pushLinks (pushLink b source link) link.target.id links

/-- What an item does.  A node declared outside the subgraphs does nothing. -/
def Item.build (b : Builder) : Item → Builder
  | openSubgraph name => b.openSubgraph name.text
  | closeSubgraph => b.closeSubgraph
  | declare node => if b.scope.isSome then noteNode (b.addMember node.id) node else b
  | chain first link links =>
      pushLinks ((first :: (link :: links).map (·.target)).foldl noteNode b) first.id
        (link :: links)

/-- The graph that a script means. -/
def graph (script : Script) : Graph :=
  (script.items.foldl Item.build (Builder.new script.direction.toUpper)).graph

end Script

end Flowchart
