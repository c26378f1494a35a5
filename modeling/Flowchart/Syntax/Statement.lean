import Flowchart.Syntax.Chain

/-! # Statements — what one line says

    A line is read without regard to the lines before it.  The first kind of
    statement that fits is taken, so a word such as `style` is a directive only
    where a blank follows it, and `end` closes a subgraph only where it stands
    alone. -/

namespace Flowchart

/-- What a line says. -/
inductive Statement where
  | blank
  | comment
  /-- A direction inside the diagram; it has no effect. -/
  | direction
  /-- A styling or interaction directive; it has no effect. -/
  | styling
  | openSubgraph (name : String)
  | closeSubgraph
  | edges (chain : Chain)
  /-- A node token that is the whole line. -/
  | declaration (token : NodeToken)
  | other
deriving DecidableEq, Repr

namespace Statement

/-- The words that begin a styling or interaction directive. -/
def stylingWords : List String := ["style", "classDef", "class", "click", "linkStyle"]

/-- `word`, blanks, and what follows them: the rest of a statement that begins
    with `word`. -/
def afterWord? (word : String) (line : List Char) : Option (List Char) :=
  match Text.after? word.toList line with
  | none => none
  | some rest => if rest.head?.any Text.isBlank then some (Text.trimStart rest) else none

/-- The line is `direction` and a word. -/
def isDirection (line : List Char) : Bool :=
  match afterWord? "direction" line with
  | none => false
  | some rest => rest.head?.any Text.isWord

/-- The line begins with a styling word and a blank. -/
def isStyling (line : List Char) : Bool :=
  stylingWords.any fun word => (afterWord? word line).isSome

/-- The name of a subgraph at the front of `text`: in double quotes, or a run
    of word characters. -/
def readName? (text : List Char) : Option (List Char) :=
  match text with
  | [] => none
  | '"' :: inner =>
      match inner.dropWhile (· != '"') with
      | [] => none
      | _ :: _ => some (inner.takeWhile (· != '"'))
  | c :: rest => if Text.isWord c then some ((c :: rest).takeWhile Text.isWord) else none

/-- The name of the subgraph that the line opens. -/
def readOpening? (line : List Char) : Option String :=
  match afterWord? "subgraph" line with
  | none => none
  | some rest => (readName? rest).map String.ofList

/-- The node that the line declares. -/
def readDeclaration? (line : List Char) : Option NodeToken :=
  match NodeToken.read? line with
  | some (token, []) => if isReserved token.id then none else some token
  | _ => none

/-- What `line` says. -/
def read (line : List Char) : Statement :=
  if line.isEmpty then .blank
  else if Text.startsWith ['%', '%'] line then .comment
  else if isDirection line then .direction
  else if isStyling line then .styling
  else
    match readOpening? line with
    | some name => .openSubgraph name
    | none =>
        if line = "end".toList then .closeSubgraph
        else
          match Chain.read? line with
          | some chain => .edges chain
          | none =>
              match readDeclaration? line with
              | some token => .declaration token
              | none => .other

end Statement

end Flowchart
