/-! # Arrows — the ways an edge is drawn and written

    An arrow is written as one of twelve lexemes.  The table lists them in the
    order in which a reader tries them, so that of two lexemes that begin alike
    the one meant comes first. -/

namespace Flowchart

/-- How an edge is drawn.  The style never changes the direction of an edge. -/
inductive ArrowStyle where
  | arrow
  | line
  | dotted
  | dottedLine
  | thick
  | thickLine
deriving DecidableEq, Repr, Inhabited

namespace ArrowStyle

def all : List ArrowStyle := [arrow, line, dotted, dottedLine, thick, thickLine]

def name : ArrowStyle → String
  | arrow => "arrow"
  | line => "open"
  | dotted => "dotted"
  | dottedLine => "dotted_open"
  | thick => "thick"
  | thickLine => "thick_open"

/-- The style exported under `text`. -/
def ofName? (text : String) : Option ArrowStyle := all.find? fun style => style.name == text

theorem ofName?_name (style : ArrowStyle) : ofName? style.name = some style := by
  cases style <;> decide

def hasHead : ArrowStyle → Bool
  | arrow | dotted | thick => true
  | line | dottedLine | thickLine => false

end ArrowStyle

/-- A lexeme between two nodes. -/
structure Arrow where
  lexeme : List Char
  style : ArrowStyle
  /-- A two-headed arrow stands for an edge each way. -/
  twoHeaded : Bool
deriving DecidableEq, Repr

namespace Arrow

/-- The twelve arrows in the order in which they are tried. -/
def all : List Arrow :=
  [⟨['<', '-', '.', '-', '>'], .dotted, true⟩,
   ⟨['<', '=', '=', '>'], .thick, true⟩,
   ⟨['<', '-', '-', '>'], .arrow, true⟩,
   ⟨['-', '.', '-', '>'], .dotted, false⟩,
   ⟨['-', '.', '.', '-', '>'], .dotted, false⟩,
   ⟨['=', '=', '>'], .thick, false⟩,
   ⟨['-', '-', '>'], .arrow, false⟩,
   ⟨['=', '=', '='], .thickLine, false⟩,
   ⟨['-', '-', '-'], .line, false⟩,
   ⟨['-', '-'], .line, false⟩,
   ⟨['-', '.', '.', '-'], .dottedLine, false⟩,
   ⟨['-', '.', '-'], .dottedLine, false⟩]

end Arrow

end Flowchart
