/-! # Shapes — the outlines a node may be drawn with

    A shape is written as a pair of brackets around a label.  The constructors
    stand in the order in which a reader tries them: a shape whose opening
    bracket begins with another's comes first. -/

namespace Flowchart

inductive Shape where
  | cylinder
  | circle
  | subroutine
  | hexagon
  | parallelogram
  | parallelogramAlt
  | rectangle
  | rounded
  | diamond
  | asymmetric
deriving DecidableEq, Repr

namespace Shape

/-- The shapes in the order in which they are tried. -/
def all : List Shape :=
  [cylinder, circle, subroutine, hexagon, parallelogram, parallelogramAlt, rectangle, rounded,
   diamond, asymmetric]

def name : Shape → String
  | cylinder => "cylinder"
  | circle => "circle"
  | subroutine => "subroutine"
  | hexagon => "hexagon"
  | parallelogram => "parallelogram"
  | parallelogramAlt => "parallelogram_alt"
  | rectangle => "rectangle"
  | rounded => "rounded"
  | diamond => "diamond"
  | asymmetric => "asymmetric"

/-- The shape exported under `text`. -/
def ofName? (text : String) : Option Shape := all.find? fun shape => shape.name == text

theorem ofName?_name (shape : Shape) : ofName? shape.name = some shape := by
  cases shape <;> decide

/-- The bracket before the label. -/
def opening : Shape → List Char
  | cylinder => ['[', '(']
  | circle => ['(', '(']
  | subroutine => ['[', '[']
  | hexagon => ['{', '{']
  | parallelogram => ['[', '/']
  | parallelogramAlt => ['[', '\\']
  | rectangle => ['[']
  | rounded => ['(']
  | diamond => ['{']
  | asymmetric => ['>']

/-- The bracket after the label. -/
def closing : Shape → List Char
  | cylinder => [')', ']']
  | circle => [')', ')']
  | subroutine => [']', ']']
  | hexagon => ['}', '}']
  | parallelogram => ['/', ']']
  | parallelogramAlt => ['\\', ']']
  | rectangle => [']']
  | rounded => [')']
  | diamond => ['}']
  | asymmetric => [']']

/-- The characters that a label without quotes cannot hold. -/
def barred : Shape → List Char
  | cylinder => [')']
  | circle => [')']
  | subroutine => [']']
  | hexagon => ['}']
  | parallelogram => ['/', ']']
  | parallelogramAlt => ['\\', ']']
  | rectangle => [']']
  | rounded => [')']
  | diamond => ['}']
  | asymmetric => [']']

end Shape

end Flowchart
