/-! # Rotations — one form for every way to write a cycle

    A cycle can be written starting from any of its nodes.  Its canonical form
    starts from the least one; the direction is never reversed. -/

namespace Flowchart

/-- The least of `first` and the ids after it. -/
def least (first : String) (others : List String) : String :=
  others.foldl (fun best id => if id < best then id else best) first

/-- The rotation of `cycle` that starts where its least id first stands. -/
def canonicalRotation : List String → List String
  | [] => []
  | first :: others =>
      let head := least first others
      (first :: others).dropWhile (· != head) ++ (first :: others).takeWhile (· != head)

end Flowchart
