/-! # Unsupported diagrams — why a text is not read as a flowchart

    Only the header decides: it may announce another kind of diagram, or nothing
    that is known. -/

namespace Flowchart

/-- The reason a source text is rejected. -/
inductive Unsupported where
  /-- The header announces another kind of diagram. -/
  | dialect (keyword : String)
  /-- The header announces nothing known; an empty text stands for no header. -/
  | header (text : String)
deriving DecidableEq, Repr

namespace Unsupported

/-- The text that caused the rejection. -/
def offending : Unsupported → String
  | dialect keyword => keyword
  | header text => text

def message : Unsupported → String
  | dialect keyword =>
      "Unsupported diagram type: " ++ keyword
        ++ ". Only flowchart and graph diagrams are supported."
  | header text =>
      "Unsupported diagram header: \"" ++ text
        ++ "\". Expected \"graph <DIR>\" or \"flowchart <DIR>\"."

end Unsupported

end Flowchart
