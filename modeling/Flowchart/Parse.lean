import Flowchart.Builder
import Flowchart.Syntax.Header

/-! # Parsing — from a source text to its graph

    The header is found first; every line after it is trimmed, read on its own,
    and carried out in order. -/

namespace Flowchart

/-- The builder after the given lines, each of them trimmed first. -/
def Builder.readLines (b : Builder) (lines : List (List Char)) : Builder :=
  lines.foldl (fun b line => (b.readLine (Text.trim line)).1) b

/-- The graph of a text given as its characters. -/
def parseChars (text : List Char) : Except Unsupported Graph :=
  match Header.classifyChars text with
  | .error reason => .error reason
  | .ok header =>
      .ok ((Builder.new header.direction).readLines
        ((Text.lines text).drop (header.lineIndex + 1))).graph

/-- The graph that `source` describes, or why it describes none. -/
def parse (source : String) : Except Unsupported Graph := parseChars source.toList

end Flowchart
