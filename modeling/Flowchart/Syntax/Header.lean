import Flowchart.Text.Lines
import Flowchart.Unsupported

/-! # Headers — whether a text is a flowchart, and in which direction

    The first significant line decides.  It must begin with `graph` or
    `flowchart`, in any case, then blanks, then the letters of a direction.
    Lines that announce another kind of diagram are rejected by its name. -/

namespace Flowchart

/-- What follows `lead` in `text`, when `text` begins with `lead` up to the case
    of ASCII letters. -/
def Text.afterIgnoringCase? : List Char → List Char → Option (List Char)
  | [], text => some text
  | _ :: _, [] => none
  | c :: lead, d :: text =>
      if c.toLower = d.toLower then Text.afterIgnoringCase? lead text else none

/-- The kinds of diagram that are rejected by name, a longer keyword before the
    one it begins with. -/
def dialects : List String :=
  ["sequenceDiagram", "gantt", "classDiagram", "stateDiagram-v2", "stateDiagram", "pie",
   "erDiagram", "journey", "gitGraph", "mindmap", "timeline", "quadrantChart"]

/-- The dialect that `line` begins with. -/
def matchDialect? (line : List Char) : Option String :=
  dialects.find? fun keyword => (Text.afterIgnoringCase? keyword.toList line).isSome

structure Header where
  direction : String
  lineIndex : Nat
deriving DecidableEq, Repr

namespace Header

/-- The keywords a flowchart begins with. -/
def keywords : List String := ["graph", "flowchart"]

/-- A letter of a direction: an ASCII letter, or one of the two characters that
    fold to an ASCII letter, the long s and the Kelvin sign. -/
def isDirectionLetter (c : Char) : Bool := c.isAlpha || c == '\u017F' || c == '\u212A'

/-- A direction letter in upper case.  The long s becomes `S`; the Kelvin sign
    is a capital already. -/
def capital (c : Char) : Char := if c = '\u017F' then 'S' else c.toUpper

/-- The direction announced by `line`, in capitals. -/
def readDirection? (line : List Char) : Option (List Char) :=
  match keywords.findSome? fun keyword => Text.afterIgnoringCase? keyword.toList line with
  | none => none
  | some rest =>
      if rest.head?.any Text.isBlank then
        let letters := (Text.trimStart rest).takeWhile isDirectionLetter
        if letters.isEmpty then none else some (letters.map capital)
      else none

/-- The header of a text given as its characters. -/
def classifyChars (text : List Char) : Except Unsupported Header :=
  match Text.firstSignificant? text with
  | none => .error (.header "")
  | some (line, index) =>
      match matchDialect? line with
      | some keyword => .error (.dialect keyword)
      | none =>
          match readDirection? line with
          | none => .error (.header (String.ofList line))
          | some direction => .ok ⟨String.ofList direction, index⟩

end Header

/-- The header of `source`, or why it has none. -/
def classify (source : String) : Except Unsupported Header := Header.classifyChars source.toList

end Flowchart
