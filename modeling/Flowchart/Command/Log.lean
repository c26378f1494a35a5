import Flowchart.Command.Options
import Flowchart.Graph.Cycle
import Flowchart.Parse

/-! # The log — what a run tells of its stages

    Every stage of a run has something to tell when it is done: what was read, what
    the header and each line turned out to be, what came of it.  Each of these
    events has a level, from the most urgent to the most detailed, and the verbosity
    says up to which level events are logged.  Events are kept as they are made; how
    a line of the log looks is left to whoever writes it. -/

namespace Flowchart

/-! ## Levels -/

inductive LogLevel where
  | error
  | warn
  | info
  | debug
  | trace
deriving DecidableEq, Repr

namespace LogLevel

/-- How much detail a level allows. -/
def detail : LogLevel → Nat
  | error => 0
  | warn => 1
  | info => 2
  | debug => 3
  | trace => 4

def name : LogLevel → String
  | error => "ERROR"
  | warn => "WARN"
  | info => "INFO"
  | debug => "DEBUG"
  | trace => "TRACE"

end LogLevel

namespace Options

/-- The last level that is logged. -/
def logLimit (o : Options) : LogLevel :=
  if o.quiet then .error
  else
    match o.verbosity with
    | 0 => .warn
    | 1 => .info
    | 2 => .debug
    | _ => .trace

def logs (o : Options) (level : LogLevel) : Bool := level.detail ≤ o.logLimit.detail

end Options

/-! ## Events -/

/-- What a line turned out to be, as it is logged. -/
def LineKind.name : LineKind → String
  | blank => "Blank"
  | comment => "Comment"
  | direction => "Direction"
  | styling => "Styling"
  | subgraphOpen => "SubgraphOpen"
  | subgraphClose => "SubgraphClose"
  | edges count => "Edges(" ++ Nat.repr count ++ ")"
  | declaration => "NodeDecl"
  | ignored => "Ignored"

/-- What a stage of a run has to tell. -/
inductive LogEvent where
  | inputRead (bytes : Nat)
  | headerMissing
  | dialectRejected (keyword : String)
  | headerRejected (line : String)
  | headerRead (header : Header)
  /-- A line after the header was read; the first line of the text is number one. -/
  | lineRead (number : Nat) (kind : LineKind)
  | flowchartRead (direction : String) (subgraphs edges labels : Nat)
  | diagramParsed (edges subgraphs : Nat)
  | cyclesAnalyzed (components cyclicEdges cycles : Nat)
deriving DecidableEq, Repr

namespace LogEvent

def level : LogEvent → LogLevel
  | lineRead .. => .trace
  | diagramParsed .. => .info
  | _ => .debug

def message : LogEvent → String
  | inputRead _ => "read input"
  | headerMissing => "no significant line found"
  | dialectRejected _ => "rejecting unsupported dialect"
  | headerRejected _ => "rejecting unrecognized header"
  | headerRead _ => "classified flowchart header"
  | lineRead .. => "parsed line"
  | flowchartRead .. => "parsed flowchart"
  | diagramParsed .. => "parsed diagram"
  | cyclesAnalyzed .. => "analyzed cycles"

/-- The figures of an event, by name. -/
def fields : LogEvent → List (String × String)
  | inputRead bytes => [("bytes", Nat.repr bytes)]
  | headerMissing => []
  | dialectRejected keyword => [("keyword", keyword)]
  | headerRejected line => [("header", line)]
  | headerRead header =>
      [("direction", header.direction), ("line_index", Nat.repr header.lineIndex)]
  | lineRead number kind => [("line", Nat.repr number), ("kind", kind.name)]
  | flowchartRead direction subgraphs edges labels =>
      [("direction", direction), ("subgraphs", Nat.repr subgraphs), ("edges", Nat.repr edges),
       ("labels", Nat.repr labels)]
  | diagramParsed edges subgraphs =>
      [("edges", Nat.repr edges), ("subgraphs", Nat.repr subgraphs)]
  | cyclesAnalyzed components cyclicEdges cycles =>
      [("components", Nat.repr components), ("cyclic_edges", Nat.repr cyclicEdges),
       ("cycles", Nat.repr cycles)]

/-- No event is more urgent than information. -/
theorem info_le_detail (e : LogEvent) : LogLevel.info.detail ≤ e.level.detail := by
  unfold level
  split <;> decide

/-- What is told of the header of a text. -/
def ofHeader : Except Unsupported Header → LogEvent
  | .ok header => headerRead header
  | .error (.dialect keyword) => dialectRejected keyword
  | .error (.header line) => if line.isEmpty then headerMissing else headerRejected line

end LogEvent

/-! ## The stages -/

/-- What is told of lines that are read in turn, the first of them with the given
    number. -/
def Builder.lineEvents (b : Builder) (number : Nat) : List (List Char) → List LogEvent
  | [] => []
  | line :: lines =>
      let (next, kind) := b.readLine (Text.trim line)
      .lineRead number kind :: next.lineEvents (number + 1) lines

/-- What is told of a text while it is parsed. -/
def parseEvents (text : List Char) : List LogEvent :=
  let classified := Header.classifyChars text
  .ofHeader classified ::
    match classified with
    | .error _ => []
    | .ok header =>
        let lines := (Text.lines text).drop (header.lineIndex + 1)
        let b := Builder.new header.direction
        let g := (b.readLines lines).graph
        b.lineEvents (header.lineIndex + 2) lines
          ++ [.flowchartRead g.direction g.subgraphs.length g.edges.length g.labels.size]

/-- What is told of a graph once it is parsed, and while it is rendered. -/
def Graph.events (g : Graph) : List LogEvent :=
  let report := g.cycleReport
  [.diagramParsed g.edges.length g.subgraphs.length,
   .cyclesAnalyzed g.components.length report.cyclicEdges.size report.cycles.length]

end Flowchart
