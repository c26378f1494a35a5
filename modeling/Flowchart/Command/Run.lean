import Flowchart.Command.Log
import Flowchart.Export.ElementsRecord
import Flowchart.Export.Summary

/-! # Running the command

    The input is read whole, parsed and rendered before anything is written, so
    a run that fails leaves no trace but its log.  All contact with the world goes
    through a host: reading and writing files, standard input and output, the pages
    about the command, and the log.  What a run says on standard error beside its
    log, the message of a failure and what is said to a misuse, is read off its
    outcome. -/

namespace Flowchart

/-- Why the host could not read or write. -/
inductive AccessError where
  | notFound
  | notADirectory
  | isADirectory
  | nameTooLong
  /-- The bytes read are not UTF-8. -/
  | notText
  /-- Another reason, in the words of the host. -/
  | other (reason : String)
deriving DecidableEq, Repr

def AccessError.message : AccessError → String
  | notFound => "No such file or directory (os error 2)"
  | notADirectory => "Not a directory (os error 20)"
  | isADirectory => "Is a directory (os error 21)"
  | nameTooLong => "File name too long (os error 36)"
  | notText => "stream did not contain valid UTF-8"
  | other reason => reason

/-- The text with these bytes in UTF-8. -/
def textOfBytes (bytes : ByteArray) : Except AccessError String :=
  match String.fromUTF8? bytes with
  | some text => .ok text
  | none => .error .notText

/-- What the program asks of the world. -/
structure Host (m : Type → Type) where
  readFile : String → m (Except AccessError String)
  readInput : m (Except AccessError String)
  writeFile : String → String → m (Except AccessError Unit)
  /-- Print a text on standard output. -/
  print : String → m (Except AccessError Unit)
  /-- See to it that what was printed is out. -/
  flush : m (Except AccessError Unit)
  /-- Print a page on standard output, if that can be done. -/
  showPage : Options.Page → m Unit
  log : LogEvent → m Unit

/-- Why a run failed. -/
inductive Failure where
  | cannotRead (path : String) (reason : AccessError)
  | cannotReadInput (reason : AccessError)
  | unsupported (reason : Unsupported)
  | cannotWrite (path : String) (reason : AccessError)
  | cannotFlush (reason : AccessError)
deriving DecidableEq, Repr

def Failure.message : Failure → String
  | cannotRead path reason => "error: cannot read '" ++ path ++ "': " ++ reason.message
  | cannotReadInput reason => "error: cannot read stdin: " ++ reason.message
  | unsupported reason => "error: " ++ reason.message
  | cannotWrite path reason => "error: cannot write '" ++ path ++ "': " ++ reason.message
  | cannotFlush reason => "error: cannot flush stdout: " ++ reason.message

inductive Outcome where
  /-- The text is on standard output. -/
  | printed
  /-- The text is in the file that was named. -/
  | saved
  | failed (reason : Failure)
  /-- Standard output takes no text: the program gives up where it stands. -/
  | aborted (reason : AccessError)
  /-- The page that the arguments ask for was shown; nothing else was done. -/
  | shown (page : Options.Page)
  /-- The arguments make no sense; nothing was done. -/
  | misused
deriving DecidableEq, Repr

def Outcome.exitCode : Outcome → Nat
  | printed | saved | shown _ => 0
  | failed _ => 1
  | misused => 2
  | aborted _ => 101

namespace Options

def exportConfig (o : Options) : ExportConfig :=
  { includeCycles := !o.noCycles, pretty := !o.compact }

/-- The rendering of a graph that the options ask for. -/
def render (o : Options) (g : Graph) : String :=
  match o.format.getD .json with
  | .json => g.renderElements o.exportConfig o.select
  | .summary => g.summary o.select

end Options

/-- The text with a line feed at its end, added where it has none. -/
def endLine (text : String) : String :=
  if text.toList.getLast? = some '\n' then text else text ++ "\n"

namespace Command

variable {m : Type → Type} [Monad m]

/-- Log those of the events that the options let through.  They are made only where
    some can be. -/
def report (host : Host m) (o : Options) (events : Thunk (List LogEvent)) : m Unit :=
  if o.logs .info then forM (events.get.filter fun e => o.logs e.level) host.log else pure ()

/-- The source text: the file that is named, or standard input. -/
def readSource (host : Host m) (o : Options) : m (Except Failure String) :=
  match o.input with
  | some path => do return (← host.readFile path).mapError (.cannotRead path)
  | none => do return (← host.readInput).mapError .cannotReadInput

/-- Print the rendered text, and have it out. -/
def printOut (host : Host m) (text : String) : m Outcome := do
  match ← host.print text with
  | .error reason => return .aborted reason
  | .ok _ =>
      match ← host.flush with
      | .error reason => return .failed (.cannotFlush reason)
      | .ok _ => return .printed

/-- Hand over the rendered text: to the file that is named, or to standard
    output. -/
def deliver (host : Host m) (o : Options) (text : String) : m Outcome :=
  match o.output with
  | none => printOut host text
  | some path => do
      match ← host.writeFile path text with
      | .ok _ => return .saved
      | .error reason => return .failed (.cannotWrite path reason)

/-- Read, parse, render, and hand over, with a word on each stage for the log. -/
def runWith (host : Host m) (o : Options) : m Outcome := do
  match ← readSource host o with
  | .error reason => return .failed reason
  | .ok source =>
      report host o (.inputRead source.utf8ByteSize :: parseEvents source.toList)
      match Flowchart.parse source with
      | .error reason => return .failed (.unsupported reason)
      | .ok g =>
          report host o g.events
          deliver host o (endLine (o.render g))

/-- Run the command with the given arguments. -/
def run (host : Host m) (arguments : List String) : m Outcome :=
  match Options.parse arguments with
  | .error .misuse => return .misused
  | .error (.page page) => do
      host.showPage page
      return .shown page
  | .ok o => runWith host o

end Command

end Flowchart
