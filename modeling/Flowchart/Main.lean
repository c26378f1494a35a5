import Flowchart.Command.Run

/-! # The program

    The command run in the world of the operating system. -/

namespace Flowchart

/-- The reason of an error of the operating system. -/
def AccessError.ofSystem : IO.Error → AccessError
  | .noFileOrDirectory .. => .notFound
  | .inappropriateType _ 20 _ => .notADirectory
  | .inappropriateType _ 21 _ => .isADirectory
  | .invalidArgument _ 36 _ => .nameTooLong
  | .permissionDenied _ 13 _ => .other "Permission denied (os error 13)"
  | error => .other (toString error)

/-- All bytes of a stream, after the bytes `done`. -/
partial def readAll (stream : IO.FS.Stream) (done : ByteArray) : IO ByteArray := do
  let chunk ← stream.read 65536
  if chunk.isEmpty then return done else readAll stream (done ++ chunk)

/-- The text of a page, in few words. -/
def Options.Page.text : Options.Page → String
  | .version => "mermaid-graph dev\n"
  | .shortHelp | .help =>
      "Parse a Mermaid flowchart and report its structure and cycles\n\n"
        ++ "Usage: mermaid-graph [-f json|summary] [-s NODE] [--compact] [--no-cycles]\n"
        ++ "                     [-o FILE] [-v...] [-q] [-h] [-V] [FILE]\n"

/-- An event as a line of the log. -/
def LogEvent.line (e : LogEvent) : String :=
  e.fields.foldl (fun line field => line ++ " " ++ field.1 ++ "=" ++ field.2)
    (e.level.name ++ " " ++ e.message)

/-- Print a text and everything that was printed before. -/
def printThrough (text : String) : IO Unit := do
  let out ← IO.getStdout
  out.putStr text
  out.flush

/-- The host that is the operating system. -/
def systemHost : Host IO where
  readFile path := do
    try return textOfBytes (← IO.FS.readBinFile path)
    catch error => return .error (.ofSystem error)
  readInput := do
    try return textOfBytes (← readAll (← IO.getStdin) .empty)
    catch error => return .error (.ofSystem error)
  writeFile path text := do
    try
      IO.FS.writeFile path text
      return .ok ()
    catch error => return .error (.ofSystem error)
  -- whole lines are out as soon as they are printed
  print text := do
    try
      printThrough text
      return .ok ()
    catch error => return .error (.ofSystem error)
  flush := do
    try
      (← IO.getStdout).flush
      return .ok ()
    catch error => return .error (.ofSystem error)
  showPage page := do
    try printThrough page.text
    catch _ => return ()
  log event := do
    try IO.eprintln event.line
    catch _ => return ()

end Flowchart

/-- Run the command on the arguments of the process. -/
def main (arguments : List String) : IO UInt32 := do
  let outcome ← Flowchart.Command.run Flowchart.systemHost arguments
  match outcome with
  | .printed | .saved | .shown _ => pure ()
  | .failed reason => IO.eprintln reason.message
  | .aborted reason => IO.eprintln ("failed printing to stdout: " ++ reason.message)
  | .misused => IO.eprintln "error: invalid arguments"
  return outcome.exitCode.toUInt32
