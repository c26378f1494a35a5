import Flowchart.Command.Run

/-! # Stores — a world kept in a value

    Files are kept in some value that reading leaves alone and that a write that
    fails leaves alone too; nothing else is asked of them.  Beside the files the
    world of a run is what is on standard output and what is in the log.  Standard
    output takes every text, and the pages about the command come with the host. -/

namespace Flowchart

/-- Files kept in a value: what a path holds, and the value after a text is
    written to a path, or why that is not possible. -/
structure FileStore (σ : Type) where
  read : σ → String → Except AccessError ByteArray
  write : σ → String → String → Except AccessError σ

/-- What a run can change. -/
structure World (σ : Type) where
  files : σ
  stdout : String := ""
  /-- The events of the log, the first one first. -/
  log : List LogEvent := []

namespace World

variable {σ : Type}

def printing (w : World σ) (text : String) : World σ := { w with stdout := w.stdout ++ text }

def logging (w : World σ) (events : List LogEvent) : World σ := { w with log := w.log ++ events }

def saving (w : World σ) (files : σ) : World σ := { w with files }

end World

/-- The host that keeps its files in a store, has `input` on standard input, and
    shows `pages`. -/
def FileStore.host {σ : Type} (fs : FileStore σ) (input : ByteArray)
    (pages : Options.Page → String) : Host (StateM (World σ)) where
  readFile path := do return (fs.read (← get).files path).bind textOfBytes
  readInput := return textOfBytes input
  writeFile path text := do
    match fs.write (← get).files path text with
    | .ok files => do
        modify (·.saving files)
        return .ok ()
    | .error reason => return .error reason
  print text := do
    modify (·.printing text)
    return .ok ()
  flush := return .ok ()
  showPage page := modify (·.printing (pages page))
  log event := modify (·.logging [event])

end Flowchart
