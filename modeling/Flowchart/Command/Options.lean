/-! # Command line options

    Arguments are taken from left to right.  An option that needs a value takes
    it from the rest of its own argument or from the next argument; short flags
    may be bundled; after `--` every argument is a path.  Only the flag for
    verbosity may be repeated, and at most one path may be given.  Anything else
    is a misuse.

    Arguments need not give options: an argument that asks for a page about the
    command, its help or its version, ends the scan as soon as it is taken, whatever
    comes after it, as a misuse does.  The wording of the pages, and of what is said
    to a misuse, is not kept here. -/

namespace Flowchart

inductive OutputFormat where
  | json
  | summary
deriving DecidableEq, Repr

def OutputFormat.ofName? (name : String) : Option OutputFormat :=
  if name = "json" then some json else if name = "summary" then some summary else none

structure Options where
  /-- The path to read; standard input where there is none. -/
  input : Option String := none
  /-- The format asked for; JSON where there is none. -/
  format : Option OutputFormat := none
  select : Option String := none
  compact : Bool := false
  noCycles : Bool := false
  /-- The path to write; standard output where there is none. -/
  output : Option String := none
  verbosity : Nat := 0
  quiet : Bool := false
deriving DecidableEq, Repr

namespace Options

/-- What there is to read about the command itself. -/
inductive Page where
  /-- The help in short, for `-h`. -/
  | shortHelp
  | help
  | version
deriving DecidableEq, Repr

/-- Why arguments give no options. -/
inductive Stop where
  /-- They ask for a page. -/
  | page (page : Page)
  /-- They make no sense. -/
  | misuse
deriving DecidableEq, Repr

/-- A result that is missing is a misuse. -/
def orMisuse {α : Type} : Option α → Except Stop α
  | some a => .ok a
  | none => .error .misuse

/-- The options that stand alone. -/
inductive Flag where
  | compact
  | noCycles
  | verbose
  | quiet
deriving DecidableEq, Repr

/-- The options that need a value. -/
inductive Setting where
  | format
  | select
  | output
deriving DecidableEq, Repr

inductive Name where
  | flag (flag : Flag)
  | setting (setting : Setting)
  | page (page : Page)
deriving DecidableEq, Repr

def Name.ofLong? (name : String) : Option Name :=
  [("format", Name.setting .format), ("select", .setting .select), ("output", .setting .output),
   ("compact", .flag .compact), ("no-cycles", .flag .noCycles), ("verbose", .flag .verbose),
   ("quiet", .flag .quiet), ("help", .page .help), ("version", .page .version)].lookup name

def Name.ofShort? (name : Char) : Option Name :=
  [('f', Name.setting .format), ('s', .setting .select), ('o', .setting .output),
   ('v', .flag .verbose), ('q', .flag .quiet), ('h', .page .shortHelp),
   ('V', .page .version)].lookup name

/-- The options with `flag` given once more. -/
def raise? (o : Options) : Flag → Option Options
  | .compact => if o.compact then none else some { o with compact := true }
  | .noCycles => if o.noCycles then none else some { o with noCycles := true }
  | .verbose => some { o with verbosity := o.verbosity + 1 }
  | .quiet => if o.quiet then none else some { o with quiet := true }

def assign? (o : Options) (setting : Setting) (value : String) : Option Options :=
  match setting with
  | .format =>
      if o.format.isSome then none
      else (OutputFormat.ofName? value).map fun format => { o with format := some format }
  | .select => if o.select.isSome then none else some { o with select := some value }
  | .output => if o.output.isSome then none else some { o with output := some value }

def takeInput? (o : Options) (path : String) : Option Options :=
  if o.input.isSome then none else some { o with input := some path }

/-- The state between two arguments. -/
structure Scan where
  options : Options := {}
  /-- The setting whose value is the next argument. -/
  awaiting : Option Setting := none
  /-- Whether `--` was given, so that only paths follow. -/
  pathsOnly : Bool := false
deriving DecidableEq, Repr

namespace Scan

/-- Take an option with the value that stands in its own argument, if one
    does. -/
def takeName (s : Scan) (name : Name) (value : Option String) : Except Stop Scan :=
  match name, value with
  | .flag flag, none => do return { s with options := ← orMisuse (s.options.raise? flag) }
  | .flag _, some _ => .error .misuse
  | .setting setting, some value => do
      return { s with options := ← orMisuse (s.options.assign? setting value) }
  | .setting setting, none => .ok { s with awaiting := some setting }
  | .page page, none => .error (.page page)
  | .page _, some _ => .error .misuse

/-- Take a long option, given without its dashes. -/
def takeLong (s : Scan) (argument : List Char) : Except Stop Scan :=
  match Name.ofLong? (String.ofList (argument.takeWhile (· != '='))) with
  | none => .error .misuse
  | some name =>
      match argument.dropWhile (· != '=') with
      | [] => s.takeName name none
      | _ :: value => s.takeName name (some (String.ofList value))

/-- Take a bundle of short options, given without its dash.  The first that
    needs a value takes the rest of the bundle, an equals sign aside. -/
def takeShort (s : Scan) : List Char → Except Stop Scan
  | [] => .ok s
  | c :: rest =>
      match Name.ofShort? c with
      | none => .error .misuse
      | some (.setting setting) =>
          match rest with
          | [] => s.takeName (.setting setting) none
          | '=' :: value => s.takeName (.setting setting) (some (String.ofList value))
          | value => s.takeName (.setting setting) (some (String.ofList value))
      | some name =>
          match s.takeName name none with
          | .error stop => .error stop
          | .ok s => s.takeShort rest

def takePath (s : Scan) (path : String) : Except Stop Scan := do
  return { s with options := ← orMisuse (s.options.takeInput? path) }

/-- Take an argument as the value of `setting`.  It may be a dash, but not
    begin with one otherwise, not even to ask for a page. -/
def takeValue (s : Scan) (setting : Setting) (argument : String) : Except Stop Scan :=
  if argument.toList.head? = some '-' ∧ argument ≠ "-" then .error .misuse
  else { s with awaiting := none }.takeName (.setting setting) (some argument)

def step (s : Scan) (argument : String) : Except Stop Scan :=
  match s.awaiting with
  | some setting => s.takeValue setting argument
  | none =>
      if s.pathsOnly then s.takePath argument
      else
        match argument.toList with
        | ['-', '-'] => .ok { s with pathsOnly := true }
        | '-' :: '-' :: long => s.takeLong long
        | '-' :: c :: shorts => s.takeShort (c :: shorts)
        | _ => s.takePath argument

end Scan

/-- What `arguments` give: options, or the reason why they give none. -/
def parse (arguments : List String) : Except Stop Options := do
  let s ← arguments.foldlM Scan.step {}
  if s.awaiting.isSome then .error .misuse else .ok s.options

/-- The options that `arguments` give; none when they ask for a page or make no
    sense. -/
def parse? (arguments : List String) : Option Options := (parse arguments).toOption

theorem parse?_eq_some_iff {arguments : List String} {o : Options} :
    parse? arguments = some o ↔ parse arguments = .ok o := by
  rw [parse?]
  cases parse arguments with
  | error stop => exact ⟨nofun, nofun⟩
  | ok given =>
      show some given = some o ↔ Except.ok given = Except.ok o
      rw [Option.some.injEq, Except.ok.injEq]

end Options

end Flowchart
