import Flowchart.Command.Store

/-! # Directories — a world made of one directory

    A directory of text files is enough of a world to run the command in.  Around
    it stand the folders above it, and the root with the folders that a system
    keeps there, among them `/dev` with the null device, which is always empty.
    No other file is there, and what is written there is not seen again.

    Paths are followed component by component.  Empty components and `.` stay
    where they are, and `..` leads one folder up.  The last name may have slashes
    after it; only a folder can be read or written under such a path. -/

namespace Flowchart

/-- The text files of a directory by name. -/
abbrev Directory := Std.ExtTreeMap String String

/-- A place that holds files and folders. -/
inductive Folder where
  | own
  /-- A folder above the directory. -/
  | above
  | root
  | devices
  /-- Another folder of the system. -/
  | system
deriving DecidableEq, Repr

namespace Folder

def parent : Folder → Folder
  | own | above => above
  | root | devices | system => root

/-- The folders in the root, `/dev` aside. -/
def systemNames : List String :=
  ["bin", "etc", "home", "lib", "media", "mnt", "opt", "proc", "root", "run", "sbin", "srv",
   "sys", "tmp", "usr", "var"]

def child? (folder : Folder) (name : List Char) : Option Folder :=
  if folder = root then
    if name = "dev".toList then some devices
    else if systemNames.contains (String.ofList name) then some system
    else none
  else none

end Folder

namespace Directory

/-- Where a path leads. -/
inductive Place where
  | folder
  /-- To a name in a folder, whether a file has it or not. -/
  | entry (folder : Folder) (name : List Char) (slashed : Bool)
deriving DecidableEq, Repr

def maxNameWidth : Nat := 255

def maxPathWidth : Nat := 4095

/-- The components of a path, between its slashes. -/
def components (path : List Char) : List (List Char) :=
  path.foldr
    (fun c parts =>
      if c = '/' then [] :: parts
      else
        match parts with
        | [] => [[c]]
        | part :: parts => (c :: part) :: parts)
    [[]]

/-- A component that stays where it is. -/
def isStay (component : List Char) : Bool := component.isEmpty || component == ['.']

/-- The text of the file with this name in a folder. -/
def file? (d : Directory) (folder : Folder) (name : List Char) : Option String :=
  match folder with
  | .own => d[String.ofList name]?
  | .devices => if name = "null".toList then some "" else none
  | .above | .root | .system => none

/-- Where the components lead from a folder. -/
def follow (d : Directory) (folder : Folder) : List (List Char) → Except AccessError Place
  | [] => .ok .folder
  | part :: parts =>
      if isStay part then d.follow folder parts
      else if part = ['.', '.'] then d.follow folder.parent parts
      else
        match folder.child? part with
        | some child => d.follow child parts
        | none =>
            if parts.all List.isEmpty then .ok (.entry folder part (!parts.isEmpty))
            else if maxNameWidth < Text.width part then .error .nameTooLong
            else if (d.file? folder part).isSome then .error .notADirectory
            else .error .notFound

def locate (d : Directory) (path : String) : Except AccessError Place :=
  if maxPathWidth < Text.width path.toList then .error .nameTooLong
  else
    match path.toList with
    | [] => .error .notFound
    | '/' :: rest => d.follow .root (components rest)
    | chars => d.follow .own (components chars)

def read (d : Directory) (path : String) : Except AccessError String :=
  match d.locate path with
  | .error reason => .error reason
  | .ok .folder => .error .isADirectory
  | .ok (.entry folder name slashed) =>
      if maxNameWidth < Text.width name then .error .nameTooLong
      else
        match d.file? folder name with
        | none => .error .notFound
        | some text => if slashed then .error .notADirectory else .ok text

/-- The directory with `text` in the file of this name in a folder, which shows
    only in the directory itself. -/
def put (d : Directory) (folder : Folder) (name : List Char) (text : String) : Directory :=
  if folder = .own then d.insert (String.ofList name) text else d

/-- The directory with `text` in the file at `path`, which is made if it is not
    there. -/
def write (d : Directory) (path text : String) : Except AccessError Directory :=
  match d.locate path with
  | .error reason => .error reason
  | .ok .folder => .error .isADirectory
  | .ok (.entry folder name slashed) =>
      if slashed then .error .isADirectory
      else if maxNameWidth < Text.width name then .error .nameTooLong
      else .ok (d.put folder name text)

/-- A directory of texts is a store. -/
def store : FileStore Directory where
  read d path := (d.read path).map String.toUTF8
  write := Directory.write

/-- The host that keeps its files in a directory, has `input` on standard input,
    and shows `pages`. -/
def host (input : ByteArray) (pages : Options.Page → String) : Host (StateM (World Directory)) :=
  store.host input pages

end Directory

end Flowchart
