import Flowchart.Json.Token

/-! # Reading JSON

    The reader takes one token at a time and remembers the arrays and objects
    that are still open.  What it expects next says which tokens are allowed.

    Any string can be a key, also one that has no text.  An object with such a
    key is whole JSON, but no record holds it. -/

namespace Flowchart.Json

/-- The value of a string by its text, if it has one. -/
def ofString : Option String → Json
  | some text => .string text
  | none => .other

/-- A member as it is read; its key may have no text. -/
abbrev Member := Option String × Json

/-- The object with the given members. -/
def ofMembers (members : List Member) : Json :=
  match members.mapM fun (key, value) => key.map fun key => (key, value) with
  | some members => .object members
  | none => .other

/-- An array or object that is still open, with its finished parts in reverse. -/
inductive Context where
  | array (done : List Json)
  /-- An object whose value for `key` is being read. -/
  | object (done : List Member) (key : Option String)
deriving Repr

inductive Expecting where
  | value
  /-- The first item of an array, or its end. -/
  | firstItem
  /-- The first key of an object, or its end. -/
  | firstKey
  /-- The next key of an object with the members `done` in reverse. -/
  | key (done : List Member)
  | colon (done : List Member) (key : Option String)
  /-- A separator, a closing bracket or the end, after a whole value. -/
  | after (value : Json)
deriving Repr

structure Reader where
  /-- The open arrays and objects, innermost first. -/
  contexts : List Context
  expecting : Expecting
deriving Repr

namespace Reader

/-- Begin a value with the given token. -/
def begin (contexts : List Context) : Token → Option Reader
  | .string text => some ⟨contexts, .after (ofString text)⟩
  | .scalar value => some ⟨contexts, .after value⟩
  | .openArray => some ⟨contexts, .firstItem⟩
  | .openObject => some ⟨contexts, .firstKey⟩
  | _ => none

/-- Go on after a whole value: take the next item or member, or close. -/
def proceed (contexts : List Context) (value : Json) : Token → Option Reader
  | .comma =>
      match contexts with
      | .array done :: outer => some ⟨.array (value :: done) :: outer, .value⟩
      | .object done key :: outer => some ⟨outer, .key ((key, value) :: done)⟩
      | [] => none
  | .closeArray =>
      match contexts with
      | .array done :: outer => some ⟨outer, .after (.array (value :: done).reverse)⟩
      | _ => none
  | .closeObject =>
      match contexts with
      | .object done key :: outer =>
          some ⟨outer, .after (ofMembers ((key, value) :: done).reverse)⟩
      | _ => none
  | _ => none

/-- Take the key of a member, after the members `done` in reverse. -/
def takeKey (contexts : List Context) (done : List Member) : Token → Option Reader
  | .string key => some ⟨contexts, .colon done key⟩
  | _ => none

def step (r : Reader) (token : Token) : Option Reader :=
  match r.expecting with
  | .value => begin r.contexts token
  | .firstItem =>
      match token with
      | .closeArray => some ⟨r.contexts, .after (.array [])⟩
      | token => begin (.array [] :: r.contexts) token
  | .firstKey =>
      match token with
      | .closeObject => some ⟨r.contexts, .after (.object [])⟩
      | token => takeKey r.contexts [] token
  | .key done => takeKey r.contexts done token
  | .colon done key =>
      match token with
      | .colon => some ⟨.object done key :: r.contexts, .value⟩
      | _ => none
  | .after value => proceed r.contexts value token

/-- The whole value read, when nothing is open. -/
def value? : Reader → Option Json
  | ⟨[], .after value⟩ => some value
  | _ => none

end Reader

/-- The value that the characters stand for. -/
def readChars? (text : List Char) : Option Json :=
  match readTokens [] text with
  | none => none
  | some tokens =>
      match tokens.foldlM Reader.step ⟨[], .value⟩ with
      | none => none
      | some reader => reader.value?

/-- The value that `text` stands for. -/
def read? (text : String) : Option Json := readChars? text.toList

end Flowchart.Json
