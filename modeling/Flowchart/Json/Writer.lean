import Flowchart.Json.Basic

/-! # Writing JSON

    One writer serves two layouts.  The compact layout puts nothing between the
    parts of a value; the pretty layout puts every entry on a line of its own,
    indented by two blanks for each level, and a blank after each colon.  Empty
    arrays and objects stay on one line in both.

    In a string only the double quote, the backslash and the characters below
    U+0020 are escaped.  A value that no record holds is written as null. -/

namespace Flowchart.Json

/-- The digits of `n < 16` in lower case. -/
def hexDigit (n : Nat) : Char := Nat.digitChar n

/-- How a character is written inside a string. -/
def escape (c : Char) : List Char :=
  if c = '"' then ['\\', '"']
  else if c = '\\' then ['\\', '\\']
  else if c = '\x08' then ['\\', 'b']
  else if c = '\t' then ['\\', 't']
  else if c = '\n' then ['\\', 'n']
  else if c = '\x0C' then ['\\', 'f']
  else if c = '\r' then ['\\', 'r']
  else if c.toNat < 0x20 then
    ['\\', 'u', '0', '0', hexDigit (c.toNat / 16), hexDigit (c.toNat % 16)]
  else [c]

/-- A string in double quotes. -/
def quote (text : String) : List Char := '"' :: text.toList.flatMap escape ++ ['"']

/-- What stands between the parts of a value. -/
structure Layout where
  /-- Stands before each entry, and before the closing bracket, at the given
      depth. -/
  lineBreak : Nat → List Char
  /-- Stands after each colon. -/
  gap : List Char

namespace Layout

/-- Nothing stands between the parts. -/
def compact : Layout where
  lineBreak _ := []
  gap := []

/-- Each entry stands on its own line. -/
def pretty : Layout where
  lineBreak depth := '\n' :: List.replicate (2 * depth) ' '
  gap := [' ']

end Layout

mutual

/-- A value at the given depth. -/
def write (layout : Layout) (depth : Nat) : Json → List Char
  | null => ['n', 'u', 'l', 'l']
  | bool true => ['t', 'r', 'u', 'e']
  | bool false => ['f', 'a', 'l', 's', 'e']
  | number n => Nat.toDigits 10 n
  | string text => quote text
  | other => ['n', 'u', 'l', 'l']
  | array [] => ['[', ']']
  | array (item :: items) =>
      '[' :: (layout.lineBreak (depth + 1) ++ write layout (depth + 1) item
        ++ writeItems layout (depth + 1) items ++ layout.lineBreak depth ++ [']'])
  | object [] => ['{', '}']
  | object ((key, value) :: members) =>
      '{' :: (layout.lineBreak (depth + 1) ++ quote key ++ ':' :: layout.gap
        ++ write layout (depth + 1) value
        ++ writeMembers layout (depth + 1) members ++ layout.lineBreak depth ++ ['}'])

/-- The items after the first, each after a comma. -/
def writeItems (layout : Layout) (depth : Nat) : List Json → List Char
  | [] => []
  | item :: items =>
      ',' :: (layout.lineBreak depth ++ write layout depth item
        ++ writeItems layout depth items)

/-- The members after the first, each after a comma. -/
def writeMembers (layout : Layout) (depth : Nat) : List (String × Json) → List Char
  | [] => []
  | (key, value) :: members =>
      ',' :: (layout.lineBreak depth ++ quote key ++ ':' :: layout.gap
        ++ write layout depth value ++ writeMembers layout depth members)

end

/-- The value on one line, with nothing between its parts. -/
def compact (value : Json) : String := String.ofList (write .compact 0 value)

/-- The value with each entry on its own line. -/
def pretty (value : Json) : String := String.ofList (write .pretty 0 value)

end Flowchart.Json
