import Flowchart.Json.Basic

/-! # Decoding JSON — from values to records

    A record has fields with names, in an order.  It is read from an object by
    those names or from an array in that order.  In an object, members of other
    names are passed over, and a field given twice makes it no record; an array
    may end before the last field, and a field after its end is absent.  A field
    that may be absent may also be null. -/

namespace Flowchart.Json

/-- The member of an object with the given name. -/
def member? (name : String) : Json → Option Json
  | object members => members.lookup name
  | _ => none

def members? : Json → Option (List (String × Json))
  | object members => some members
  | _ => none

def text? : Json → Option String
  | string text => some text
  | _ => none

def bool? : Json → Option Bool
  | bool value => some value
  | _ => none

/-- The first number that is no index: two to the power of 64. -/
def indexBound : Nat := 0x10000000000000000

/-- A natural number below the bound of indices. -/
def index? : Json → Option Nat
  | number n => if n < indexBound then some n else none
  | _ => none

/-- An array, each item decoded by `decode`. -/
def list? {α : Type} (decode : Json → Option α) : Json → Option (List α)
  | array items => items.mapM decode
  | _ => none

/-- One of some names, given as a text or as an object whose only member has
    that name and is null. -/
def choice? {α : Type} (ofName? : String → Option α) : Json → Option α
  | string name => ofName? name
  | object [(name, null)] => ofName? name
  | _ => none

/-- The record with fields of the given names that `value` stands for, as an object
    of the fields that are there. -/
def record? (names : List String) : Json → Option Json
  | object members =>
      let fields := members.filter fun member => names.contains member.1
      if (fields.map (·.1)).Nodup then some (object fields) else none
  | array items => if items.length ≤ names.length then some (object (names.zip items)) else none
  | _ => none

/-- The field of the given name, which must be there. -/
def required? {α : Type} (name : String) (decode : Json → Option α) (record : Json) :
    Option α :=
  match record.member? name with
  | none => none
  | some value => decode value

/-- The field of the given name, which may be absent or null. -/
def optional? {α : Type} (name : String) (decode : Json → Option α) (record : Json) :
    Option (Option α) :=
  match record.member? name with
  | none => some none
  | some null => some none
  | some value => (decode value).map some

/-- The field of the given name, or `fallback` where it is absent. -/
def defaulted? {α : Type} (name : String) (decode : Json → Option α) (fallback : α)
    (record : Json) : Option α :=
  match record.member? name with
  | none => some fallback
  | some value => decode value

/-- The member for a field that is left out when absent. -/
def present {α : Type} (name : String) (encode : α → Json) : Option α → List (String × Json)
  | none => []
  | some value => [(name, encode value)]

def texts (values : List String) : Json := array (values.map string)

def numbers (values : List Nat) : Json := array (values.map number)

end Flowchart.Json
