/-! # JSON values

    A value with the members of objects in order.  It is made for records, and
    some JSON stands for nothing that a record holds: a number that is not
    natural, a string in which a surrogate stands alone and which so has no text,
    and an object with such a string as a key.  Of these nothing is kept. -/

namespace Flowchart

inductive Json where
  | null
  | bool (value : Bool)
  | number (value : Nat)
  | string (text : String)
  | array (items : List Json)
  | object (members : List (String × Json))
  /-- A value that no record holds. -/
  | other
deriving Repr

end Flowchart
