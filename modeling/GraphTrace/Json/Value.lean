import GraphTrace.Double.Basic

/-!
# JSON values

A value of the JSON data model.  The members of an object keep their order and have distinct keys;
a number is an integer of 64 bits, signed or not, or a finite double, and the two are different
numbers even where their values agree (`1` and `1.0`).
-/

namespace GraphTrace

namespace Json

/-- A JSON number. -/
inductive Number where
  | integer (value : Int)
  | double (value : Double)
deriving DecidableEq, Repr

/-- Whether an integer is kept as one: it fits 64 bits, signed or unsigned. -/
def Number.fits (n : Int) : Bool := -0x8000000000000000 ≤ n && n < 0x10000000000000000

end Json

/-- A JSON value. -/
inductive Json where
  | null
  | boolean (value : Bool)
  | number (value : Json.Number)
  | string (value : String)
  | array (items : List Json)
  | object (members : List (String × Json))

namespace Json

/-- The integer `n` as a JSON value. -/
def integer (n : Int) : Json := .number (.integer n)

/-- The members of an object with one set: the value of a known key is replaced where it stands,
a new key comes last. -/
def setMember (key : String) (value : Json) : List (String × Json) → List (String × Json)
  | [] => [(key, value)]
  | member :: rest =>
    if member.1 == key then (key, value) :: rest else member :: setMember key value rest

/-- The value under a key. -/
def member? (members : List (String × Json)) (key : String) : Option Json :=
  (members.find? (·.1 == key)).map (·.2)

end Json

end GraphTrace
