/-!
# JSON values

An object is a list of members. Looking a name up finds its first member; `insertMember` keeps a list
sorted by name with one member a name, which is the form that reading a text yields.
-/

namespace Adf

/-- A JSON number: an integer is kept exactly, every other number as the double it stands for. -/
inductive Number where
  | int (value : Int)
  | float (value : Float)
deriving Inhabited, Repr

inductive Json where
  | null
  | bool (value : Bool)
  | num (value : Number)
  | str (value : String)
  | arr (items : List Json)
  | obj (members : List (String × Json))
deriving Inhabited, Repr

namespace Number

/-- The value as a signed 64-bit integer. A number written with a fraction or an exponent is none. -/
def toInt64? : Number → Option Int
  | .int z => if -0x8000000000000000 ≤ z ∧ z < 0x8000000000000000 then some z else none
  | .float _ => none

/-- The value as an unsigned 64-bit integer. -/
def toUInt64? : Number → Option UInt64
  | .int (.ofNat n) => if n < 0x10000000000000000 then some (UInt64.ofNat n) else none
  | _ => none

/-- The nearest double. -/
def toFloat : Number → Float
  | .int z => Float.ofInt z
  | .float x => x

end Number

namespace Json

/-- The name of a value's type, as messages give it. -/
def typeName : Json → String
  | .null => "null"
  | .bool _ => "boolean"
  | .num _ => "number"
  | .str _ => "string"
  | .arr _ => "array"
  | .obj _ => "object"

/-- The member of that name, if the value is an object that has one. -/
def get? (name : String) : Json → Option Json
  | .obj members => members.lookup name
  | _ => none

def nat (n : Nat) : Json := .num (.int n)

/-- Puts a member into a list sorted by name, in place of one of the same name. -/
def insertMember (name : String) (value : Json) : List (String × Json) → List (String × Json)
  | [] => [(name, value)]
  | (key, old) :: rest =>
    if name < key then (name, value) :: (key, old) :: rest
    else if name = key then (name, value) :: rest
    else (key, old) :: insertMember name value rest

mutual

/-- The same value with the members of every object sorted by name; of equal names the last counts. -/
def sorted : Json → Json
  | .arr items => .arr (sortedItems items)
  | .obj members => .obj (sortedMembers [] members)
  | .null => .null
  | .bool b => .bool b
  | .num n => .num n
  | .str s => .str s

def sortedItems : List Json → List Json
  | [] => []
  | item :: rest => sorted item :: sortedItems rest

def sortedMembers (done : List (String × Json)) : List (String × Json) → List (String × Json)
  | [] => done
  | (name, value) :: rest => sortedMembers (insertMember name (sorted value) done) rest

end

end Json

end Adf
