/- JSON values. Members keep their order. -/
import SchemaScript.Json.Number

namespace SchemaScript

inductive Json
  | null
  | bool (b : Bool)
  | number (n : JsonNumber)
  | string (t : Text)
  | array (items : List Json)
  | object (members : List (Text × Json))
deriving Repr

namespace Json

def ofNat (n : Nat) : Json :=
  .number { negative := false, magnitude := { digits := n, exponent := 0 }, whole := true }

def ofInt (i : Int) : Json :=
  .number { negative := i < 0, magnitude := { digits := i.natAbs, exponent := 0 }, whole := true }

/-- The value of the last member of a given name. -/
def member? (name : Text) (members : List (Text × Json)) : Option Json :=
  (members.reverse.find? fun m => m.1 == name).map (·.2)

/-- How many members have a given name. -/
def occurrences (name : Text) (members : List (Text × Json)) : Nat :=
  members.countP fun m => m.1 == name

end Json
end SchemaScript
