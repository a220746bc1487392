/- Reading records: from the members of an object, or from the items of an array in the order
   of the fields. -/
import SchemaScript.Json.Value

namespace SchemaScript.Json

/-- The fields of a record, by name or by position. -/
inductive Record
  | named (members : List (Text × Json))
  | positional (items : List Json)

namespace Record

/-- The record with given fields in a value. An object gives no field twice; what else it holds is passed
over. An array has no more items than there are fields. -/
def of? (fields : List Text) : Json → Option Record
  | .object members =>
      if fields.all fun name => occurrences name members ≤ 1 then some (.named members) else none
  | .array items => if items.length ≤ fields.length then some (.positional items) else none
  | _ => none

def get? (r : Record) (position : Nat) (name : Text) : Option Json :=
  match r with
  | .named members => member? name members
  | .positional items => items[position]?

/-- A field that has to be there. -/
def required (r : Record) (position : Nat) (name : Text) (read : Json → Option α) : Option α :=
  (r.get? position name).bind read

/-- A field that has a value of its own where it is missing. -/
def defaulted (r : Record) (position : Nat) (name : Text) (read : Json → Option α) (missing : α) :
    Option α :=
  match r.get? position name with
  | none => some missing
  | some v => read v

/-- A field that may be null, and may be missing where fields have names. -/
def nullable (r : Record) (position : Nat) (name : Text) (read : Json → Option α) :
    Option (Option α) :=
  match r.get? position name with
  | some .null => some none
  | some v => (read v).map some
  | none =>
      match r with
      | .named _ => some none
      | .positional _ => none

end Record

def string? : Json → Option Text
  | .string t => some t
  | _ => none

def list? (read : Json → Option α) : Json → Option (List α)
  | .array items => items.mapM read
  | _ => none

end SchemaScript.Json
