/- Values of documents: scalars, sequences, mappings in order, and values with a tag. -/
import SchemaScript.Decimal.Double
import SchemaScript.Text.Blank

namespace SchemaScript

inductive Value
  | null
  | bool (b : Bool)
  | integer (i : Int)
  | float (x : Double)
  | string (t : Text)
  | sequence (items : List Value)
  | mapping (entries : List (Value × Value))
  | tagged (tag : Text) (value : Value)
deriving Repr

namespace Value

/-- The value under all tags around it. -/
def untagged : Value → Value
  | .tagged _ v => untagged v
  | v => v

/-- The entries of a mapping, with or without tags around it. -/
def entries? (v : Value) : Option (List (Value × Value)) :=
  match v.untagged with
  | .mapping entries => some entries
  | _ => none

/-- A string, with or without tags around it. -/
def string? (v : Value) : Option Text :=
  match v.untagged with
  | .string t => some t
  | _ => none

/-- An integer, with or without tags around it. -/
def integer? (v : Value) : Option Int :=
  match v.untagged with
  | .integer i => some i
  | _ => none

/-- Whether a value is a given string, without a tag. -/
def isString (name : Text) : Value → Bool
  | .string t => t == name
  | _ => false

/-- The value of the entry whose key is a given string. -/
def field? (name : Text) (entries : List (Value × Value)) : Option Value :=
  (entries.find? fun entry => entry.1.isString name).map (·.2)

/-- The text of a scalar: a string as it is, a truth value by its word, an integer in decimal, a
float by its shortest digits. Tags are looked through; a blank text, null, a sequence and a mapping
have none. -/
def text? : Value → Option Text
  | .string t => if Text.isBlank t then none else some t
  | .bool b => some (if b then "true" else "false")
  | .integer i => some (Text.ofInt i)
  | .float x => some x.text
  | .tagged _ v => text? v
  | .null | .sequence _ | .mapping _ => none

/-- The name of a tag without an exclamation mark in front; the mark alone is its own name. -/
def tagName : Text → Text
  | '!' :: c :: rest => c :: rest
  | tag => tag

mutual

/-- Equality of values: numbers by value and kind, mappings without regard to order, tags by name. -/
def same : Value → Value → Bool
  | .null, .null => true
  | .bool a, .bool b => a == b
  | .integer a, .integer b => a == b
  | .float a, .float b => a.same b
  | .string a, .string b => a == b
  | .sequence as, .sequence bs => sameItems as bs
  | .mapping as, .mapping bs => as.length == bs.length && entriesWithin as bs
  | .tagged s a, .tagged t b => tagName s == tagName t && same a b
  | _, _ => false

def sameItems : List Value → List Value → Bool
  | [], [] => true
  | a :: as, b :: bs => same a b && sameItems as bs
  | _, _ => false

/-- Every entry of the first list has an equal one in the second. -/
def entriesWithin : List (Value × Value) → List (Value × Value) → Bool
  | [], _ => true
  | (k, v) :: rest, bs => bs.any (fun (k', v') => same k k' && same v v') && entriesWithin rest bs

end

end Value
end SchemaScript
