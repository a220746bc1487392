/- Options of a request, as strict JSON. -/
import SchemaScript.Json.Reader
import SchemaScript.Text.Blank

namespace SchemaScript.Exchange

structure Options where
  /-- Any value; only an integer sets the indentation. -/
  indent : Option Json := none

namespace Options

/-- How many arrays and objects may stand inside one another, the options themselves included. -/
def depthLimit : Nat := 127

/-- The requested indentation, if it is an integer of sixty-four bits with a sign. -/
def width (o : Options) : Option Int :=
  match o.indent with
  | some (.number n) => n.integer?.filter (fitsSigned 64)
  | _ => none

/-- Reads a value that is kept, with null for none. -/
def readIndent (fuel : Nat) (t : Text) : Option (Option Json × Text) :=
  (Json.readValue .keep fuel (depthLimit - 1) t).map fun (v, rest) =>
    match v with
    | .null => (none, rest)
    | v => (some v, rest)

/-- Reads the members of an object up to its brace. The indentation is given once at most; other
members are passed over. `given` says whether it was. -/
def readMembers (given : Bool) (o : Options) : (fuel : Nat) → Text → Option (Options × Text)
  | 0, _ => none
  | fuel + 1, t => do
      let (name, rest) ← Json.readName .keep t
      let isIndent := name == "indent".toList
      if isIndent && given then none
      else
        let (o, rest) ←
          if isIndent then
            (readIndent (Json.enough rest) rest).map fun (indent, rest) => (⟨indent⟩, rest)
          else (Json.readValue .skip (Json.enough rest) rest.length rest).map fun (_, rest) => (o, rest)
        match Json.skipSpace rest with
        | '\x7d' :: rest => some (o, rest)
        | ',' :: rest => readMembers (given || isIndent) o fuel rest
        | _ => none

/-- Reads an object of options, or an array that holds nothing or the indentation alone. -/
def readAny (t : Text) : Option (Options × Text) :=
  match Json.skipSpace t with
  | '\x7b' :: rest =>
      match Json.skipSpace rest with
      | '\x7d' :: rest => some ({}, rest)
      | rest => readMembers false {} (rest.length + 1) rest
  | '[' :: rest =>
      match Json.skipSpace rest with
      | ']' :: rest => some ({}, rest)
      | rest => do
          let (indent, rest) ← readIndent (Json.enough rest) rest
          match Json.skipSpace rest with
          | ']' :: rest => some (⟨indent⟩, rest)
          | _ => none
  | _ => none

def read? (t : Text) : Option Options :=
  if Text.isBlank t then some {}
  else do
    let (o, rest) ← readAny t
    if Json.atEnd rest then some o else none

end Options
end SchemaScript.Exchange
