/- JSON as text, in one line or over several with two spaces per level. -/
import SchemaScript.Json.Value

namespace SchemaScript.Json

def hexDigit (n : Nat) : Char := (Nat.digitChar n)

/-- A character in a string. Quote, backslash and control characters are escaped, the last by a
letter if they have one; no other character is. -/
def escape (c : Char) : Text :=
  if c = '"' then ['\\', '"']
  else if c = '\\' then ['\\', '\\']
  else if c = '\x08' then ['\\', 'b']
  else if c = '\x0c' then ['\\', 'f']
  else if c = '\n' then ['\\', 'n']
  else if c = '\r' then ['\\', 'r']
  else if c = '\t' then ['\\', 't']
  else if c.toNat < 0x20 then
    ['\\', 'u', '0', '0', hexDigit (c.toNat / 16), hexDigit (c.toNat % 16)]
  else [c]

def quoted (t : Text) : Text := '"' :: t.flatMap escape ++ ['"']

/-- A number as digits, behind a minus sign if it is negative; a power of ten is written as an
exponent. -/
def numberText (n : JsonNumber) : Text :=
  (if n.negative then ['-'] else []) ++ Text.ofNat n.magnitude.digits
    ++ (if n.whole then [] else 'e' :: Text.ofInt n.magnitude.exponent)

mutual

def compact : Json → Text
  | .null => "null"
  | .bool b => if b then "true" else "false"
  | .number n => numberText n
  | .string t => quoted t
  | .array items => '[' :: compactItems items ++ [']']
  | .object members => '\x7b' :: compactMembers members ++ ['\x7d']

def compactItems : List Json → Text
  | [] => []
  | [item] => compact item
  | item :: next :: rest => compact item ++ ',' :: compactItems (next :: rest)

def compactMembers : List (Text × Json) → Text
  | [] => []
  | [(name, value)] => quoted name ++ ':' :: compact value
  | (name, value) :: next :: rest =>
      quoted name ++ ':' :: compact value ++ ',' :: compactMembers (next :: rest)

end

def newline (level : Nat) : Text := '\n' :: Text.spaces (2 * level)

mutual

/-- A value over several lines; an array or object without content stays in one. -/
def prettyAt (level : Nat) : Json → Text
  | .null => "null"
  | .bool b => if b then "true" else "false"
  | .number n => numberText n
  | .string t => quoted t
  | .array [] => ['[', ']']
  | .array (item :: items) =>
      '[' :: newline (level + 1) ++ prettyItems (level + 1) (item :: items) ++ newline level ++ [']']
  | .object [] => ['\x7b', '\x7d']
  | .object (member :: members) =>
      '\x7b' :: newline (level + 1) ++ prettyMembers (level + 1) (member :: members)
        ++ newline level ++ ['\x7d']

def prettyItems (level : Nat) : List Json → Text
  | [] => []
  | [item] => prettyAt level item
  | item :: next :: rest =>
      prettyAt level item ++ ',' :: newline level ++ prettyItems level (next :: rest)

def prettyMembers (level : Nat) : List (Text × Json) → Text
  | [] => []
  | [(name, value)] => quoted name ++ [':', ' '] ++ prettyAt level value
  | (name, value) :: next :: rest =>
      quoted name ++ [':', ' '] ++ prettyAt level value ++ ',' :: newline level
        ++ prettyMembers level (next :: rest)

end

def pretty (v : Json) : Text := prettyAt 0 v

end SchemaScript.Json
