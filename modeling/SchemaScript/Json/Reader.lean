/- Strict reading of JSON: no comments, no trailing commas, no characters behind the value. -/
import SchemaScript.Json.Value

namespace SchemaScript.Json

/-- Whether a value is kept or only passed over. Of a value that is passed over neither the range of
numbers nor the pairing of surrogates matters. -/
inductive Use
  | keep
  | skip
deriving Repr, DecidableEq

/-- The four characters that may stand between the parts of a value. -/
def isSpace (c : Char) : Bool := c == ' ' || c == '\t' || c == '\n' || c == '\r'

def skipSpace (t : Text) : Text := t.dropWhile isSpace

def unescape? : Char → Option Char
  | '"' => some '"'
  | '\\' => some '\\'
  | '/' => some '/'
  | 'b' => some '\x08'
  | 'f' => some '\x0c'
  | 'n' => some '\n'
  | 'r' => some '\r'
  | 't' => some '\t'
  | _ => none

def hexUnit? (a b c d : Char) : Option Nat := Text.nat? 16 [a, b, c, d]

def isHighSurrogate (n : Nat) : Bool := 0xD800 ≤ n && n ≤ 0xDBFF

def isLowSurrogate (n : Nat) : Bool := 0xDC00 ≤ n && n ≤ 0xDFFF

def pairChar (high low : Nat) : Char :=
  Char.ofNat (0x10000 + (high - 0xD800) * 0x400 + (low - 0xDC00))

/-- Puts a character in front of a string that was read. -/
def prepend (c : Char) : Option (Text × Text) → Option (Text × Text) :=
  Option.map fun (t, rest) => (c :: t, rest)

/-- Reads the rest of a string behind its opening quote, and gives what follows the closing one.
A surrogate in a kept string is followed by its other half. -/
def readString (use : Use) : Text → Option (Text × Text)
  | [] => none
  | '"' :: rest => some ([], rest)
  | '\\' :: 'u' :: a :: b :: c :: d :: rest =>
      match hexUnit? a b c d with
      | none => none
      | some unit =>
          if use = .skip then prepend '?' (readString use rest)
          else if isHighSurrogate unit then
            match rest with
            | '\\' :: 'u' :: e :: f :: g :: h :: later =>
                match hexUnit? e f g h with
                | none => none
                | some low =>
                    if isLowSurrogate low then prepend (pairChar unit low) (readString use later)
                    else none
            | _ => none
          else if isLowSurrogate unit then none
          else prepend (Char.ofNat unit) (readString use rest)
  | '\\' :: c :: rest =>
      match unescape? c with
      | some e => prepend e (readString use rest)
      | none => none
  | c :: rest => if c.toNat < 0x20 || c == '\\' then none else prepend c (readString use rest)

/-- Reads digits up to the first other character; at least one. -/
def readDigits (t : Text) : Option (Text × Text) :=
  let digits := t.takeWhile Decimal.isDigit
  if digits.isEmpty then none else some (digits, t.dropWhile Decimal.isDigit)

/-- The digits before the point; a zero in front stands alone. -/
def readWhole (t : Text) : Option (Text × Text) := do
  let (digits, rest) ← readDigits t
  match digits with
  | '0' :: _ :: _ => none
  | _ => some (digits, rest)

/-- The fraction behind the whole part; nothing if there is no point. -/
def readFraction : Text → Option (Option Text × Text)
  | '.' :: rest => (readDigits rest).map fun (digits, rest) => (some digits, rest)
  | rest => some (none, rest)

/-- The exponent behind the fraction; nothing if there is no letter for it. -/
def readExponent : Text → Option (Option Int × Text)
  | c :: rest =>
      if c = 'e' ∨ c = 'E' then
        match rest with
        | '+' :: rest =>
            (readDigits rest).map fun (digits, rest) => (some (Decimal.wholePart digits : Int), rest)
        | '-' :: rest =>
            (readDigits rest).map fun (digits, rest) => (some (-(Decimal.wholePart digits : Int)), rest)
        | rest =>
            (readDigits rest).map fun (digits, rest) => (some (Decimal.wholePart digits : Int), rest)
      else some (none, c :: rest)
  | [] => some (none, [])

def readMagnitude (negative : Bool) (t : Text) : Option (JsonNumber × Text) := do
  let (whole, rest) ← readWhole t
  let (fraction, rest) ← readFraction rest
  let (exponent, rest) ← readExponent rest
  some (.ofParts negative whole fraction exponent, rest)

/-- Reads a number. One that is kept is in the range of doubles. -/
def readNumber (use : Use) (t : Text) : Option (Json × Text) := do
  let (n, rest) ←
    match t with
    | '-' :: rest => readMagnitude true rest
    | rest => readMagnitude false rest
  if use = .keep && !n.inRange then none else some (.number n, rest)

/-- Reads the name of a member and the colon behind it. -/
def readName (use : Use) (t : Text) : Option (Text × Text) :=
  match skipSpace t with
  | '"' :: rest => do
      let (name, rest) ← readString use rest
      match skipSpace rest with
      | ':' :: rest => some (name, rest)
      | _ => none
  | _ => none

mutual

/-- Reads a value at the head of a text. `depth` is how many arrays and objects may still be opened
inside one another, `fuel` how many steps are left; twice the length of the text always suffices. -/
def readValue (use : Use) : (fuel depth : Nat) → Text → Option (Json × Text)
  | 0, _, _ => none
  | fuel + 1, depth, t =>
      match skipSpace t with
      | 'n' :: 'u' :: 'l' :: 'l' :: rest => some (.null, rest)
      | 't' :: 'r' :: 'u' :: 'e' :: rest => some (.bool true, rest)
      | 'f' :: 'a' :: 'l' :: 's' :: 'e' :: rest => some (.bool false, rest)
      | '"' :: rest => (readString use rest).map fun (t, rest) => (.string t, rest)
      | '[' :: rest =>
          match depth with
          | 0 => none
          | depth + 1 =>
              match skipSpace rest with
              | ']' :: rest => some (.array [], rest)
              | rest => (readItems use fuel depth rest).map fun (items, rest) => (.array items, rest)
      | '\x7b' :: rest =>
          match depth with
          | 0 => none
          | depth + 1 =>
              match skipSpace rest with
              | '\x7d' :: rest => some (.object [], rest)
              | rest =>
                  (readMembers use fuel depth rest).map fun (members, rest) => (.object members, rest)
      | rest => readNumber use rest

/-- Reads the items of an array, at least one, and the bracket behind them. -/
def readItems (use : Use) : (fuel depth : Nat) → Text → Option (List Json × Text)
  | 0, _, _ => none
  | fuel + 1, depth, t => do
      let (item, rest) ← readValue use fuel depth t
      match skipSpace rest with
      | ']' :: rest => some ([item], rest)
      | ',' :: rest =>
          let (items, rest) ← readItems use fuel depth rest
          some (item :: items, rest)
      | _ => none

/-- Reads the members of an object, at least one, and the brace behind them. -/
def readMembers (use : Use) : (fuel depth : Nat) → Text → Option (List (Text × Json) × Text)
  | 0, _, _ => none
  | fuel + 1, depth, t => do
      let (name, rest) ← readName use t
      let (value, rest) ← readValue use fuel depth rest
      match skipSpace rest with
      | '\x7d' :: rest => some ([(name, value)], rest)
      | ',' :: rest =>
          let (members, rest) ← readMembers use fuel depth rest
          some ((name, value) :: members, rest)
      | _ => none

end

/-- Steps that suffice for any text of the length of a given one. -/
def enough (t : Text) : Nat := 2 * t.length + 2

/-- Nothing but white space follows. -/
def atEnd (t : Text) : Bool := (skipSpace t).isEmpty

/-- Reads a text that is one value, with at most `depth` arrays and objects inside one another. -/
def read? (depth : Nat) (t : Text) : Option Json := do
  let (value, rest) ← readValue .keep (enough t) depth t
  if atEnd rest then some value else none

end SchemaScript.Json
