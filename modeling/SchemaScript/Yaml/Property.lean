/- Anchors, aliases, tags and directives as they are written. -/
import SchemaScript.Yaml.Cursor
import SchemaScript.Yaml.Token

namespace SchemaScript.Yaml

/-- The name behind an ampersand or an asterisk. White space, the end of the text or one of some
indicators follows it. -/
def readAnchorName (c : Cursor) : Option (Text × Cursor) :=
  let c := c.skip 1
  let name := c.rest.takeWhile isWordChar
  let c := c.skip name.length
  if name.isEmpty then none
  else if endsWord c.rest || startsWithAny ['?', ':', ',', ']', '\x7d', '%', '@', '\x60'] c.rest then
    some (name, c)
  else none

/-- Characters of a tag. Inside angle brackets and in directives some flow indicators are too. -/
def isTagChar (verbatim : Bool) (c : Char) : Bool :=
  isWordChar c || ";/?:@&=+$.!~*'()".toList.contains c || (verbatim && [',', '[', ']'].contains c)

/-- How many bytes a character has that starts with a byte. -/
def octets? (n : Nat) : Option Nat :=
  if n < 0x80 then some 1
  else if n < 0xC0 then none
  else if n < 0xE0 then some 2
  else if n < 0xF0 then some 3
  else if n < 0xF8 then some 4
  else none

/-- Reads the bytes of a tag. Behind a percent sign a byte is written in hexadecimal; `pending` is
how many bytes of a character that was begun in this way are still to come. -/
def tagBytes (verbatim : Bool) : (pending : Nat) → Text → Option (Bytes × Nat)
  | pending, '%' :: a :: b :: rest => do
      let n ← Text.nat? 16 [a, b]
      let pending ←
        match pending with
        | 0 => (octets? n).map (· - 1)
        | pending + 1 => if 0x80 ≤ n ∧ n < 0xC0 then some pending else none
      let (bytes, used) ← tagBytes verbatim pending rest
      some (UInt8.ofNat n :: bytes, used + 3)
  | pending, c :: rest =>
      if c == '%' || pending ≠ 0 then none
      else if isTagChar verbatim c then do
        let (bytes, used) ← tagBytes verbatim 0 rest
        some (UInt8.ofNat c.toNat :: bytes, used + 1)
      else some ([], 0)
  | pending, [] => if pending = 0 then some ([], 0) else none

/-- Reads the text of a tag behind a beginning that was read as a handle. Its exclamation mark is
not part of the text. There is something to read, or a beginning. -/
def readTagText (verbatim : Bool) (beginning : Text) (c : Cursor) : Option (Bytes × Cursor) := do
  let (bytes, used) ← tagBytes verbatim 0 c.rest
  if used = 0 ∧ beginning.isEmpty then none
  else some (Utf8.encode (beginning.drop 1) ++ bytes, c.skip used)

/-- Reads an exclamation mark, word characters, and a second mark if it is there. -/
def readHandle (c : Cursor) : Option (Text × Cursor) :=
  match c.rest with
  | '!' :: rest =>
      let word := rest.takeWhile isWordChar
      let c := c.skip (word.length + 1)
      match c.rest with
      | '!' :: _ => some ('!' :: word ++ ['!'], c.skip 1)
      | _ => some ('!' :: word, c)
  | _ => none

/-- A handle has two exclamation marks; the mark alone and what follows one are none. -/
def isHandle (t : Text) : Bool := 1 < t.length && t.getLast? == some '!'

/-- A zero byte ends a tag. -/
def cutZero (bytes : Bytes) : Bytes := bytes.takeWhile (· ≠ 0)

/-- Reads a tag: verbatim between angle brackets, behind a handle, or behind one mark. The mark alone
is a tag of its own. -/
def readTag (flow : Bool) (c : Cursor) : Option (Token × Cursor) := do
  let (token, c) ←
    match c.rest with
    | '!' :: '<' :: _ => do
        let (bytes, c) ← readTagText true [] (c.skip 2)
        match c.rest with
        | '>' :: _ => some (Token.tag [] (cutZero bytes), c.skip 1)
        | _ => none
    | _ => do
        let (handle, c) ← readHandle c
        if isHandle handle then
          let (bytes, c) ← readTagText false [] c
          some (Token.tag handle (cutZero bytes), c)
        else
          let (bytes, c) ← readTagText false handle c
          let bytes := cutZero bytes
          if bytes.isEmpty then some (Token.tag [] (Utf8.encode ['!']), c)
          else some (Token.tag ['!'] bytes, c)
  if endsWord c.rest || (flow && startsWithAny [','] c.rest) then some (token, c) else none

def readVersionPart (c : Cursor) : Option (Nat × Cursor) :=
  let digits := c.rest.takeWhile fun x => '0' ≤ x && x ≤ '9'
  if digits.length ≤ 9 then (Text.nat? 10 digits).map fun n => (n, c.skip digits.length) else none

def readVersion (c : Cursor) : Option (Token × Cursor) := do
  let (major, c) ← readVersionPart (c.skipWhile isGap)
  match c.rest with
  | '.' :: _ =>
      let (minor, c) ← readVersionPart (c.skip 1)
      some (.versionDirective major minor, c)
  | _ => none

def readTagDirective (c : Cursor) : Option (Token × Cursor) := do
  let (handle, c) ← readHandle (c.skipWhile isGap)
  if !(isHandle handle || handle == ['!']) || !startsWithAny [' ', '\t'] c.rest then none
  else
    let (bytes, c) ← readTagText true [] (c.skipWhile isGap)
    if endsWord c.rest then some (.tagDirective handle (cutZero bytes), c) else none

/-- Reads a directive, from its percent sign to the end of its line. There are two kinds. -/
def readDirective (c : Cursor) : Option (Token × Cursor) := do
  let c := c.skip 1
  let name := c.rest.takeWhile isWordChar
  let c := c.skip name.length
  if !endsWord c.rest then none
  else
    let (token, c) ←
      if name == "YAML".toList then readVersion c
      else if name == "TAG".toList then readTagDirective c
      else none
    let c := (c.skipWhile isGap).skipComment
    if c.rest.isEmpty || c.atBreak then some (token, c.skipBreak.2) else none

end SchemaScript.Yaml
