/- Places in a YAML text, and the classes of characters that matter there. -/
import SchemaScript.Text.Ascii
import SchemaScript.Text.Utf8

namespace SchemaScript.Yaml

/-- Characters that a text may hold at all. -/
def isAllowed (c : Char) : Bool :=
  let n := c.toNat
  n == 0x09 || n == 0x0A || n == 0x0D || (0x20 ≤ n && n ≤ 0x7E) || n == 0x85
    || (0xA0 ≤ n && n ≤ 0xD7FF) || (0xE000 ≤ n && n ≤ 0xFFFD) || 0x10000 ≤ n

/-- The five characters that end a line. -/
def isBreak (c : Char) : Bool :=
  c == '\n' || c == '\r' || c == '\u0085' || c == '\u2028' || c == '\u2029'

def isGap (c : Char) : Bool := c == ' ' || c == '\t'

/-- Letters, digits, underscore and hyphen: the characters of anchors and handles. -/
def isWordChar (c : Char) : Bool := Text.isAlphanumeric c || c == '_' || c == '-'

/-- The text ends, or goes on with a space, a tab or a line break. -/
def endsWord : Text → Bool
  | [] => true
  | c :: _ => isGap c || isBreak c

/-- The text goes on with one of some characters. -/
def startsWithAny (chars : Text) : Text → Bool
  | [] => false
  | c :: _ => chars.contains c

/-- What is left of a text, and where that stands in the whole. -/
structure Cursor where
  rest : Text
  /-- How many bytes stand before it. -/
  index : Nat := 0
  line : Nat := 0
  column : Nat := 0

namespace Cursor

def skip (count : Nat) (c : Cursor) : Cursor :=
  { c with
    rest := c.rest.drop count
    index := c.index + Utf8.size (c.rest.take count)
    column := c.column + count }

/-- Passes over the characters of a class that holds no line break. -/
def skipWhile (p : Char → Bool) (c : Cursor) : Cursor :=
  c.skip (c.rest.takeWhile p).length

/-- Passes over a line break, and gives the character that it stands for. A carriage return, a
newline, both together and U+0085 stand for a newline; the others for themselves. -/
def skipBreak (c : Cursor) : Text × Cursor :=
  let next (rest : Text) (size : Nat) : Cursor :=
    { rest, index := c.index + size, line := c.line + 1, column := 0 }
  match c.rest with
  | '\r' :: '\n' :: rest => (['\n'], next rest 2)
  | '\r' :: rest | '\n' :: rest => (['\n'], next rest 1)
  | '\u0085' :: rest => (['\n'], next rest 2)
  | '\u2028' :: rest => (['\u2028'], next rest 3)
  | '\u2029' :: rest => (['\u2029'], next rest 3)
  | _ => ([], c)

def atBreak (c : Cursor) : Bool :=
  match c.rest with
  | [] => false
  | x :: _ => isBreak x

/-- A line starts with three hyphens or three points that stand alone. -/
def atDocumentMark (c : Cursor) : Bool :=
  c.column == 0 &&
    match c.rest with
    | '-' :: '-' :: '-' :: rest => endsWord rest
    | '.' :: '.' :: '.' :: rest => endsWord rest
    | _ => false

/-- Passes over a comment, if one starts here, up to the end of its line. -/
def skipComment (c : Cursor) : Cursor :=
  match c.rest with
  | '#' :: _ => c.skipWhile fun x => !isBreak x
  | _ => c

end Cursor
end SchemaScript.Yaml
