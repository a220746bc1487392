/- Tokens of a column text: runs without separating white space, where quoted literals and
   parenthesized groups hold their white space together. -/
import SchemaScript.Text.Blank

namespace SchemaScript.Column

/-- Whether a place stands inside a quoted literal, and whether the character there is escaped. -/
inductive Quoting
  | outside
  | inside (quote : Char) (escaped : Bool)
deriving Repr, DecidableEq

/-- What the characters before a place in a column text say about it. -/
structure Place where
  quoting : Quoting := .outside
  /-- Parentheses that are open; one that closes nothing counts for nothing. -/
  depth : Nat := 0
deriving Repr, DecidableEq

namespace Place

def start : Place := {}

/-- Single quotes, double quotes and backquotes open a literal. -/
def opensQuote (c : Char) : Bool := c == '\'' || c == '"' || c == '\x60'

/-- The place behind one more character. A backslash escapes the next character of a literal,
except between backquotes. -/
def after (p : Place) (c : Char) : Place :=
  match p.quoting with
  | .inside q true => { p with quoting := .inside q false }
  | .inside q false =>
      if c = '\\' ∧ q ≠ '\x60' then { p with quoting := .inside q true }
      else if c = q then { p with quoting := .outside }
      else p
  | .outside =>
      if opensQuote c then { p with quoting := .inside c false }
      else if c = '(' then { p with depth := p.depth + 1 }
      else if c = ')' then { p with depth := p.depth - 1 }
      else p

def afterText (p : Place) (t : Text) : Place := t.foldl after p

/-- Outside every literal and every group. -/
def IsOuter (p : Place) : Prop := p.quoting = .outside ∧ p.depth = 0

instance (p : Place) : Decidable p.IsOuter := inferInstanceAs (Decidable (_ ∧ _))

/-- White space separates tokens outside literals and groups, and nowhere else. -/
def separates (p : Place) (c : Char) : Bool := decide p.IsOuter && isBlank c

end Place

/-- The piece up to the first separator, and the pieces between separators after it. Two
separators side by side have an empty piece between them. -/
def pieces (p : Place) : Text → Text × List Text
  | [] => ([], [])
  | c :: rest =>
      let (piece, later) := pieces (p.after c) rest
      if p.separates c then ([], piece :: later) else (c :: piece, later)

/-- The tokens of a column text: its pieces between separators that are not empty. -/
def tokenize (t : Text) : List Text :=
  let (piece, later) := pieces .start t
  (piece :: later).filter fun piece => !piece.isEmpty

end SchemaScript.Column
