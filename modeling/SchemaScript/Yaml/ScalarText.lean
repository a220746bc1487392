/- The text of scalars as they are written: plain, between quotes, and as blocks of lines. -/
import SchemaScript.Text.Utf8
import SchemaScript.Yaml.Cursor

namespace SchemaScript.Yaml

/-- White space between two pieces of a scalar: blanks on one line, or line breaks. -/
structure Gap where
  blanks : Text := []
  /-- The first line break; empty if a backslash took it away. -/
  first : Text := []
  further : Text := []
  broken : Bool := false

namespace Gap

/-- What a gap leaves in the text. A single newline is folded to a space; of several the first is
dropped; the other line breaks stay. -/
def text (g : Gap) : Text :=
  if !g.broken then g.blanks
  else if g.first = ['\n'] then (if g.further.isEmpty then [' '] else g.further)
  else g.first ++ g.further

/-- Reads white space. Behind a line break a tab to the left of a column is refused. -/
def read (leftOf : Int) : (fuel : Nat) → Gap → Cursor → Option (Gap × Cursor)
  | 0, g, c => some (g, c)
  | fuel + 1, g, c =>
      match c.rest with
      | [] => some (g, c)
      | x :: _ =>
          if isGap x then
            if g.broken then
              if x = '\t' ∧ (c.column : Int) < leftOf then none else read leftOf fuel g (c.skip 1)
            else read leftOf fuel { g with blanks := g.blanks ++ [x] } (c.skip 1)
          else if isBreak x then
            let (mark, c) := c.skipBreak
            if g.broken then read leftOf fuel { g with further := g.further ++ mark } c
            else read leftOf fuel { g with blanks := [], first := mark, broken := true } c
          else some (g, c)

end Gap

/-- The characters of a plain scalar up to white space or an indicator that ends it. In flow context
a colon before an indicator is refused. -/
def plainPiece (flow : Bool) : Text → Option Text
  | [] => some []
  | c :: rest =>
      if isGap c || isBreak c then some []
      else if flow && c == ':' && startsWithAny [',', '?', '[', ']', '\x7b', '\x7d'] rest then none
      else if c == ':' && endsWord rest then some []
      else if flow && [',', '[', ']', '\x7b', '\x7d'].contains c then some []
      else (plainPiece flow rest).map (c :: ·)

structure Scanned where
  text : Text
  cursor : Cursor
  /-- A line break was passed over behind the last piece. -/
  onNewLine : Bool := false

/-- Reads the pieces of a plain scalar. In block context a line to the left of `leftOf` ends it, and
so does a comment or the mark of a document. `gap` is the white space since the last piece. -/
def plainFrom (flow : Bool) (leftOf : Int) :
    (fuel : Nat) → (soFar : Text) → Gap → Cursor → Option Scanned
  | 0, soFar, g, c => some { text := soFar, cursor := c, onNewLine := g.broken }
  | fuel + 1, soFar, g, c =>
      let stop : Scanned := { text := soFar, cursor := c, onNewLine := g.broken }
      if c.atDocumentMark || startsWithAny ['#'] c.rest then some stop
      else do
        let piece ← plainPiece flow c.rest
        if piece.isEmpty then some stop
        else
          let text := soFar ++ g.text ++ piece
          let c := c.skip piece.length
          match c.rest with
          | [] => some { text, cursor := c }
          | x :: _ =>
              if isGap x || isBreak x then
                let (g, c) ← Gap.read leftOf (c.rest.length + 1) {} c
                if !flow && (c.column : Int) < leftOf then
                  some { text, cursor := c, onNewLine := g.broken }
                else plainFrom flow leftOf fuel text g c
              else some { text, cursor := c }

def readPlain (flow : Bool) (indent : Int) (c : Cursor) : Option Scanned :=
  plainFrom flow (indent + 1) (c.rest.length + 1) [] {} c

/-- The characters between single quotes up to white space or the closing quote, and how many were
used for them. Two quotes side by side are one. -/
def singlePiece : Text → Text × Nat
  | '\'' :: '\'' :: rest =>
      let (piece, used) := singlePiece rest
      ('\'' :: piece, used + 2)
  | c :: rest =>
      if c == '\'' || isGap c || isBreak c then ([], 0)
      else
        let (piece, used) := singlePiece rest
        (c :: piece, used + 1)
  | [] => ([], 0)

/-- The character that a letter stands for behind a backslash. -/
def escaped? (c : Char) : Option Char :=
  match c with
  | '0' => some '\x00'
  | 'a' => some '\x07'
  | 'b' => some '\x08'
  | 't' | '\t' => some '\t'
  | 'n' => some '\n'
  | 'v' => some '\x0b'
  | 'f' => some '\x0c'
  | 'r' => some '\r'
  | 'e' => some '\x1b'
  | ' ' => some ' '
  | '"' => some '"'
  | '/' => some '/'
  | '\\' => some '\\'
  | 'N' => some '\u0085'
  | '_' => some '\u00a0'
  | 'L' => some '\u2028'
  | 'P' => some '\u2029'
  | _ => none

/-- The character of a hexadecimal code; a surrogate and a code that is too large have none. -/
def codeChar? (digits : Text) : Option Char :=
  (Text.nat? 16 digits).bind fun n => Utf8.char? 0 n

/-- The characters between double quotes up to white space, the closing quote or an escaped line
break, how many were used for them, and whether such a line break follows. -/
def doublePiece : Text → Option (Text × Nat × Bool)
  | [] => some ([], 0, false)
  | '"' :: _ => some ([], 0, false)
  | '\\' :: 'x' :: a :: b :: rest => do
      let c ← codeChar? [a, b]
      let (piece, used, breaks) ← doublePiece rest
      some (c :: piece, used + 4, breaks)
  | '\\' :: 'u' :: a :: b :: c :: d :: rest => do
      let c ← codeChar? [a, b, c, d]
      let (piece, used, breaks) ← doublePiece rest
      some (c :: piece, used + 6, breaks)
  | '\\' :: 'U' :: a :: b :: c :: d :: e :: f :: g :: h :: rest => do
      let c ← codeChar? [a, b, c, d, e, f, g, h]
      let (piece, used, breaks) ← doublePiece rest
      some (c :: piece, used + 10, breaks)
  | '\\' :: c :: rest =>
      if isBreak c then some ([], 0, true)
      else do
        let e ← escaped? c
        let (piece, used, breaks) ← doublePiece rest
        some (e :: piece, used + 2, breaks)
  | c :: rest =>
      if c == '\\' then none
      else if isGap c || isBreak c then some ([], 0, false)
      else do
        let (piece, used, breaks) ← doublePiece rest
        some (c :: piece, used + 1, breaks)

/-- The next piece between quotes, as `doublePiece` gives it. -/
def quotedPiece (single : Bool) (t : Text) : Option (Text × Nat × Bool) :=
  if single then
    let (piece, used) := singlePiece t
    some (piece, used, false)
  else doublePiece t

/-- Reads the pieces between quotes and the closing quote. The text does not end before it, and no
line between the quotes is the mark of a document. -/
def quotedFrom (single : Bool) : (fuel : Nat) → (soFar : Text) → Cursor → Option Scanned
  | 0, _, _ => none
  | fuel + 1, soFar, c =>
      if c.atDocumentMark || c.rest.isEmpty then none
      else do
        let (piece, used, breaks) ← quotedPiece single c.rest
        let soFar := soFar ++ piece
        let c := c.skip used
        let start : Gap := { broken := breaks }
        let c := if breaks then (c.skip 1).skipBreak.2 else c
        if startsWithAny [if single then '\'' else '"'] c.rest then
          some { text := soFar, cursor := c.skip 1 }
        else
          let (g, c) ← Gap.read 0 (c.rest.length + 1) start c
          quotedFrom single fuel (soFar ++ g.text) c

def readQuoted (single : Bool) (c : Cursor) : Option Scanned :=
  quotedFrom single (c.rest.length + 1) [] (c.skip 1)

/-- What becomes of the line breaks behind the last line of a block scalar. -/
inductive Chomping
  | strip
  | clip
  | keep
deriving DecidableEq

/-- What stands behind the indicator of a block scalar. -/
structure BlockHeader where
  chomping : Chomping := .clip
  /-- How far the lines are indented, if that is said. -/
  increment : Option Nat := none

namespace BlockHeader

def chomping? : Char → Option Chomping
  | '+' => some .keep
  | '-' => some .strip
  | _ => none

/-- Reads an increment, which is not zero. -/
def readIncrement (h : BlockHeader) (c : Cursor) : Option (BlockHeader × Cursor) :=
  match c.rest with
  | [] => some (h, c)
  | x :: _ =>
      match Text.decimalDigit? x with
      | none => some (h, c)
      | some 0 => none
      | some n => some ({ h with increment := some n }, c.skip 1)

def readChomping (h : BlockHeader) (c : Cursor) : BlockHeader × Cursor :=
  match c.rest with
  | [] => (h, c)
  | x :: _ =>
      match chomping? x with
      | none => (h, c)
      | some chomping => ({ h with chomping }, c.skip 1)

/-- Reads a sign and an increment, in either order, each at most once. -/
def read (c : Cursor) : Option (BlockHeader × Cursor) :=
  let (h, signed) := readChomping {} c
  if signed.index ≠ c.index then readIncrement h signed
  else do
    let (h, c) ← readIncrement h c
    match h.increment with
    | none => some (h, c)
    | some _ => some (readChomping h c)

end BlockHeader

/-- Empty lines in front of a line of a block scalar. -/
structure EmptyLines where
  breaks : Text := []
  /-- The greatest column that was reached. -/
  reached : Nat := 0
  cursor : Cursor

/-- Passes over indentation and empty lines. With `indent` given no more than that is passed over; a
tab where indentation should be is refused. -/
def emptyLines (indent : Option Nat) : (fuel : Nat) → EmptyLines → Option EmptyLines
  | 0, e => some e
  | fuel + 1, e =>
      let spaces := (e.cursor.rest.takeWhile (· == ' ')).length
      let width :=
        match indent with
        | none => spaces
        | some indent => min spaces (indent - e.cursor.column)
      let c := e.cursor.skip width
      let reached := max e.reached c.column
      let inMargin :=
        match indent with
        | none => true
        | some indent => decide (c.column < indent)
      if inMargin && startsWithAny ['\t'] c.rest then none
      else if c.atBreak then
        let (mark, c) := c.skipBreak
        emptyLines indent fuel { breaks := e.breaks ++ mark, reached, cursor := c }
      else some { e with reached, cursor := c }

structure BlockText where
  text : Text := []
  lineEnd : Text := []
  /-- The empty lines behind it. -/
  empties : Text := []
  /-- The last line started with a blank. -/
  indented : Bool := false

/-- The line breaks between the lines so far and a line that starts with a blank or does not. In a
folded scalar a newline between two lines without a blank in front becomes a space, or nothing if
empty lines follow. -/
def BlockText.joint (literal : Bool) (b : BlockText) (indented : Bool) : Text :=
  if !literal && b.lineEnd == ['\n'] && !b.indented && !indented then
    (if b.empties.isEmpty then [' '] else []) ++ b.empties
  else b.lineEnd ++ b.empties

/-- Reads the lines of a block scalar, each indented exactly so far. -/
def blockLines (literal : Bool) (indent : Nat) :
    (fuel : Nat) → BlockText → Cursor → Option (BlockText × Cursor)
  | 0, b, c => some (b, c)
  | fuel + 1, b, c =>
      if c.column ≠ indent ∨ c.rest.isEmpty then some (b, c)
      else do
        let indented := startsWithAny [' ', '\t'] c.rest
        let line := c.rest.takeWhile fun x => !isBreak x
        let (lineEnd, c) := (c.skip line.length).skipBreak
        let e ← emptyLines (some indent) (c.rest.length + 1) { cursor := c }
        blockLines literal indent fuel
          { text := b.text ++ b.joint literal indented ++ line
            lineEnd, empties := e.breaks, indented } e.cursor

/-- A block scalar, from its indicator on. -/
def readBlock (literal : Bool) (parent : Int) (c : Cursor) : Option Scanned := do
  let (h, c) ← BlockHeader.read (c.skip 1)
  let c := (c.skipWhile isGap).skipComment
  if !(c.rest.isEmpty || c.atBreak) then none
  else
    let c := c.skipBreak.2
    let said := h.increment.map fun n => (max parent 0).toNat + n
    let e ← emptyLines said (c.rest.length + 1) { cursor := c }
    let indent := said.getD (max e.reached (max (parent + 1) 1).toNat)
    let (b, c) ← blockLines literal indent (e.cursor.rest.length + 1)
      { empties := e.breaks } e.cursor
    let tail :=
      match h.chomping with
      | .strip => []
      | .clip => b.lineEnd
      | .keep => b.lineEnd ++ b.empties
    some { text := b.text ++ tail, cursor := c }

end SchemaScript.Yaml
