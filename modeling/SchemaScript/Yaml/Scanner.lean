/- From a YAML text to its tokens. Collections without brackets have their start and end told by
   indentation, and keys are told by the colon behind them. -/
import SchemaScript.Yaml.Property
import SchemaScript.Yaml.ScalarText

namespace SchemaScript.Yaml

/-- A place where a key may have started. A colon on the same line makes it one. -/
structure KeyPlace where
  /-- Nothing but a key may start here. -/
  required : Bool
  /-- How many tokens were read before it. -/
  position : Nat
  index : Nat
  line : Nat
  column : Nat

structure Scanner where
  cursor : Cursor
  tokens : Array Token := #[]
  /-- The column of the block collection that is open; below zero if none is. -/
  indent : Int := -1
  /-- The columns of the collections around it. -/
  outer : List Int := []
  /-- A key may start here. -/
  keyAllowed : Bool := true
  /-- The place where a key may have started, for block context and each open bracket. -/
  places : List (Option KeyPlace) := [none]

namespace Scanner

def inFlow (s : Scanner) : Bool := 1 < s.places.length

def emit (token : Token) (s : Scanner) : Scanner := { s with tokens := s.tokens.push token }

def insert (position : Nat) (token : Token) (s : Scanner) : Scanner :=
  { s with tokens := s.tokens.insertIdxIfInBounds position token }

/-- Opens a block collection at a column to the right of the one that is open. Its start goes in front
of the token at `position`. -/
def openBlock (column : Nat) (position : Nat) (token : Token) (s : Scanner) : Scanner :=
  if !s.inFlow && s.indent < (column : Int) then
    ({ s with outer := s.indent :: s.outer, indent := column } : Scanner).insert position token
  else s

/-- Ends the open block collection as long as it is to the right of a column. -/
def closeBlocksFrom (column : Int) : List Int → Scanner → Scanner
  | [], s => s
  | next :: outer, s =>
      if column < s.indent then
        closeBlocksFrom column outer { s.emit .blockEnd with indent := next, outer }
      else s

/-- Ends block collections to the right of a column; brackets keep them open. -/
def closeBlocks (column : Int) (s : Scanner) : Scanner :=
  if s.inFlow then s else closeBlocksFrom column s.outer s

/-- Gives up the place of a key, unless it was required. -/
def dropKey (s : Scanner) : Option Scanner :=
  match s.places with
  | some place :: rest => if place.required then none else some { s with places := none :: rest }
  | _ => some s

/-- A place on an earlier line, or more than 1024 bytes back, is one no more. -/
def KeyPlace.isStale (place : KeyPlace) (c : Cursor) : Bool :=
  place.line < c.line || place.index + 1024 < c.index

def dropStaleKeys (s : Scanner) : Option Scanner := do
  let places ← s.places.mapM fun place =>
    match place with
    | none => some none
    | some p =>
        if KeyPlace.isStale p s.cursor then (if p.required then none else some none)
        else some (some p)
  some { s with places }

/-- Marks the place of the next token as one where a key may start. -/
def saveKey (s : Scanner) : Option Scanner :=
  if !s.keyAllowed then some s
  else do
    let s ← s.dropKey
    let place : KeyPlace :=
      { required := !s.inFlow && s.indent == (s.cursor.column : Int)
        position := s.tokens.size
        index := s.cursor.index
        line := s.cursor.line
        column := s.cursor.column }
    some { s with places := some place :: s.places.tail }

/-- Passes over white space, comments and line breaks, and over a byte order mark at the start of a
line, which takes a column. In block context a tab is no white space where a key may start, and a key
may start on a new line. -/
def toNextToken : (fuel : Nat) → Scanner → Scanner
  | 0, s => s
  | fuel + 1, s =>
      let c := s.cursor
      let c := if c.column == 0 && startsWithAny ['\ufeff'] c.rest then c.skip 1 else c
      let tabs := s.inFlow || !s.keyAllowed
      let c := (c.skipWhile fun x => x == ' ' || (tabs && x == '\t')).skipComment
      if c.atBreak then
        toNextToken fuel
          { s with cursor := c.skipBreak.2, keyAllowed := s.keyAllowed || !s.inFlow }
      else { s with cursor := c }

/-- A token of one or more characters at the cursor. -/
def take (count : Nat) (token : Token) (s : Scanner) : Scanner :=
  ({ s with cursor := s.cursor.skip count } : Scanner).emit token

/-- A bracket or brace that opens; a key may start with it and inside it. -/
def openFlow (token : Token) (s : Scanner) : Option Scanner := do
  let s ← s.saveKey
  some { s.take 1 token with places := none :: s.places, keyAllowed := true }

def closeFlow (token : Token) (s : Scanner) : Option Scanner := do
  let s ← s.dropKey
  let places := if s.inFlow then s.places.tail else s.places
  some { s.take 1 token with places, keyAllowed := false }

def flowEntry (s : Scanner) : Option Scanner := do
  let s ← s.dropKey
  some { s.take 1 .flowEntry with keyAllowed := true }

def blockEntry (s : Scanner) : Option Scanner :=
  if !s.inFlow && !s.keyAllowed then none
  else do
    let s := s.openBlock s.cursor.column s.tokens.size .blockSequenceStart
    let s ← s.dropKey
    some { s.take 1 .blockEntry with keyAllowed := true }

def explicitKey (s : Scanner) : Option Scanner :=
  if !s.inFlow && !s.keyAllowed then none
  else do
    let s := s.openBlock s.cursor.column s.tokens.size .blockMappingStart
    let s ← s.dropKey
    some { s.take 1 .key with keyAllowed := !s.inFlow }

/-- A colon: what started at the marked place is a key, or a key was announced, or there is none. -/
def value (s : Scanner) : Option Scanner :=
  match s.places with
  | some place :: rest =>
      let s := s.insert place.position .key
      let s := s.openBlock place.column place.position .blockMappingStart
      some { s.take 1 .value with places := none :: rest, keyAllowed := false }
  | _ =>
      if !s.inFlow && !s.keyAllowed then none
      else
        let s := s.openBlock s.cursor.column s.tokens.size .blockMappingStart
        some { s.take 1 .value with keyAllowed := !s.inFlow }

/-- A directive, or the mark of a document: all block collections end. -/
def atMargin (s : Scanner) : Option Scanner := do
  let s ← (s.closeBlocks (-1)).dropKey
  some { s with keyAllowed := false }

def directive (s : Scanner) : Option Scanner := do
  let s ← s.atMargin
  let (token, cursor) ← readDirective s.cursor
  some { s.emit token with cursor }

def documentMark (token : Token) (s : Scanner) : Option Scanner := do
  let s ← s.atMargin
  some (s.take 3 token)

/-- A token that a key may start with. -/
def keyStart (read : Scanner → Option (Token × Cursor)) (s : Scanner) : Option Scanner := do
  let s ← s.saveKey
  let (token, cursor) ← read s
  some { s.emit token with cursor, keyAllowed := false }

def anchor (s : Scanner) : Option Scanner :=
  s.keyStart fun s => (readAnchorName s.cursor).map fun (name, c) => (.anchor name, c)

def scanAlias (s : Scanner) : Option Scanner :=
  s.keyStart fun s => (readAnchorName s.cursor).map fun (name, c) => (.alias name, c)

def tag (s : Scanner) : Option Scanner :=
  s.keyStart fun s => readTag s.inFlow s.cursor

def quoted (single : Bool) (s : Scanner) : Option Scanner :=
  s.keyStart fun s => (readQuoted single s.cursor).map fun q => (.scalar false q.text, q.cursor)

/-- A plain scalar. After line breaks behind it a key may start. -/
def plain (s : Scanner) : Option Scanner := do
  let s ← s.saveKey
  let p ← readPlain s.inFlow s.indent s.cursor
  some { s.emit (.scalar true p.text) with cursor := p.cursor, keyAllowed := p.onNewLine }

def block (literal : Bool) (s : Scanner) : Option Scanner := do
  let s ← s.dropKey
  let b ← readBlock literal s.indent s.cursor
  some { s.emit (.scalar false b.text) with cursor := b.cursor, keyAllowed := true }

/-- Characters that no plain scalar starts with. -/
def isIndicator (c : Char) : Bool :=
  "-?:,[]\x7b\x7d#&*!|>'\"%@\x60".toList.contains c

/-- A plain scalar may start here. A hyphen starts one if no blank follows it, a question mark and a
colon in block context do likewise. -/
def startsPlain (flow : Bool) : Text → Bool
  | [] => false
  | c :: rest =>
      !(isGap c || isBreak c || isIndicator c)
        || (c == '-' && !startsWithAny [' ', '\t'] rest)
        || (!flow && (c == '?' || c == ':') && !endsWord rest)

/-- Reads the token at the cursor. -/
def token (s : Scanner) : Option Scanner :=
  let flow := s.inFlow
  match s.cursor.rest with
  | [] => none
  | c :: rest =>
      if s.cursor.column == 0 && c == '%' then s.directive
      else if s.cursor.atDocumentMark then
        s.documentMark (if c == '-' then .documentStart else .documentEnd)
      else if c == '[' then s.openFlow .flowSequenceStart
      else if c == '\x7b' then s.openFlow .flowMappingStart
      else if c == ']' then s.closeFlow .flowSequenceEnd
      else if c == '\x7d' then s.closeFlow .flowMappingEnd
      else if c == ',' then s.flowEntry
      else if c == '-' && endsWord rest then s.blockEntry
      else if c == '?' && (flow || endsWord rest) then s.explicitKey
      else if c == ':' && (flow || endsWord rest) then s.value
      else if c == '*' then s.scanAlias
      else if c == '&' then s.anchor
      else if c == '!' then s.tag
      else if c == '|' && !flow then s.block true
      else if c == '>' && !flow then s.block false
      else if c == '\'' then s.quoted true
      else if c == '"' then s.quoted false
      else if startsPlain flow s.cursor.rest then s.plain
      else none

/-- Reads tokens to the end of the text, where all block collections end. -/
def run : (fuel : Nat) → Scanner → Option Scanner
  | 0, _ => none
  | fuel + 1, s => do
      let s := s.toNextToken (s.cursor.rest.length + 1)
      let s ← s.dropStaleKeys
      let s := s.closeBlocks s.cursor.column
      if s.cursor.rest.isEmpty then (s.closeBlocks (-1)).dropKey
      else run fuel (← s.token)

end Scanner

/-- The tokens of a text. A text with a character that is not allowed has none. -/
def tokens? (t : Text) : Option (List Token) :=
  if t.all isAllowed then
    (Scanner.run (t.length + 2) { cursor := { rest := t } }).map fun s => s.tokens.toList
  else none

end SchemaScript.Yaml
