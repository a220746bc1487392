/- Dialects: how identifiers are quoted, and the patterns that describe identifiers. -/
import SchemaScript.Text.Regex

namespace SchemaScript

/-- A dialect is known by its name and its pair of identifier quotes. -/
structure Dialect where
  name : Text
  opening : Char
  closing : Char
deriving Repr, DecidableEq

namespace Dialect

def mySQL : Dialect := { name := "MySQL", opening := '\x60', closing := '\x60' }

/-- Writes an identifier between the quotes, unchanged. -/
def quote (d : Dialect) (identifier : Text) : Text :=
  d.opening :: identifier ++ [d.closing]

/-- Characters of a bare identifier. -/
def bareSet : Regex.CharSet :=
  { items := [.range '0' '9', .range 'a' 'z', .range 'A' 'Z', .single '$', .single '_',
      .coded 0x80 0xFFFF] }

/-- Characters that stand for themselves in a quoted identifier: all but the quotes. -/
def quotableSet (d : Dialect) : Regex.CharSet :=
  { items := [.coded 0x1 0x7F, .coded 0x80 0xFFFF], without := [d.opening, d.closing] }

/-- A bare identifier, which is captured. -/
def unquoted : Regex := .group (.plus (.oneOf bareSet))

/-- A piece of what stands between quotes: a character that stands for itself, or a quote written
twice. -/
def piece (d : Dialect) : Regex :=
  .bundle (.oneOf d.quotableSet ||| .escaped [d.opening, d.opening]
    ||| .escaped [d.closing, d.closing])

/-- A quoted identifier, which captures what stands between the quotes. -/
def quoted (d : Dialect) : Regex :=
  .escaped [d.opening] ++ .group (.plus d.piece) ++ .escaped [d.closing]

/-- Two identifiers with a dot between them, which may have spaces on both sides. -/
def dotted (table column : Regex) : Regex :=
  table ++ .star (.plain " ") ++ .escaped "." ++ .star (.plain " ") ++ column

/-- The table and the column of a reference, each bare or quoted. -/
def names (d : Dialect) : Regex :=
  dotted unquoted unquoted ||| dotted d.quoted unquoted
    ||| dotted unquoted d.quoted ||| dotted d.quoted d.quoted

/-- A reference: an arrow, the names, and then a space or the end of the text. -/
def reference (d : Dialect) : Regex :=
  .start ++ .plain "-> " ++ .group d.names ++ .group (.plain " " ||| .finish)

/-- One identifier, bare or quoted. -/
def identifier (d : Dialect) : Regex := d.quoted ||| unquoted

def unquotedPattern : Text := unquoted.text

example : unquotedPattern = "([0-9a-zA-Z$_\\x\x7b0080\x7d-\\x\x7bFFFF\x7d]+)".toList := by decide

def quotedPattern (d : Dialect) : Text := d.quoted.text

def referencePattern (d : Dialect) : Text := d.reference.text

def identifierPattern (d : Dialect) : Text := d.identifier.text

end Dialect

inductive Source
  | mySQL
deriving Repr, DecidableEq

namespace Source

def all : List Source := [.mySQL]

def dialect : Source → Dialect
  | .mySQL => .mySQL

def name (s : Source) : Text := s.dialect.name

/-- The source of a given name. Case matters. -/
def ofName? (name : Text) : Option Source := all.find? fun s => s.name == name

end Source
end SchemaScript
