/- The words that a column text and an index entry give a meaning to, in any letter case. -/
import SchemaScript.Text.Ascii

namespace SchemaScript

inductive IndexKind
  | primary
  | unique
deriving Repr, DecidableEq

namespace IndexKind

def all : List IndexKind := [.primary, .unique]

/-- The keyword in the spelling that messages use. -/
def keyword : IndexKind → Text
  | .primary => "PRIMARY"
  | .unique => "UNIQUE"

inductive Slots
  | single
  | multiple
deriving Repr, DecidableEq

/-- A table has at most one primary key and any number of unique keys. -/
def slots : IndexKind → Slots
  | .primary => .single
  | .unique => .multiple

def ofKeyword? (word : Text) : Option IndexKind :=
  all.find? fun kind => Text.sameIgnoringCase kind.keyword word

end IndexKind

namespace Column

/-- The words that open the trailing clause of a column, which is kept as it was written. -/
def trailingKeywords : List Text :=
  ["DEFAULT", "COMMENT", "COLUMN_FORMAT", "STORAGE", "REFERENCES"]

def opensTrailing (token : Text) : Bool :=
  trailingKeywords.any (Text.sameIgnoringCase token)

/-- Type names that mark a column as numeric, wherever they stand in its type. -/
def numericTypes : List Text :=
  ["tinyint", "smallint", "mediumint", "int", "integer", "bigint",
   "real", "double", "float", "decimal", "numeric"]

/-- A type is numeric when it contains a numeric type name: `int4` and `BIGINT(20)` are. -/
def isNumericType (token : Text) : Bool :=
  numericTypes.any fun name => Text.occursIn name (Text.lower token)

end Column
end SchemaScript
