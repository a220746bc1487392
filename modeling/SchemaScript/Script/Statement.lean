/- The statements of a script, one block each. -/
import SchemaScript.Script.Header

namespace SchemaScript.Script

def maxIndent : Nat := 64

def defaultIndent : Nat := 2

/-- The indentation for a requested width: none, a negative one and one that is too wide give the
default. -/
def resolveIndent : Option Int → Nat
  | none => defaultIndent
  | some width => if 0 ≤ width ∧ width ≤ maxIndent then width.toNat else defaultIndent

/-- How statements are written: the quotes of identifiers and the indentation. -/
structure Style where
  dialect : Dialect
  indent : Nat

namespace Style

def pad (s : Style) : Text := Text.spaces s.indent

def columnList (s : Style) (columns : List Text) : Text :=
  Text.join [',', ' '] (columns.map s.dialect.quote)

def createDatabase (s : Style) (db : Database) : Block :=
  ["CREATE DATABASE IF NOT EXISTS ".toList ++ s.dialect.quote db.name,
    s.pad ++ "CHARACTER SET ".toList ++ db.charset,
    s.pad ++ "COLLATE ".toList ++ db.collate ++ [';']]

def useDatabase (s : Style) (db : Database) : Block :=
  ["USE ".toList ++ s.dialect.quote db.name ++ [';']]

def columnLine (s : Style) (c : Column) : Text :=
  s.pad ++ s.dialect.quote c.name ++ ' ' :: c.definition

def createTable (s : Style) (charset : Text) (t : Table) : Block :=
  ("CREATE TABLE ".toList ++ s.dialect.quote t.name ++ " (".toList)
    :: endLines [] [','] (t.columns.map s.columnLine)
    ++ [") CHARACTER SET ".toList ++ charset ++ [';']]

/-- A change of a table, with commas behind its lines and a semicolon behind the last. -/
def alterTable (s : Style) (t : Table) (changes : Block) : Block :=
  ("ALTER TABLE ".toList ++ s.dialect.quote t.name) :: endLines [';'] [','] changes

def primaryLine (s : Style) (columns : List Text) : Text :=
  s.pad ++ "ADD PRIMARY KEY (".toList ++ s.columnList columns ++ [')']

def uniqueLine (s : Style) (columns : List Text) : Text :=
  s.pad ++ "ADD UNIQUE KEY (".toList ++ s.columnList columns ++ [')']

def addIndexes? (s : Style) (t : Table) : Option Block :=
  if t.indexes.isEmpty then none
  else some (s.alterTable t
    (t.indexes.primary.toList.map s.primaryLine ++ t.indexes.unique.map s.uniqueLine))

def countingLine (s : Style) (c : Column) : Text :=
  s.pad ++ "MODIFY ".toList ++ s.dialect.quote c.name ++ ' ' :: c.definition
    ++ " AUTO_INCREMENT".toList

def addAutoIncrement? (s : Style) (t : Table) : Option Block :=
  (t.autoIncrement.bind t.column?).map fun c => s.alterTable t [s.countingLine c]

def foreignKeyLine (s : Style) (k : ForeignKey) : Text :=
  s.pad ++ "ADD FOREIGN KEY (".toList ++ s.dialect.quote k.column ++ ") REFERENCES ".toList
    ++ s.dialect.quote k.references.table ++ " (".toList ++ s.dialect.quote k.references.column
    ++ [')']

def addForeignKeys? (s : Style) (t : Table) : Option Block :=
  if t.foreignKeys.isEmpty then none else some (s.alterTable t (t.foreignKeys.map s.foreignKeyLine))

/-- The blocks behind the header. Tables come before every change of one. -/
def statements (s : Style) (schema : Schema) : Script :=
  [s.createDatabase schema.database, s.useDatabase schema.database]
    ++ titled "Tables" (schema.tables.map (s.createTable schema.database.charset))
    ++ titled "Indexes" (schema.tables.filterMap s.addIndexes?)
    ++ titled "AUTO_INCREMENT" (schema.tables.filterMap s.addAutoIncrement?)
    ++ titled "Foreigns" (schema.tables.filterMap s.addForeignKeys?)

end Style

def ofSchema (time : Timestamp) (indent : Nat) (schema : Schema) : Script :=
  header time schema.database.metadata
    :: Style.statements { dialect := schema.database.source.dialect, indent } schema

def render (time : Timestamp) (indent : Nat) (schema : Schema) : Text :=
  (ofSchema time indent schema).text

end SchemaScript.Script
