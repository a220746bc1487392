/- Schemas: a database with its tables, columns, indexes and foreign keys. -/
import SchemaScript.Dialect

namespace SchemaScript

/-- Descriptive texts about a database, none of which changes its tables. -/
structure Metadata where
  project : Option Text := none
  description : Option Text := none
  version : Option Text := none
  license : Option Text := none
  authors : List Text := []
deriving Repr, DecidableEq

def Metadata.isEmpty (m : Metadata) : Bool :=
  m.project.isNone && m.description.isNone && m.version.isNone && m.license.isNone
    && m.authors.isEmpty

structure Database where
  name : Text
  source : Source
  charset : Text
  collate : Text
  metadata : Metadata := {}
deriving Repr, DecidableEq

structure Column where
  name : Text
  definition : Text
deriving Repr, DecidableEq

/-- The indexes of a table. An empty primary key differs from none. -/
structure IndexSet where
  primary : Option (List Text) := none
  unique : List (List Text) := []
deriving Repr, DecidableEq

def IndexSet.isEmpty (s : IndexSet) : Bool := s.primary.isNone && s.unique.isEmpty

structure Reference where
  table : Text
  column : Text
deriving Repr, DecidableEq

structure ForeignKey where
  column : Text
  references : Reference
deriving Repr, DecidableEq

structure Table where
  name : Text
  columns : List Column
  indexes : IndexSet := {}
  foreignKeys : List ForeignKey := []
  /-- The name of the column that counts up by itself. -/
  autoIncrement : Option Text := none
deriving Repr, DecidableEq

/-- The first column of a given name. -/
def Table.column? (t : Table) (name : Text) : Option Column :=
  t.columns.find? fun c => c.name == name

/-- A database with its tables, in the order of the document. -/
structure Schema where
  database : Database
  tables : List Table
deriving Repr, DecidableEq

/-- The first table of a given name. -/
def Schema.table? (s : Schema) (name : Text) : Option Table :=
  s.tables.find? fun t => t.name == name

end SchemaScript
