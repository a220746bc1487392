/- Tables: their columns are read in order, each by itself, and then put together. -/
import SchemaScript.Column.Spec
import SchemaScript.Document.Composite
import SchemaScript.Document.Definitions
import SchemaScript.Identifier.Reference

namespace SchemaScript.Document

/-- A column text taken apart: the reference in it, if any, and the specification around it. -/
structure ColumnReading where
  name : Text
  reference : Option Reference
  spec : Column.Spec
deriving Repr, DecidableEq

namespace ColumnReading

def column (c : ColumnReading) : Column := { name := c.name, definition := c.spec.render }

def foreignKey? (c : ColumnReading) : Option ForeignKey :=
  c.reference.map fun references => { column := c.name, references }

end ColumnReading

/-- Takes the reference at the first arrow out of a column text; nothing if what follows the arrow
is no reference. A text without an arrow has no reference and stays as it is. -/
def takeReference? (t : Text) : Option (Option Reference × Text) :=
  match Text.cutBefore? Reference.arrow t with
  | none => some (none, t)
  | some (before, fromArrow) =>
      (Reference.read? fromArrow).map fun (reference, rest) => (some reference, before ++ rest)

/-- The text of a column, trimmed. A sequence or a mapping is none; a value without a text has a
blank one. -/
def columnText (table column : Text) : Value → Except Fault Text
  | .sequence _ | .mapping _ => .error (.misshapen (.columnNotString table column))
  | value =>
      let text := Text.trim (value.text?.getD [])
      if text.isEmpty then .error (.missingColumnDefinition table column) else .ok text

/-- Reads one column by itself: name, text, expansion, reference, specification. -/
def readColumn (defs : Definitions) (table : Text) (key raw : Value) :
    Except Fault ColumnReading := do
  let name ← nameOf .column key
  let text ← columnText table name raw
  let some expanded := defs.expand? text
    | .error (.expansionOverflow table name Definitions.limit)
  let some (reference, rest) := takeReference? expanded | .error (.referenceSyntax table name)
  return { name, reference, spec := Column.scan rest }

/-- Reads columns in order. A second column that counts up by itself is a fault, and so is a column
without a type; `counting` says whether an earlier column counts up. -/
def readColumns (defs : Definitions) (table : Text) (counting : Bool) :
    List (Value × Value) → Except Fault (List ColumnReading)
  | [] => .ok []
  | (key, raw) :: rest => do
      let column ← readColumn defs table key raw
      if counting && column.spec.autoIncrement then .error (.duplicateAutoIncrement table)
      else if column.spec.dataType.isEmpty then .error (.emptyColumn table column.name)
      else
        let columns ← readColumns defs table (counting || column.spec.autoIncrement) rest
        return column :: columns

def markedPrimary (columns : List ColumnReading) : List Text :=
  (columns.filter (·.spec.primary)).map (·.name)

/-- The columns marked as unique, each an index of its own. -/
def markedUnique (columns : List ColumnReading) : List (List Text) :=
  (columns.filter (·.spec.unique)).map fun c => [c.name]

/-- Puts a table together from its composite indexes and its columns. A table has its primary key
from one of the two. -/
def assemble (name : Text) (composite : IndexSet) (columns : List ColumnReading) :
    Except Fault Table :=
  let marked := markedPrimary columns
  if !marked.isEmpty && composite.primary.isSome then .error (.duplicatePrimaryKey name)
  else .ok
    { name
      columns := columns.map (·.column)
      indexes :=
        { primary := if marked.isEmpty then composite.primary else some marked
          unique := composite.unique ++ markedUnique columns }
      foreignKeys := columns.filterMap (·.foreignKey?)
      autoIncrement := (columns.find? (·.spec.autoIncrement)).map (·.name) }

/-- The entries of a table, which may be null. -/
def tableEntries (name : Text) : Value → Except Fault (List (Value × Value))
  | .null => .ok []
  | .mapping entries => .ok entries
  | _ => .error (.misshapen (.tableNotMapping name))

def readTable (defs : Definitions) (composite : IndexSet) (name : Text) (columns : Value) :
    Except Fault Table := do
  let entries ← tableEntries name columns
  assemble name composite (← readColumns defs name false entries)

/-- Reads tables in order. The composite entries of a name go to the first table of that name. -/
def readTables (defs : Definitions) (composites : List Composite) :
    List (Value × Value) → Except Fault (List Table)
  | [] => .ok []
  | (key, columns) :: rest => do
      let name ← nameOf .table key
      let table ← readTable defs (Composite.indexesOf name composites) name columns
      let tables ← readTables defs (composites.filter fun c => c.table != name) rest
      return table :: tables

end SchemaScript.Document
