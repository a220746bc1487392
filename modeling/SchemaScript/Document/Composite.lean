/- Composite indexes: the entries that name a table and several of its columns. -/
import SchemaScript.Document.Fault
import SchemaScript.Identifier.Basic
import SchemaScript.Schema.Basic
import SchemaScript.Value

namespace SchemaScript.Document

/-- An index over columns of one table. -/
structure Composite where
  kind : IndexKind
  table : Text
  columns : List Text
deriving Repr, DecidableEq

namespace Composite

/-- The first word of a text and what follows the blank behind it. -/
def firstWord (t : Text) : Text × Text :=
  (Text.cutAtBlank? t).getD (t, [])

/-- Leaves out the word `KEY` where it stands first. -/
def afterKey (t : Text) : Text :=
  match Text.cutAtBlank? t with
  | some (word, rest) => if Text.sameIgnoringCase word "KEY" then rest else t
  | none => if Text.sameIgnoringCase t "KEY" then [] else t

/-- Reads an entry: an index keyword, `KEY` if it is there, a table and one column or more. -/
def read (entry : Text) : Except Fault Composite :=
  let (word, rest) := firstWord (Text.trimStart entry)
  match IndexKind.ofKeyword? word with
  | none => .error (.unknownIndexKeyword word)
  | some kind =>
      match Identifier.all (afterKey (Text.trimStart rest)) with
      | table :: column :: columns => .ok { kind, table, columns := column :: columns }
      | _ => .error (.missingCompositeIdentifiers entry)

/-- Reads entries in order. `filled` are the tables that have a primary key from an earlier entry;
a second one for the same table is a fault. -/
def readEntries (filled : List Text) : List Value → Except Fault (List Composite)
  | [] => .ok []
  | entry :: rest => do
      let some text := entry.text? | .error (.misshapen .compositeEntryNotString)
      let composite ← read text
      match composite.kind.slots with
      | .multiple => return composite :: (← readEntries filled rest)
      | .single =>
          if filled.contains composite.table then
            .error (.duplicateIndex composite.table composite.kind)
          else return composite :: (← readEntries (composite.table :: filled) rest)

/-- The entries of a `composite` section, which may be missing or null. -/
def readSection : Option Value → Except Fault (List Composite)
  | none | some .null => .ok []
  | some (.sequence entries) => readEntries [] entries
  | some _ => .error (.misshapen .compositeNotSequence)

def indexesOf (table : Text) (composites : List Composite) : IndexSet :=
  let own := composites.filter fun c => c.table == table
  { primary := (own.find? fun c => c.kind == .primary).map (·.columns)
    unique := (own.filter fun c => c.kind == .unique).map (·.columns) }

end Composite
end SchemaScript.Document
