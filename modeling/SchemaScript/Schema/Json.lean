/- Schemas as JSON. Parts that are empty are left out, and are empty again where they are missing. -/
import SchemaScript.Json.Record
import SchemaScript.Schema.Basic

namespace SchemaScript

/-- A member, unless there is nothing to write. -/
def Json.memberUnless (absent : Bool) (name : Text) (value : Json) : List (Text × Json) :=
  if absent then [] else [(name, value)]

def Json.textMember (name : Text) : Option Text → List (Text × Json)
  | none => []
  | some t => [(name, .string t)]

def Json.ofTexts (ts : List Text) : Json := .array (ts.map .string)

namespace Metadata

def toJson (m : Metadata) : Json := .object
  (Json.textMember "project" m.project ++ Json.textMember "description" m.description
    ++ Json.textMember "version" m.version ++ Json.textMember "license" m.license
    ++ Json.memberUnless m.authors.isEmpty "authors" (Json.ofTexts m.authors))

def fields : List Text := ["project", "description", "version", "license", "authors"]

def ofJson? (v : Json) : Option Metadata := do
  let r ← Json.Record.of? fields v
  let project ← r.nullable 0 "project" Json.string?
  let description ← r.nullable 1 "description" Json.string?
  let version ← r.nullable 2 "version" Json.string?
  let license ← r.nullable 3 "license" Json.string?
  let authors ← r.defaulted 4 "authors" (Json.list? Json.string?) []
  some { project, description, version, license, authors }

end Metadata

/-- A source by its name, or as the only member of an object with nothing in it. -/
def Source.ofJson? : Json → Option Source
  | .string name => Source.ofName? name
  | .object [(name, .null)] => Source.ofName? name
  | _ => none

namespace Database

def toJson (d : Database) : Json := .object
  ([("name".toList, .string d.name), ("source".toList, .string d.source.name),
      ("charset".toList, .string d.charset), ("collate".toList, .string d.collate)]
    ++ Json.memberUnless d.metadata.isEmpty "metadata" d.metadata.toJson)

def fields : List Text := ["name", "source", "charset", "collate", "metadata"]

def ofJson? (v : Json) : Option Database := do
  let r ← Json.Record.of? fields v
  let name ← r.required 0 "name" Json.string?
  let source ← r.required 1 "source" Source.ofJson?
  let charset ← r.required 2 "charset" Json.string?
  let collate ← r.required 3 "collate" Json.string?
  let metadata ← r.defaulted 4 "metadata" Metadata.ofJson? {}
  some { name, source, charset, collate, metadata }

end Database

namespace Column

def toJson (c : Column) : Json := .object
  [("name".toList, .string c.name), ("definition".toList, .string c.definition)]

def fields : List Text := ["name", "definition"]

def ofJson? (v : Json) : Option Column := do
  let r ← Json.Record.of? fields v
  let name ← r.required 0 "name" Json.string?
  let definition ← r.required 1 "definition" Json.string?
  some { name, definition }

end Column

namespace IndexSet

def toJson (s : IndexSet) : Json := .object
  ((match s.primary with
    | none => []
    | some columns => [("primary".toList, Json.ofTexts columns)])
    ++ Json.memberUnless s.unique.isEmpty "unique" (.array (s.unique.map Json.ofTexts)))

def fields : List Text := ["primary", "unique"]

def ofJson? (v : Json) : Option IndexSet := do
  let r ← Json.Record.of? fields v
  let primary ← r.nullable 0 "primary" (Json.list? Json.string?)
  let unique ← r.defaulted 1 "unique" (Json.list? (Json.list? Json.string?)) []
  some { primary, unique }

end IndexSet

namespace Reference

def toJson (r : Reference) : Json := .object
  [("table".toList, .string r.table), ("column".toList, .string r.column)]

def fields : List Text := ["table", "column"]

def ofJson? (v : Json) : Option Reference := do
  let r ← Json.Record.of? fields v
  let table ← r.required 0 "table" Json.string?
  let column ← r.required 1 "column" Json.string?
  some { table, column }

end Reference

namespace ForeignKey

def toJson (k : ForeignKey) : Json := .object
  [("column".toList, .string k.column), ("references".toList, k.references.toJson)]

def fields : List Text := ["column", "references"]

def ofJson? (v : Json) : Option ForeignKey := do
  let r ← Json.Record.of? fields v
  let column ← r.required 0 "column" Json.string?
  let references ← r.required 1 "references" Reference.ofJson?
  some { column, references }

end ForeignKey

namespace Table

def toJson (t : Table) : Json := .object
  ([("name".toList, .string t.name), ("columns".toList, .array (t.columns.map (·.toJson)))]
    ++ Json.memberUnless t.indexes.isEmpty "indexes" t.indexes.toJson
    ++ Json.memberUnless t.foreignKeys.isEmpty "foreign_keys"
        (.array (t.foreignKeys.map (·.toJson)))
    ++ Json.textMember "auto_increment" t.autoIncrement)

def fields : List Text := ["name", "columns", "indexes", "foreign_keys", "auto_increment"]

def ofJson? (v : Json) : Option Table := do
  let r ← Json.Record.of? fields v
  let name ← r.required 0 "name" Json.string?
  let columns ← r.required 1 "columns" (Json.list? Column.ofJson?)
  let indexes ← r.defaulted 2 "indexes" IndexSet.ofJson? {}
  let foreignKeys ← r.defaulted 3 "foreign_keys" (Json.list? ForeignKey.ofJson?) []
  let autoIncrement ← r.nullable 4 "auto_increment" Json.string?
  some { name, columns, indexes, foreignKeys, autoIncrement }

end Table

namespace Schema

def toJson (s : Schema) : Json := .object
  [("database".toList, s.database.toJson), ("tables".toList, .array (s.tables.map (·.toJson)))]

def fields : List Text := ["database", "tables"]

def ofJson? (v : Json) : Option Schema := do
  let r ← Json.Record.of? fields v
  let database ← r.required 0 "database" Database.ofJson?
  let tables ← r.required 1 "tables" (Json.list? Table.ofJson?)
  some { database, tables }

end Schema
end SchemaScript
