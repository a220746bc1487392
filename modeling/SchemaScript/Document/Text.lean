/- Reading a document: from its text, or from a decoded value, to a schema. -/
import SchemaScript.Document.Table
import SchemaScript.Yaml.Decode

namespace SchemaScript

namespace Document

def defaultCharset : Text := "utf8"

def defaultCollate : Text := "utf8_general_ci"

/-- The authors: the texts of a sequence, or the text of a scalar. -/
def readAuthors : Option Value → List Text
  | none => []
  | some (.sequence authors) => authors.filterMap (·.text?)
  | some author => author.text?.toList

/-- Reads the database section. Only its name is required. -/
def readDatabase (root : List (Value × Value)) : Except Fault Database := do
  let entries := ((Value.field? "database" root).bind (·.entries?)).getD []
  let field (key : Text) : Option Text := (Value.field? key entries).bind (·.text?)
  let some name := field "name" | .error .missingDatabaseName
  let source ←
    match field "source" with
    | none => pure Source.mySQL
    | some tag =>
        match Source.ofName? tag with
        | some source => pure source
        | none => .error (.unsupportedSource tag)
  return {
    name
    source
    charset := (field "charset").getD defaultCharset
    collate := (field "collate").getD defaultCollate
    metadata := {
      project := field "project"
      description := field "description"
      version := field "version"
      license := field "license"
      authors := readAuthors (Value.field? "authors" entries) } }

def rootEntries (document : Value) : Except Fault (List (Value × Value)) :=
  match document.entries? with
  | some entries => .ok entries
  | none => .error (.misshapen .root)

/-- Reads a document: its root, its database, its composite indexes, its definitions and then its
tables. The first fault on this way is the answer. -/
def read (document : Value) : Except Fault Schema := do
  let root ← rootEntries document
  let database ← readDatabase root
  let composites ← Composite.readSection (Value.field? "composite" root)
  let definitions ← Definitions.read root
  let entries ← sectionEntries .tables root
  let tables ← readTables definitions composites entries
  return { database, tables }

end Document

def Schema.ofText (t : Text) : Except Document.Fault Schema :=
  match Yaml.decode? t with
  | some v => Document.read v
  | none => .error .notYaml

end SchemaScript
