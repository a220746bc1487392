/- What can be wrong with a document. Reading stops at the first fault. -/
import SchemaScript.Column.Keyword

namespace SchemaScript.Document

inductive NameRole
  | table
  | column
  | definition
deriving Repr, DecidableEq

def NameRole.text : NameRole → Text
  | .table => "table name"
  | .column => "column name"
  | .definition => "definition name"

inductive Section
  | definitions
  | tables
deriving Repr, DecidableEq

def Section.key : Section → Text
  | .definitions => "definitions"
  | .tables => "tables"

/-- Ways in which a document does not have the shape of one. -/
inductive Misshape
  | root
  | sectionNotMapping (at_ : Section)
  | compositeNotSequence
  | compositeEntryNotString
  | invalidName (role : NameRole)
  | definitionNotString (name : Text)
  | tableNotMapping (table : Text)
  | columnNotString (table column : Text)
deriving Repr, DecidableEq

inductive Fault
  /-- The text cannot be decoded. -/
  | notYaml
  | misshapen (shape : Misshape)
  | missingDatabaseName
  | unsupportedSource (name : Text)
  | unknownIndexKeyword (word : Text)
  | missingCompositeIdentifiers (entry : Text)
  | duplicateIndex (table : Text) (kind : IndexKind)
  | missingColumnDefinition (table column : Text)
  | expansionOverflow (table column : Text) (limit : Nat)
  | referenceSyntax (table column : Text)
  | duplicateAutoIncrement (table : Text)
  | emptyColumn (table column : Text)
  | duplicatePrimaryKey (table : Text)
deriving Repr, DecidableEq

def shown (name : Text) : Text := '\x60' :: name ++ ['\x60']

def shownColumn (table column : Text) : Text := shown table ++ '.' :: shown column

/-- What a message says about a misshapen part; nothing about the whole document. -/
def Misshape.detail : Misshape → Option Text
  | .root => none
  | .sectionNotMapping s => some (shown s.key ++ " must be a mapping".toList)
  | .compositeNotSequence => some (shown "composite" ++ " must be a sequence".toList)
  | .compositeEntryNotString => some (shown "composite" ++ " entries must be strings".toList)
  | .invalidName role => some ("invalid ".toList ++ role.text)
  | .definitionNotString name => some ("definition ".toList ++ shown name ++ " must be a string".toList)
  | .tableNotMapping table =>
      some ("table ".toList ++ shown table ++ " must be a mapping of columns".toList)
  | .columnNotString table column =>
      some ("column ".toList ++ shownColumn table column ++ " must be a string".toList)

namespace Fault

def kind : Fault → Text
  | .notYaml => "Yaml"
  | .misshapen _ => "InvalidFormat"
  | .missingDatabaseName => "MissingDatabaseName"
  | .unsupportedSource _ => "UnsupportedSource"
  | .unknownIndexKeyword _ => "UnknownIndexKeyword"
  | .missingCompositeIdentifiers _ => "MissingCompositeIdentifiers"
  | .duplicateIndex .. => "DuplicateIndex"
  | .missingColumnDefinition .. => "MissingColumnDefinition"
  | .expansionOverflow .. => "MacroExpansionOverflow"
  | .referenceSyntax .. => "ForeignKeySyntaxError"
  | .duplicateAutoIncrement _ => "DuplicateAutoIncrement"
  | .emptyColumn .. => "EmptyColumn"
  | .duplicatePrimaryKey _ => "DuplicatePrimaryKey"

def message : Fault → Text
  | .notYaml => "YASQL is not valid YAML: the text cannot be decoded"
  | .misshapen shape =>
      match shape.detail with
      | none => "YASQL must be a mapping"
      | some detail => "YASQL must be a mapping: ".toList ++ detail
  | .missingDatabaseName => "Database needs a name"
  | .unsupportedSource name => "Unsupported source '".toList ++ name ++ ['\'']
  | .unknownIndexKeyword word => "Unknown index '".toList ++ word ++ ['\'']
  | .missingCompositeIdentifiers entry =>
      "Missing identifiers in composite '".toList ++ entry ++ ['\'']
  | .duplicateIndex table kind =>
      "Duplicated composite for single column key ".toList ++ kind.keyword ++ " on table ".toList
        ++ shown table
  | .missingColumnDefinition table column =>
      "Missing column definition in ".toList ++ shownColumn table column
  | .expansionOverflow table column limit =>
      "Definitions expanded more than ".toList ++ Text.ofNat limit ++ " times in ".toList
        ++ shownColumn table column
  | .referenceSyntax table column =>
      "Syntax error in Foreign Key on column ".toList ++ shownColumn table column
  | .duplicateAutoIncrement table => "Multiple AUTO_INCREMENT on table ".toList ++ shown table
  | .emptyColumn table column => "Column ".toList ++ shownColumn table column ++ " is empty".toList
  | .duplicatePrimaryKey table => "Multiple PRIMARY KEY on table ".toList ++ shown table

end Fault
end SchemaScript.Document
