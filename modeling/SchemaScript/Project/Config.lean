/- Build configurations: the databases of a project, and the vendors whose databases come along. -/
import SchemaScript.Decimal.Basic
import SchemaScript.Text.Hidden
import SchemaScript.Yaml.Decode

namespace SchemaScript.Project

/-- A database to build: the path of its document or a pattern for several, and the scripts that are
put behind each. -/
structure DatabaseEntry where
  path : Text
  post : List Text := []
deriving Repr, DecidableEq

/-- A vendor, and the configurations to build of it. None stands for the default one. -/
structure Vendor where
  name : Text
  configs : List (Option Text)
deriving Repr, DecidableEq

structure Config where
  /-- Any value; only an integer counts. -/
  indentation : Option Value := none
  databases : Option (List DatabaseEntry) := none
  /-- Vendors as they are written, looked at only when they are needed. -/
  vendors : Option (List (Value × Value)) := none

/-- What can be wrong with an entry of vendors. -/
inductive VendorFault
  | name (key : Value)
  | configs (vendor : Text)

/-- A scalar that is a key is shown without its kind. -/
def bareKey? : Value → Option Text
  | .bool b => some (if b then "true" else "false")
  | .integer i => some (Text.ofInt i)
  | .float x => some x.text
  | .string t => some (Text.diagnostic t)
  | _ => none

mutual

/-- A value in a diagnostic, with the kind of each part. -/
def diagnostic : Value → Text
  | .null => "Null"
  | .bool b => "Bool(".toList ++ (if b then "true" else "false").toList ++ [')']
  | .integer i => "Number(".toList ++ Text.ofInt i ++ [')']
  | .float x => "Number(".toList ++ x.text ++ [')']
  | .string t => "String(".toList ++ Text.diagnostic t ++ [')']
  | .sequence items => "Sequence [".toList ++ diagnosticItems items ++ [']']
  | .mapping entries => "Mapping \x7b".toList ++ diagnosticEntries entries ++ ['\x7d']
  | .tagged tag v =>
      "TaggedValue \x7b tag: !".toList ++ Value.tagName tag ++ ", value: ".toList ++ diagnostic v
        ++ " \x7d".toList

def diagnosticItems : List Value → Text
  | [] => []
  | [item] => diagnostic item
  | item :: next :: rest => diagnostic item ++ ", ".toList ++ diagnosticItems (next :: rest)

def diagnosticEntries : List (Value × Value) → Text
  | [] => []
  | [(k, v)] => (bareKey? k).getD (diagnostic k) ++ ": ".toList ++ diagnostic v
  | (k, v) :: next :: rest =>
      (bareKey? k).getD (diagnostic k) ++ ": ".toList ++ diagnostic v ++ ", ".toList
        ++ diagnosticEntries (next :: rest)

end

def VendorFault.message : VendorFault → Text
  | .name key => "Invalid vendor name: ".toList ++ diagnostic key
  | .configs vendor =>
      "Invalid configs for vendor '".toList ++ vendor ++ "': not a text or a list of texts".toList

def stringOf? : Value → Option Text
  | .string t => some t
  | _ => none

def oneOrMany? : Value → Option (List Text)
  | .string t => some [t]
  | .sequence items => items.mapM stringOf?
  | _ => none

namespace DatabaseEntry

/-- The scripts behind a database; null stands for none. -/
def post? : Value → Option (List Text)
  | .null => some []
  | v => oneOrMany? v

inductive Field
  | path
  | post
  | other
deriving DecidableEq

/-- A field is named by its word, or by its number. -/
def field? : Value → Option Field
  | .string t =>
      if t == "path".toList then some .path else if t == "post".toList then some .post else some .other
  | .integer i =>
      if i < 0 then none else if i = 0 then some .path else if i = 1 then some .post else some .other
  | _ => none

/-- Reads fields in order; `path` and `post` at most once each. -/
def readFields (path : Option Text) (post : Option (List Text)) :
    List (Value × Value) → Option DatabaseEntry
  | [] => path.map fun path => { path, post := post.getD [] }
  | (key, value) :: rest => do
      match ← field? key with
      | .path => if path.isSome then none else readFields (some (← stringOf? value)) post rest
      | .post => if post.isSome then none else readFields path (some (← post? value)) rest
      | .other => readFields path post rest

/-- An entry is a path, or a mapping of its fields. -/
def ofValue? : Value → Option DatabaseEntry
  | .string path => some { path }
  | .mapping fields => readFields none none fields
  | _ => none

end DatabaseEntry

mutual

/-- A tag stands somewhere in a value. -/
def hasTag : Value → Bool
  | .tagged .. => true
  | .sequence items => hasTagIn items
  | .mapping entries => hasTagInEntries entries
  | _ => false

def hasTagIn : List Value → Bool
  | [] => false
  | v :: rest => hasTag v || hasTagIn rest

def hasTagInEntries : List (Value × Value) → Bool
  | [] => false
  | (k, v) :: rest => hasTag k || hasTag v || hasTagInEntries rest

end

namespace Config

open Yaml

/-- How deep collections may stand inside a field of a configuration. -/
def fieldDepth : Nat := Document.depthLimit - 1

/-- A zero behind a minus sign. It is an integer, and yet the number of no field. -/
def isMinusZero (d : Document) (n : Node) : Bool :=
  match d.target n with
  | .scalar p plain ('-' :: digits) =>
      match scalarValue? p.tag plain ('-' :: digits) with
      | some (.integer i) => i == 0
      | _ => false
  | _ => false

/-- A mapping with such a zero as a key. -/
def hasMinusZeroKey (d : Document) (n : Node) : Bool :=
  match d.target n with
  | .mapping _ entries => entries.any fun (key, _) => isMinusZero d key
  | _ => false

def readDatabase (d : Document) (n : Node) : Decoder DatabaseEntry := do
  let v ← d.valueOf .any (fieldDepth - 1) n
  if hasTag v || hasMinusZeroKey d n then failure
  match DatabaseEntry.ofValue? v with
  | some entry => return entry
  | none => failure

def readDatabases (d : Document) (n : Node) : Decoder (List DatabaseEntry) := do
  (← d.itemsAt n).mapM (readDatabase d)

def readVendors (d : Document) (n : Node) : Decoder (List (Value × Value)) := do
  Document.entriesWith .distinct (d.valueOf .distinct (fieldDepth - 1)) [] (← d.entriesAt n)

inductive Field
  | indentation
  | databases
  | vendors
deriving DecidableEq

def field? (name : Text) : Option Field :=
  if name == "indentation".toList then some .indentation
  else if name == "databases".toList then some .databases
  else if name == "vendors".toList then some .vendors
  else none

/-- Reads fields in order, each at most once. Other entries are passed over. -/
def readFields (d : Document) (seen : List Field) (c : Config) :
    List (Node × Node) → Decoder Config
  | [] => return c
  | (key, value) :: rest => do
      match field? (← d.textAt key) with
      | none => readFields d seen c rest
      | some field => do
          if seen.contains field then failure
          let c ← match field with
            | .indentation => do
                pure { c with indentation := ← d.optionalAt (d.valueOf .distinct fieldDepth) value }
            | .databases => do
                pure { c with databases := ← d.optionalAt (readDatabases d) value }
            | .vendors => do
                pure { c with vendors := ← d.optionalAt (readVendors d) value }
          readFields d (field :: seen) c rest

/-- Reads a mapping of fields; nothing at all is the configuration without any. -/
def readRoot (d : Document) (n : Node) : Decoder Config := do
  return (← d.optionalAt (fun n => do readFields d [] {} (← d.entriesAt n)) n).getD {}

def read? (t : Text) : Option Config := do
  let d ← Yaml.document? t
  match d.root with
  | none => some {}
  | some n => ((readRoot d n).run 0).map (·.1)

/-- The requested indentation: an integer of sixty-four bits with a sign. -/
def indent (c : Config) : Option Int :=
  (c.indentation.bind (·.integer?)).filter (fitsSigned 64)

/-- A vendor in an entry: a name, and its configurations; null stands for the default one. -/
def vendorOf (key value : Value) : Except VendorFault Vendor :=
  match key.string? with
  | none => .error (.name key)
  | some name =>
      match value with
      | .null => .ok { name, configs := [none] }
      | value =>
          match oneOrMany? value with
          | some configs => .ok { name, configs := configs.map some }
          | none => .error (.configs name)

/-- The vendors in order, or the first fault. -/
def vendorEntries (c : Config) : Except VendorFault (List Vendor) :=
  (c.vendors.getD []).mapM fun (key, value) => vendorOf key value

end Config
end SchemaScript.Project
