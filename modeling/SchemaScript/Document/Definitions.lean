/- Definitions: names that stand for the beginning of a column text. -/
import SchemaScript.Document.Fault
import SchemaScript.Text.Blank
import SchemaScript.Value

namespace SchemaScript.Document

/-- Names with the text that each stands for. A name occurs once. -/
abbrev Definitions := List (Text × Text)

def nameOf (role : NameRole) (key : Value) : Except Fault Text :=
  match key.text? with
  | some name => .ok name
  | none => .error (.misshapen (.invalidName role))

/-- The entries of a mapping section, which may be missing or null. -/
def sectionEntries (s : Section) (root : List (Value × Value)) :
    Except Fault (List (Value × Value)) :=
  match Value.field? s.key root with
  | none | some .null => .ok []
  | some (.mapping entries) => .ok entries
  | some _ => .error (.misshapen (.sectionNotMapping s))

namespace Definitions

def lookup? (defs : Definitions) (name : Text) : Option Text :=
  (defs.find? fun d => d.1 == name).map (·.2)

/-- Gives a name its text, instead of any that it had. -/
def insert (defs : Definitions) (name text : Text) : Definitions :=
  (name, text) :: defs.filter fun d => d.1 != name

/-- Reads entries in order; a later entry with the same name takes the place of an earlier one. -/
def readEntries (defs : Definitions) : List (Value × Value) → Except Fault Definitions
  | [] => .ok defs
  | (key, value) :: rest => do
      let name ← nameOf .definition key
      let some text := value.text? | .error (.misshapen (.definitionNotString name))
      readEntries (defs.insert name (Text.trim text)) rest

def read (root : List (Value × Value)) : Except Fault Definitions := do
  readEntries [] (← sectionEntries .definitions root)

/-- Puts the text of a definition in the place of the first word, if that names one. What follows
the first word stays as it is, behind one space. -/
def substitute? (defs : Definitions) (t : Text) : Option Text :=
  match Text.cutAtBlank? t with
  | none => defs.lookup? t
  | some (word, rest) => (defs.lookup? word).map fun text => text ++ ' ' :: rest

def limit : Nat := 64

/-- Substitutes until the first word names no definition; nothing if a number of substitutions
does not lead there. -/
def expandWithin (defs : Definitions) : (substitutions : Nat) → Text → Option Text
  | 0, t =>
      match defs.substitute? t with
      | none => some t
      | some _ => none
  | n + 1, t =>
      match defs.substitute? t with
      | none => some t
      | some next => expandWithin defs n next

/-- A column text without definitions at its head. -/
def expand? (defs : Definitions) (t : Text) : Option Text := defs.expandWithin limit t

end Definitions
end SchemaScript.Document
