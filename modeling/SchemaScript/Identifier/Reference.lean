/- References in a column text: an arrow, a table and a column. -/
import SchemaScript.Identifier.Basic
import SchemaScript.Schema.Basic
import SchemaScript.Text.Blank

namespace SchemaScript.Reference

def arrow : Text := "->"

/-- What follows a dot that may have spaces on both sides. -/
def afterDot? (t : Text) : Option Text :=
  match t.dropWhile (· == ' ') with
  | '.' :: rest => some (rest.dropWhile (· == ' '))
  | _ => none

/-- What follows the end of a reference: nothing, or all behind one space. -/
def afterEnd? : Text → Option Text
  | [] => some []
  | ' ' :: rest => some rest
  | _ => none

/-- The reference at the head of a text, and what follows it: an arrow and a space, two
identifiers with a dot between them, and a space or the end. No identifier is all white space. -/
def read? (t : Text) : Option (Reference × Text) := do
  let fromTable ← Text.after? (arrow ++ [' ']) t
  let (table, behindTable) ← Identifier.read? fromTable
  let fromColumn ← afterDot? behindTable
  let (column, behindColumn) ← Identifier.read? fromColumn
  let rest ← afterEnd? behindColumn
  if Text.isBlank table || Text.isBlank column then none else some ({ table, column }, rest)

end SchemaScript.Reference
