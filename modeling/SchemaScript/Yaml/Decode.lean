/- The value of a YAML text. -/
import SchemaScript.Yaml.Document
import SchemaScript.Yaml.Scalar
import SchemaScript.Yaml.Scanner

namespace SchemaScript.Yaml

/-- A step of decoding. It counts the aliases that were followed. -/
abbrev Decoder := StateT Nat Option

namespace Document

/-- Collections may stand this deep inside one another. -/
def depthLimit : Nat := 128

/-- The node that an alias stands for; any other node itself. A document is followed through its
aliases a hundred times its size and no further. -/
def follow (d : Document) : Node → Decoder Node
  | .alias id => do
      modify (· + 1)
      if 100 * d.size < (← get) then failure
      match d.target? id with
      | some n => return n
      | none => failure
  | n => return n

/-- Whether two equal keys in one mapping are refused. -/
inductive Keys
  | distinct
  | any
deriving DecidableEq

/-- The values of entries in order. `seen` are the keys so far. -/
def entriesWith (keys : Keys) (read : Node → Decoder Value) (seen : List Value) :
    List (Node × Node) → Decoder (List (Value × Value))
  | [] => return []
  | (k, v) :: rest => do
      let key ← read k
      if keys = .distinct && seen.any key.same then failure
      let value ← read v
      return (key, value) :: (← entriesWith keys read (key :: seen) rest)

/-- The value of a node without its local tag. `read` gives the values of the nodes in it; without it
the node is no collection. -/
def contentOf (d : Document) (keys : Keys) (read : Option (Node → Decoder Value)) :
    Node → Decoder (Option Bytes × Value)
  | n => do
      match ← d.follow n, read with
      | .scalar p plain text, _ =>
          let tag := if (p.tag.bind localTag?).isSome then none else p.tag
          let some v := scalarValue? tag plain text | failure
          return (p.tag, v)
      | .sequence p items, some read => return (p.tag, .sequence (← items.mapM read))
      | .mapping p entries, some read => return (p.tag, .mapping (← entriesWith keys read [] entries))
      | _, _ => failure

/-- The value of a node, with collections at most so deep inside one another. A local tag is kept
around the value. -/
def valueOf (d : Document) (keys : Keys) : (depth : Nat) → Node → Decoder Value
  | 0, n => return tagged (← d.contentOf keys none n)
  | depth + 1, n => return tagged (← d.contentOf keys (some (valueOf d keys depth)) n)
where
  tagged : Option Bytes × Value → Value
    | (tag, v) =>
        match tag.bind localTag? with
        | some name => .tagged name v
        | none => v

def value? (d : Document) : Option Value :=
  match d.root with
  | none => some .null
  | some n => ((valueOf d .distinct depthLimit n).run 0).map (·.1)

/-- The items of a sequence, whatever its tag. Where nothing is written there are none. -/
def itemsAt (d : Document) (n : Node) : Decoder (List Node) := do
  match ← d.follow n with
  | .sequence _ items => return items
  | .scalar _ true [] => return []
  | _ => failure

/-- The entries of a mapping, whatever its tag. Where nothing is written there are none. -/
def entriesAt (d : Document) (n : Node) : Decoder (List (Node × Node)) := do
  match ← d.follow n with
  | .mapping _ entries => return entries
  | .scalar _ true [] => return []
  | _ => failure

def textAt (d : Document) (n : Node) : Decoder Text := do
  match ← d.follow n with
  | .scalar _ _ text => return text
  | _ => failure

/-- Reads a node unless it is null. A tag other than that of null says that there is something. -/
def optionalAt (d : Document) (read : Node → Decoder α) (n : Node) : Decoder (Option α) := do
  let n ← d.follow n
  match n with
  | .scalar p true text =>
      match p.tag with
      | none =>
          if text.isEmpty || isNullWord text then return none else return some (← read n)
      | some tag =>
          if CoreTag.ofBytes? tag = some .null then
            if isNullWord text then return none else failure
          else return some (← read n)
  | n => return some (← read n)

end Document

def document? (t : Text) : Option Document :=
  (tokens? t).bind Document.ofTokens?

def decode? (t : Text) : Option Value :=
  (document? t).bind (·.value?)

end SchemaScript.Yaml
