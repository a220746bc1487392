/- Nodes of a YAML document: what its tokens say, before scalars are given types. -/
import SchemaScript.Text.Utf8

namespace SchemaScript.Yaml

structure Properties where
  /-- The number of the anchor. -/
  anchor : Option Nat := none
  tag : Option Bytes := none
deriving Repr, DecidableEq

inductive Node
  | alias (anchor : Nat)
  | scalar (properties : Properties) (plain : Bool) (text : Text)
  | sequence (properties : Properties) (items : List Node)
  | mapping (properties : Properties) (entries : List (Node × Node))
deriving Repr

namespace Node

def empty : Node := .scalar {} true []

/-- The number that a node is known by, with the node itself. -/
def own (n : Node) (p : Properties) : List (Nat × Node) :=
  match p.anchor with
  | some id => [(id, n)]
  | none => []

mutual

/-- The nodes with an anchor in a node, in the order of their beginnings. -/
def anchored : Node → List (Nat × Node)
  | .alias _ => []
  | .scalar p plain text => own (.scalar p plain text) p
  | .sequence p items => own (.sequence p items) p ++ anchoredItems items
  | .mapping p entries => own (.mapping p entries) p ++ anchoredEntries entries

def anchoredItems : List Node → List (Nat × Node)
  | [] => []
  | item :: rest => anchored item ++ anchoredItems rest

def anchoredEntries : List (Node × Node) → List (Nat × Node)
  | [] => []
  | (key, value) :: rest => anchored key ++ anchored value ++ anchoredEntries rest

end

mutual

/-- The size of a node: one for a scalar and an alias, two for a collection and the sizes in it. -/
def size : Node → Nat
  | .alias _ => 1
  | .scalar .. => 1
  | .sequence _ items => 2 + sizeItems items
  | .mapping _ entries => 2 + sizeEntries entries

def sizeItems : List Node → Nat
  | [] => 0
  | item :: rest => size item + sizeItems rest

def sizeEntries : List (Node × Node) → Nat
  | [] => 0
  | (key, value) :: rest => size key + size value + sizeEntries rest

end

end Node

/-- A document: its node, if it has any, and the nodes that aliases stand for. -/
structure Document where
  root : Option Node
  anchors : List (Nat × Node)
  size : Nat

namespace Document

/-- A document with a node. Where two anchors have one number, the later is meant. -/
def ofRoot (n : Node) : Document :=
  { root := some n, anchors := n.anchored.reverse, size := n.size }

/-- The document of a text with nothing in it. -/
def empty : Document := { root := none, anchors := [], size := 1 }

def target? (d : Document) (anchor : Nat) : Option Node :=
  (d.anchors.find? fun a => a.1 == anchor).map (·.2)

/-- The node that an alias stands for; any other node itself. -/
def target (d : Document) : Node → Node
  | .alias anchor => (d.target? anchor).getD (.alias anchor)
  | n => n

end Document
end SchemaScript.Yaml
