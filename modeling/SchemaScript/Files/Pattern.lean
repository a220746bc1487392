/- Patterns of file names: how they are written, and which names they match. -/
import SchemaScript.Text.Basic

namespace SchemaScript

structure CharRange where
  first : Char
  last : Char
deriving Repr, DecidableEq

namespace Pattern

inductive Token
  | literal (c : Char)
  /-- Any one character. -/
  | one
  /-- Any characters, or none. -/
  | many
  /-- Directories at any depth. -/
  | anyDepth
  /-- One character that is in one of the ranges, or in none of them. -/
  | within (inside : Bool) (ranges : List CharRange)
deriving Repr, DecidableEq

inductive Flaw
  /-- A bracket that is not closed, or has nothing in it. -/
  | range
  /-- Three stars or more. -/
  | stars
  /-- Two stars beside something else. -/
  | anyDepth
deriving Repr, DecidableEq

def Flaw.message : Flaw → Text
  | .range => "invalid range pattern"
  | .stars => "wildcards are either regular \x60*\x60 or recursive \x60**\x60"
  | .anyDepth => "recursive wildcards must form a single path component"

/-- A flaw, and how many characters are in front of it. -/
structure Misread where
  position : Nat
  flaw : Flaw
deriving Repr, DecidableEq

def Misread.message (e : Misread) : Text :=
  "Pattern syntax error near position ".toList ++ Text.ofNat e.position ++ ": ".toList
    ++ e.flaw.message

/-- What stands in brackets: single characters, and ranges with a hyphen inside. -/
def ranges : Text → List CharRange
  | a :: '-' :: b :: rest => ⟨a, b⟩ :: ranges rest
  | c :: rest => ⟨c, c⟩ :: ranges rest
  | [] => []

mutual

/-- Reads a pattern. `fresh` says that a part of a path starts here. -/
def readFrom (fresh : Bool) (position : Nat) : Text → Except Misread (List Token)
  | [] => .ok []
  | '?' :: rest => (readFrom false (position + 1) rest).map (.one :: ·)
  | '*' :: '*' :: '*' :: _ => .error ⟨position + 2, .stars⟩
  | ['*', '*'] => if fresh then .ok [.anyDepth] else .error ⟨position - 1, .anyDepth⟩
  | '*' :: '*' :: '/' :: rest =>
      if fresh then (readFrom true (position + 3) rest).map (.anyDepth :: ·)
      else .error ⟨position - 1, .anyDepth⟩
  | '*' :: '*' :: _ => .error ⟨if fresh then position + 2 else position - 1, .anyDepth⟩
  | '*' :: rest => (readFrom false (position + 1) rest).map (.many :: ·)
  | ['['] | ['[', '!'] => .error ⟨position, .range⟩
  | '[' :: '!' :: c :: rest => readBracket position false [c] (position + 3) rest
  | '[' :: c :: rest => readBracket position true [c] (position + 2) rest
  | c :: rest => (readFrom (c == '/') (position + 1) rest).map (.literal c :: ·)

/-- Reads up to the end of a bracket that was opened at a position. The characters read are in reverse
order; the first of them is never the end. -/
def readBracket (opened : Nat) (inside : Bool) (read : Text) (position : Nat) :
    Text → Except Misread (List Token)
  | [] => .error ⟨opened, .range⟩
  | ']' :: rest =>
      (readFrom false (position + 1) rest).map (.within inside (ranges read.reverse) :: ·)
  | c :: rest => readBracket opened inside (c :: read) (position + 1) rest

end

def read (t : Text) : Except Misread (List Token) := readFrom true 0 t

/-- A token that stands for exactly one character takes it. -/
def Token.takes (c : Char) : Token → Bool
  | .literal a => a == c
  | .one => true
  | .within inside ranges => (ranges.any fun r => r.first ≤ c && c ≤ r.last) == inside
  | .many | .anyDepth => false

/-- Some end of a text has a property; the whole text and the empty one count. -/
def anyEnd (p : Text → Bool) : Text → Bool
  | [] => p []
  | c :: rest => p (c :: rest) || anyEnd p rest

def matchesName : List Token → Text → Bool
  | [], name => name.isEmpty
  | .many :: tokens, name | .anyDepth :: tokens, name => anyEnd (matchesName tokens) name
  | _ :: _, [] => false
  | token :: tokens, c :: name => token.takes c && matchesName tokens name

end Pattern

/-- A part of a path that is a pattern. -/
inductive NamePattern
  /-- A name without wildcards. -/
  | exact (name : Text)
  /-- Directories at any depth. -/
  | anyDepth
  | wild (tokens : List Pattern.Token)
deriving Repr, DecidableEq

namespace NamePattern

def literal? : Pattern.Token → Option Char
  | .literal c => some c
  | _ => none

def ofTokens (tokens : List Pattern.Token) : NamePattern :=
  if tokens == [.anyDepth] then .anyDepth
  else
    match tokens.mapM literal? with
    | some name => .exact name
    | none => .wild tokens

def read (t : Text) : Except Pattern.Misread NamePattern := (Pattern.read t).map ofTokens

/-- A name that is matched as a name, not by what it is. -/
def matchesName : NamePattern → Text → Bool
  | .exact own, name => own == name
  | .anyDepth, _ => true
  | .wild tokens, name => Pattern.matchesName tokens name

end NamePattern
end SchemaScript
