/- Regular expressions: how they are written, and the ways to match a text in the order in which they
   are tried. -/
import SchemaScript.Text.Basic

namespace SchemaScript

namespace Regex

/-- Characters with a meaning of their own. -/
def signs : Text := "\\.+*?()|[]\x7b\x7d^$#&-~"

def escape (c : Char) : Text :=
  if signs.contains c then ['\\', c] else [c]

/-- One entry of a set of characters: a range between two characters or between two numbers, or one
character. -/
inductive Item
  | range (low high : Char)
  | coded (low high : Nat)
  | single (c : Char)
deriving Repr, DecidableEq

namespace Item

def has : Item → Char → Bool
  | range low high, c => low ≤ c && c ≤ high
  | coded low high, c => low ≤ c.toNat && c.toNat ≤ high
  | single s, c => c == s

/-- The number of a character, in at least four hexadecimal digits. -/
def code (n : Nat) : Text :=
  let digits := (Nat.toDigits 16 n).map Char.toUpper
  "\\x\x7b".toList ++ List.replicate (4 - digits.length) '0' ++ digits ++ ['\x7d']

def text : Item → Text
  | range low high => [low, '-', high]
  | coded low high => code low ++ '-' :: code high
  | single c => [c]

end Item

/-- The characters of some entries, less those that are left out. -/
structure CharSet where
  items : List Item
  without : List Char := []
deriving Repr, DecidableEq

namespace CharSet

def has (s : CharSet) (c : Char) : Bool :=
  s.items.any (·.has c) && !s.without.contains c

def text (s : CharSet) : Text :=
  let less := if s.without.isEmpty then [] else "&&[^".toList ++ s.without.flatMap escape ++ [']']
  '[' :: s.items.flatMap Item.text ++ less ++ [']']

end CharSet
end Regex

/-- A regular expression. A text is written as it is or with its signs escaped. A group captures what it
matches; a bundle only keeps its parts together. What is repeated holds no group. -/
inductive Regex
  | plain (t : Text)
  | escaped (t : Text)
  | oneOf (s : Regex.CharSet)
  | seq (p q : Regex)
  | alt (p q : Regex)
  | star (p : Regex)
  | plus (p : Regex)
  | group (p : Regex)
  | bundle (p : Regex)
  | start
  | finish
deriving Repr, DecidableEq

namespace Regex

instance : Append Regex := ⟨seq⟩

instance : OrOp Regex := ⟨alt⟩

def text : Regex → Text
  | plain t => t
  | escaped t => t.flatMap escape
  | oneOf s => s.text
  | seq p q => p.text ++ q.text
  | alt p q => p.text ++ '|' :: q.text
  | star p => p.text ++ ['*']
  | plus p => p.text ++ ['+']
  | group p => '(' :: p.text ++ [')']
  | bundle p => "(?:".toList ++ p.text ++ [')']
  | start => ['^']
  | finish => ['$']

/-- A way to match the beginning of a text: what the groups captured, in the order in which they open,
and what is left. -/
structure Match where
  captures : List Text
  rest : Text
deriving Repr, DecidableEq

/-- What can be left behind a number of steps that each take a character or more, up to a bound. The more
steps, the earlier. -/
def atMost (step : Text → List Text) : (bound : Nat) → Text → List Text
  | 0, t => [t]
  | bound + 1, t => ((step t).filter (·.length < t.length)).flatMap (atMost step bound) ++ [t]

/-- What can be left behind any number of steps. There are no more of them than characters. -/
def repeated (step : Text → List Text) (t : Text) : List Text := atMost step t.length t

/-- The ways to match at a place of a text, given by what begins there, from the one that is tried first. -/
def runs (whole : Text) : Regex → Text → List Match
  | plain s, t => (Text.after? s t).toList.map (⟨[], ·⟩)
  | escaped s, t => (Text.after? s t).toList.map (⟨[], ·⟩)
  | oneOf _, [] => []
  | oneOf s, c :: rest => if s.has c then [⟨[], rest⟩] else []
  | seq p q, t => (p.runs whole t).flatMap fun m =>
      (q.runs whole m.rest).map fun n => ⟨m.captures ++ n.captures, n.rest⟩
  | alt p q, t => p.runs whole t ++ q.runs whole t
  | star p, t => (repeated (fun u => (p.runs whole u).map (·.rest)) t).map (⟨[], ·⟩)
  | plus p, t => (p.runs whole t).flatMap fun m =>
      (repeated (fun u => (p.runs whole u).map (·.rest)) m.rest).map (⟨[], ·⟩)
  | group p, t => (p.runs whole t).map fun m =>
      ⟨t.take (t.length - m.rest.length) :: m.captures, m.rest⟩
  | bundle p, t => p.runs whole t
  | start, t => if t = whole then [⟨[], t⟩] else []
  | finish, t => if t.isEmpty then [⟨[], t⟩] else []

/-- The match at the beginning of a text. -/
def first? (p : Regex) (t : Text) : Option Match := (p.runs t t).head?

/-- The captures of all matches in a text from a place on, from the left. None begins inside of another, and
behind one that takes nothing the search goes on with the next character. -/
def allFrom (p : Regex) (whole t : Text) : List (List Text) :=
  match (p.runs whole t).head? with
  | some m =>
      if _h : m.rest.length < t.length then m.captures :: allFrom p whole m.rest
      else m.captures :: (match t with | [] => [] | _ :: behind => allFrom p whole behind)
  | none => match t with | [] => [] | _ :: behind => allFrom p whole behind
termination_by t.length

def all (p : Regex) (t : Text) : List (List Text) := allFrom p t t

end Regex
end SchemaScript
