/- Paths of files as texts: their parts, how they are joined, and their order. -/
import SchemaScript.Text.Basic

namespace SchemaScript

abbrev Path := Text

namespace Path

inductive Part
  | root
  | current
  | parent
  | name (n : Text)
deriving Repr, DecidableEq

def isAbsolute : Path → Bool
  | '/' :: _ => true
  | _ => false

def endsInSlash (p : Path) : Bool := p.getLast? == some '/'

/-- The part that a piece between slashes stands for. An empty piece and a lone dot stand for none. -/
def part? (piece : Text) : Option Part :=
  if piece.isEmpty || piece == ['.'] then none
  else if piece == ['.', '.'] then some .parent
  else some (.name piece)

/-- The root of an absolute path, or the dot at the start of a relative one. -/
def start (p : Path) : List Part :=
  if isAbsolute p then [.root]
  else if (Text.splitOn '/' p).head? == some ['.'] then [.current]
  else []

/-- The parts of a path. Repeated slashes, slashes at the end and dots behind the start leave no
trace. -/
def parts (p : Path) : List Part := start p ++ (Text.splitOn '/' p).filterMap part?

def Part.text : Part → Text
  | .root => ['/']
  | .current => ['.']
  | .parent => ['.', '.']
  | .name n => n

/-- A path behind another one. An absolute path stands for itself; a slash goes between the two where
there is none. -/
def join (p q : Path) : Path :=
  if isAbsolute q then q
  else if p.isEmpty || endsInSlash p then p ++ q
  else p ++ '/' :: q

/-- The plainest path of some parts. -/
def ofParts (parts : List Part) : Path :=
  parts.foldl (fun p part => join p part.text) []

/-- A path without its last part, without its last two parts and so on, as long as something other than
the root is left. -/
def ancestors (p : Path) : List Path :=
  ((List.range p.parts.length).reverse.map fun n => ofParts (p.parts.take n)).filter
    fun q => !q.isEmpty && q != ['/']

/-- The last part of a path if it is a name. -/
def fileName? (p : Path) : Option Text :=
  match p.parts.getLast? with
  | some (.name n) => some n
  | _ => none

/-- A name in front of its last dot, and the whole name if that would be nothing. -/
def stem (name : Text) : Text :=
  match Text.cutAt? (· = '.') name.reverse with
  | some (_, front) => if front.isEmpty then name else front.reverse
  | none => name

def fileStem? (p : Path) : Option Text := (fileName? p).map stem

def isCurrent (p : Path) : Bool := p.parts == [.current]

def same (p q : Path) : Bool := p.parts == q.parts

/-- The root is first, then the dot, then the step to the parent, then names. -/
def Part.rank : Part → Nat
  | .root => 0
  | .current => 1
  | .parent => 2
  | .name _ => 3

/-- The order of names: by characters, and a name before its continuations. -/
def nameLe : Text → Text → Bool
  | [], _ => true
  | _ :: _, [] => false
  | a :: s, b :: t => a < b || (a == b && nameLe s t)

def Part.le (a b : Part) : Bool :=
  a.rank < b.rank || (a.rank == b.rank && nameLe a.text b.text)

def partsLe : List Part → List Part → Bool
  | [], _ => true
  | _ :: _, [] => false
  | a :: s, b :: t => if a = b then partsLe s t else a.le b

/-- The order of paths, part by part, so that what is in a directory stays together. -/
def le (p q : Path) : Bool := partsLe p.parts q.parts

/-- Paths in order. Those that are the same stay as they were. -/
def sort (paths : List Path) : List Path := paths.mergeSort le

/-- What follows a path, without those that are the same as the one in front of them. -/
def dropSame (p : Path) : List Path → List Path
  | [] => []
  | q :: rest => if same p q then dropSame p rest else q :: dropSame q rest

def withoutRepeats : List Path → List Path
  | [] => []
  | p :: rest => p :: dropSame p rest

end Path
end SchemaScript
