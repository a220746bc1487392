/- A tree of files as a value: directories, files with their content, and a place that paths start
from. Symbolic links and permissions are left out: a location is never another name of something
elsewhere, and everything can be read, listed and written that is of the right kind. -/
import SchemaScript.Files.Basic

namespace SchemaScript

/-- Where something is: the names that lead to it from the root. -/
abbrev Location := List Text

/-- What can be at a location. There are no links. -/
inductive Entry
  | directory
  | file (content : Bytes)
  /-- A device that takes any content and holds none. -/
  | sink
deriving Repr, DecidableEq

/-- A tree of files without symbolic links and without permissions. -/
structure FileTree where
  /-- What is where. The root is a directory without an entry. -/
  entries : List (Location × Entry) := []
  /-- Where relative paths start. -/
  here : Location := []
deriving Repr

namespace FileTree

def entry? (t : FileTree) (l : Location) : Option Entry :=
  if l.isEmpty then some .directory else t.entries.lookup l

/-- Entries with one of them exchanged, or put behind the others. -/
def put (l : Location) (e : Entry) : List (Location × Entry) → List (Location × Entry)
  | [] => [(l, e)]
  | (k, old) :: rest => if k = l then (k, e) :: rest else (k, old) :: put l e rest

def insert (t : FileTree) (l : Location) (e : Entry) : FileTree :=
  { t with entries := put l e t.entries }

def greatestName : Nat := 255

def greatestPath : Nat := 4095

/-- One step of a path. Only from a directory is there a way on; the parent of the root is the root. -/
def step (t : FileTree) (l : Location) (piece : Text) : Except FileError Location :=
  match t.entry? l with
  | none => .error .notFound
  | some .directory =>
      if piece == ['.'] then .ok l
      else if piece == ['.', '.'] then .ok l.dropLast
      else if greatestName < Utf8.size piece then .error .tooLong
      else .ok (l ++ [piece])
  | some _ => .error .notDirectory

/-- Where a path leads. Something need not be there, but the directory that it would be in is. -/
def locate (t : FileTree) (p : Path) : Except FileError Location :=
  if p.isEmpty then .error .notFound
  else if p.contains '\x00' then .error .zeroInPath
  else if greatestPath < Utf8.size p then .error .tooLong
  else
    ((Text.splitOn '/' p).filter (!·.isEmpty)).foldlM t.step (if p.isAbsolute then [] else t.here)

/-- What is at a path. Behind a slash at its end there can only be a directory. -/
def find (t : FileTree) (p : Path) : Except FileError (Location × Entry) := do
  let l ← t.locate p
  match t.entry? l with
  | none => .error .notFound
  | some .directory => .ok (l, .directory)
  | some e => if p.endsInSlash then .error .notDirectory else .ok (l, e)

def read (t : FileTree) (p : Path) : Except FileError Bytes := do
  match (← t.find p).2 with
  | .directory => .error .isDirectory
  | .file content => .ok content
  | .sink => .ok []

def write (t : FileTree) (p : Path) (content : Bytes) : Except FileError FileTree := do
  let l ← t.locate p
  if p.endsInSlash then .error .isDirectory
  else
    match t.entry? l with
    | some .directory => .error .isDirectory
    | some .sink => .ok t
    | _ => .ok (t.insert l (.file content))

def makeDirectory (t : FileTree) (p : Path) : Except FileError FileTree := do
  let l ← t.locate p
  match t.entry? l with
  | some _ => .error .alreadyExists
  | none => .ok (t.insert l .directory)

def kind? (t : FileTree) (p : Path) : Option FileKind :=
  match t.find p with
  | .error _ => none
  | .ok (_, .directory) => some .directory
  | .ok (_, .file _) => some .file
  | .ok (_, .sink) => some .other

/-- What lies below a location, by the names that lead to it from there. -/
def below (t : FileTree) (l : Location) : List Location :=
  (t.entries.filter fun (k, _) => l.isPrefixOf k && l.length < k.length).map fun (k, _) =>
    k.drop l.length

def descendants (t : FileTree) (p : Path) : List Location :=
  match t.find p with
  | .ok (l, .directory) => t.below l
  | _ => []

def children (t : FileTree) (p : Path) : List Text :=
  (t.descendants p).filterMap fun
    | [name] => some name
    | _ => none

def pathOf (l : Location) : Path := '/' :: Text.join ['/'] l

def canonical (t : FileTree) (p : Path) : Except FileError Path :=
  (t.find p).map fun (l, _) => pathOf l

/-- Keeps what a change came to; a change that failed leaves the tree as it was. -/
def change (f : FileTree → Except FileError FileTree) : StateM FileTree (Except FileError Unit) :=
  fun t =>
    match f t with
    | .ok next => (.ok (), next)
    | .error e => (.error e, t)

instance : FileSystem (StateM FileTree) where
  kind? p := do return (← get).kind? p
  read p := do return (← get).read p
  write p content := change (·.write p content)
  makeDirectory p := change (·.makeDirectory p)
  children p := do return (← get).children p
  descendants p := do return (← get).descendants p
  canonical p := do return (← get).canonical p

end FileTree
end SchemaScript
