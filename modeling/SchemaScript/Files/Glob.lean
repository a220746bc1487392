/- Paths with wildcards, and the paths that match them. -/
import SchemaScript.Files.Basic
import SchemaScript.Files.Pattern

namespace SchemaScript.Glob

/-- A path with one of the wildcards in it. -/
def isPattern (t : Text) : Bool := t.any fun c => c == '*' || c == '?' || c == '['

/-- Where the search starts, the root or the place itself, and the pattern of what is looked for from
there. -/
def cutStart : Path → Path × Text
  | '/' :: rest => (['/'], rest)
  | pattern => (['.'], pattern)

/-- Pieces between slashes. A slash at the end has no piece behind it; a text of nothing is one piece. -/
def pieces (t : Text) : List Text :=
  let all := Text.splitOn '/' t
  if 1 < all.length && all.getLast? == some [] then all.dropLast else all

def isDots (name : Text) : Bool := name == ['.'] || name == ['.', '.']

/-- A name in a directory. The place itself is not mentioned. -/
def within (directory : Path) (name : Text) : Path :=
  if directory.isCurrent then name else directory.join name

/-- The names of the parent and of the place itself, as far as a pattern that starts with a dot matches
them. -/
def dots (tokens : List Pattern.Token) : List Text :=
  if tokens.head? == some (.literal '.') then
    [['.', '.'], ['.']].filter (Pattern.matchesName tokens)
  else []

variable {m : Type → Type} [Monad m] [FileSystem m]

open FileSystem

/-- Collects what a function finds for each member of a list. -/
def collect (f : α → m (List Path)) (l : List α) : m (List Path) := do
  return (← l.mapM f).flatten

/-- A path that was found, unless it had to be a directory and is none. -/
def found (needsDirectory : Bool) (p : Path) : m (List Path) := do
  if !needsDirectory || (← Files.isDirectory p) then return [p] else return []

/-- The paths that patterns lead to from a path, one pattern for each part. -/
def expandFrom (needsDirectory : Bool) : List NamePattern → Path → m (List Path)
  | [], p => found needsDirectory p
  | .exact name :: patterns, p => do
      let next := within p name
      let isThere ← if isDots name then Files.isDirectory p else Files.isPresent next
      if isThere then expandFrom needsDirectory patterns next else return []
  | .wild tokens :: patterns, p => do
      if !(← Files.isDirectory p) then return []
      let names := (← children p).filter (Pattern.matchesName tokens)
      let around ← collect (fun name => expandFrom needsDirectory patterns (p.join name)) (dots tokens)
      let inside ← collect (fun name => expandFrom needsDirectory patterns (within p name)) names
      return around ++ inside
  | .anyDepth :: .anyDepth :: patterns, p => expandFrom needsDirectory (.anyDepth :: patterns) p
  | [.anyDepth], p => do
      if !(← Files.isDirectory p) then return []
      collect (fun names => found true (names.foldl within p)) (← descendants p)
  | .anyDepth :: pattern :: patterns, p => do
      if !(← Files.isDirectory p) then return []
      let below := (← descendants p).filter fun names =>
        (names.getLast?.map pattern.matchesName).getD false
      collect (fun names => expandFrom needsDirectory patterns (names.foldl within p)) below

/-- The paths that match a pattern, in order. The pattern is read as a whole and then part by part; the
first flaw is the answer. -/
def expand (pattern : Path) : m (Except Pattern.Misread (List Path)) := do
  let (start, rest) := cutStart pattern
  match do discard (Pattern.read pattern); (pieces rest).mapM NamePattern.read with
  | .error e => return .error e
  | .ok patterns => return .ok (Path.sort (← expandFrom pattern.endsInSlash patterns start))

/-- A pattern as it is searched for: with slashes only. -/
def withSlashes (pattern : Path) : Path := pattern.map fun c => if c = '\\' then '/' else c

end SchemaScript.Glob
