/- What a program asks of the files around it, and how the answers can fail. -/
import SchemaScript.Files.Path
import SchemaScript.Text.Utf8

namespace SchemaScript

inductive FileKind
  | file
  | directory
  /-- Neither of the two, as a device. -/
  | other
deriving Repr, DecidableEq

inductive FileError
  | notFound
  | alreadyExists
  | notDirectory
  | isDirectory
  /-- The path, or a name in it, takes too many bytes. -/
  | tooLong
  /-- The path holds a zero character. -/
  | zeroInPath
  /-- The content is no text. -/
  | notText
  | other (message : Text)
deriving Repr, DecidableEq

def FileError.message : FileError → Text
  | .notFound => "No such file or directory (os error 2)"
  | .alreadyExists => "File exists (os error 17)"
  | .notDirectory => "Not a directory (os error 20)"
  | .isDirectory => "Is a directory (os error 21)"
  | .tooLong => "File name too long (os error 36)"
  | .zeroInPath => "file name contained an unexpected NUL byte"
  | .notText => "stream did not contain valid UTF-8"
  | .other message => message

/-- The few questions and changes that everything else is built from. -/
class FileSystem (m : Type → Type) where
  /-- What is at a path, if anything is. -/
  kind? : Path → m (Option FileKind)
  read : Path → m (Except FileError Bytes)
  /-- Puts a content in the place of what a file held, and makes the file if there is none. -/
  write : Path → Bytes → m (Except FileError Unit)
  /-- Makes a directory whose parent is there. -/
  makeDirectory : Path → m (Except FileError Unit)
  /-- The names in a directory, in any order. -/
  children : Path → m (List Text)
  /-- Everything below a directory at any depth, each by the names that lead to it, in any order. -/
  descendants : Path → m (List (List Text))
  /-- The absolute path without dots of what is at a path. -/
  canonical : Path → m (Except FileError Path)

namespace Files

variable {m : Type → Type} [Monad m] [FileSystem m]

open FileSystem

def isPresent (p : Path) : m Bool := do return (← kind? p).isSome

def isFile (p : Path) : m Bool := do return (← kind? p) == some .file

def isDirectory (p : Path) : m Bool := do return (← kind? p) == some .directory

def readText (p : Path) : m (Except FileError Text) := do
  match ← read p with
  | .error e => return .error e
  | .ok content =>
      match Utf8.decode? content with
      | some t => return .ok t
      | none => return .error .notText

def writeText (p : Path) (t : Text) : m (Except FileError Unit) := write p (Utf8.encode t)

/-- The directories of a list of paths, each the parent of the one in front of it. What is missing is
made, the parent first. -/
def makeChain : List Path → m (Except FileError Unit)
  | [] => return .ok ()
  | p :: parents => do
      match ← makeDirectory p with
      | .ok () => return .ok ()
      | .error .notFound =>
          match ← makeChain parents with
          | .error e => return .error e
          | .ok () => makeOrKeep p
      | .error e => if ← isDirectory p then return .ok () else return .error e
where
  /-- A directory that is already there will do. -/
  makeOrKeep (p : Path) : m (Except FileError Unit) := do
    match ← makeDirectory p with
    | .ok () => return .ok ()
    | .error e => if ← isDirectory p then return .ok () else return .error e

/-- Makes a directory and those it stands in, as far as they are missing. -/
def makeDirectories (p : Path) : m (Except FileError Unit) :=
  if p.isEmpty then return .ok () else makeChain (p :: p.ancestors)

end Files
end SchemaScript
