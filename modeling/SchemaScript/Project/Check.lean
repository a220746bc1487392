/- Checking the documents at a path: one line for each, and how many of them have a fault. -/
import SchemaScript.Document.Text
import SchemaScript.Files.Glob
import SchemaScript.Project.Failure

namespace SchemaScript.Project

variable {m : Type → Type} [Monad m] [FileSystem m]

/-- A document as it was found, with its text. -/
structure Source where
  path : Path
  content : Text

def readSource (path : Path) : Attempt m Source := do
  let content ← Attempt.orFail (.unreadable path) (Files.readText (m := m) path)
  return { path, content }

def expandPattern (pattern : Path) : Attempt m (List Path) := do
  let pattern := Glob.withSlashes pattern
  Attempt.ofExcept (.pattern pattern) (← Glob.expand (m := m) pattern)

def documentEndings : List Text := ["yml", "yaml", "yasql"]

def documentPattern (directory : Path) (ending : Text) : Path :=
  directory.join ("**/*.".toList ++ ending)

/-- The documents in a directory at any depth, in the order of their paths. -/
def documentsIn (directory : Path) : Attempt m (List Path) := do
  let found ← documentEndings.mapM fun ending => expandPattern (documentPattern directory ending)
  return Path.withoutRepeats (Path.sort found.flatten)

/-- The document at a path, or all documents in the directory that is there. -/
def readSources (path : Path) : Attempt m (List Source) := do
  match ← FileSystem.kind? (m := m) path with
  | none => throw (.nothingThere path)
  | some .file => return [← readSource path]
  | some .directory => (← documentsIn path).mapM readSource
  | some .other => throw (.notReadable path)

structure Report where
  findings : List (Path × Option Document.Fault)

namespace Report

def ofSources (sources : List Source) : Report where
  findings := sources.map fun s =>
    match Schema.ofText s.content with
    | .ok _ => (s.path, none)
    | .error fault => (s.path, some fault)

def errorCount (r : Report) : Nat := r.findings.countP (·.2.isSome)

def findingLine : Path × Option Document.Fault → Text
  | (path, none) => path ++ ": ok".toList
  | (path, some fault) => path ++ ": error: ".toList ++ fault.message

/-- A number and a noun, with an `s` behind the noun unless there is one of it. -/
def counted (n : Nat) (noun : Text) : Text :=
  Text.ofNat n ++ ' ' :: noun ++ (if n = 1 then [] else ['s'])

def summary (r : Report) : Text :=
  counted r.errorCount "error" ++ " in ".toList ++ counted r.findings.length "file" ++ ['.']

def text (r : Report) : Text :=
  Text.join ['\n'] (r.findings.map findingLine ++ [r.summary])

end Report

/-- Checks the documents at a path. All of them are read before the first is checked. -/
def check (path : Path) : Attempt m Report := do
  let sources ← readSources path
  if sources.isEmpty then throw (.noDocuments path)
  return .ofSources sources

end SchemaScript.Project
