/- What ends the work on a project before it is done. -/
import SchemaScript.Document.Fault
import SchemaScript.Files.Basic
import SchemaScript.Files.Pattern
import SchemaScript.Project.Config

namespace SchemaScript.Project

inductive Failure
  | unreadable (path : Path) (error : FileError)
  | unwritable (path : Path) (error : FileError)
  | document (path : Path) (fault : Document.Fault)
  | nothingThere (path : Path)
  /-- The path leads to something that is no file and no directory. -/
  | notReadable (path : Path)
  | noDocuments (path : Path)
  | pattern (path : Path) (error : Pattern.Misread)
  | outputDirectory (path : Path) (error : FileError)
  | unresolved (path : Path) (error : FileError)
  | configUnreadable (path : Path) (error : FileError)
  | configMisread (path : Path)
  | vendor (fault : VendorFault)
  | nameless (path : Path)
  /-- Vendors name vendors without an end in sight. -/
  | vendorsTooDeep

namespace Failure

def message : Failure → Text
  | .unreadable path e => "Failed to read ".toList ++ path ++ ": ".toList ++ e.message
  | .unwritable path e => "Failed to write ".toList ++ path ++ ": ".toList ++ e.message
  | .document path fault => path ++ ": ".toList ++ fault.message
  | .nothingThere path => "Path does not exist: ".toList ++ path
  | .notReadable path => "Path is neither a file nor a directory: ".toList ++ path
  | .noDocuments path => "No YASQL files (.yml, .yaml, .yasql) found at: ".toList ++ path
  | .pattern path e => "Invalid glob pattern '".toList ++ path ++ "': ".toList ++ e.message
  | .outputDirectory path e =>
      "Can not create output directory ".toList ++ path ++ ": ".toList ++ e.message
  | .unresolved path e => "Can not resolve ".toList ++ path ++ ": ".toList ++ e.message
  | .configUnreadable path e => "Failed to read config ".toList ++ path ++ ": ".toList ++ e.message
  | .configMisread path =>
      "Invalid YAML config ".toList ++ path ++ ": not a build configuration".toList
  | .vendor fault => fault.message
  | .nameless path => "Invalid database file name: ".toList ++ path
  | .vendorsTooDeep => "Vendors are nested too deeply"

end Failure

/-- Work that may end early; what it did to files before stays done. -/
abbrev Attempt (m : Type → Type) := ExceptT Failure m

namespace Attempt

variable {m : Type → Type} [Monad m]

def orFail (failure : FileError → Failure) (answer : m (Except FileError α)) : Attempt m α := do
  match ← answer with
  | .ok a => return a
  | .error e => throw (failure e)

def ofExcept (failure : ε → Failure) : Except ε α → Attempt m α
  | .ok a => return a
  | .error e => throw (failure e)

end Attempt
end SchemaScript.Project
