/- The program: a command line at work on the files of the machine. -/
import SchemaScript.CommandLine.Run
import Std.Time.DateTime.Timestamp

namespace SchemaScript.Machine

/-- The error of a number of the system, which may come with a minus sign, as a word of thirty-two
bits. -/
def coded (code : UInt32) (details : String) : FileError :=
  let number := code.toInt32.toInt.natAbs
  if number = 2 then .notFound
  else if number = 17 then .alreadyExists
  else if number = 20 then .notDirectory
  else if number = 21 then .isDirectory
  else if number = 36 then .tooLong
  else .other (details.toList ++ " (os error ".toList ++ Text.ofNat number ++ [')'])

def fileError (e : IO.Error) : FileError :=
  match e with
  | .alreadyExists _ code details | .invalidArgument _ code details
  | .permissionDenied _ code details | .resourceExhausted _ code details
  | .inappropriateType _ code details | .noSuchThing _ code details
  | .interrupted _ code details | .noFileOrDirectory _ code details
  | .otherError code details | .resourceBusy code details | .resourceVanished code details
  | .unsupportedOperation code details | .hardwareFault code details
  | .unsatisfiedConstraints code details | .illegalOperation code details
  | .protocolError code details | .timeExpired code details => coded code details
  | .unexpectedEof => .other "unexpected end of file".toList
  | .userError message => .other message.toList

def entry (p : Path) : IO.FS.DirEntry := { root := String.ofList p, fileName := "" }

/-- Does something with a path, unless no system call would take the path. -/
def attempt (p : Path) (act : IO α) : IO (Except FileError α) := do
  if p.contains '\x00' then return .error .zeroInPath
  try return .ok (← act)
  catch e => return .error (fileError e)

def kind? (p : Path) : IO (Option FileKind) := do
  match ← attempt p (entry p).root.metadata with
  | .error _ => return none
  | .ok found =>
      match found.type with
      | .dir => return some .directory
      | .file => return some .file
      | _ => return some .other

def children (p : Path) : IO (List Text) := do
  match ← attempt p (entry p).root.readDir with
  | .error _ => return []
  | .ok found => return found.toList.map fun e => e.fileName.toList

/-- Everything below a directory. The machine bounds how deep directories are. -/
partial def descendants (p : Path) : IO (List (List Text)) := do
  let below ← (← children p).mapM fun name => do
    let next := p.join name
    if (← kind? next) == some .directory then
      return [name] :: (← descendants next).map (name :: ·)
    else return [[name]]
  return below.flatten

instance : FileSystem IO where
  kind? := kind?
  read p := attempt p do
    return (← IO.FS.readBinFile (entry p).root).toList
  write p content := attempt p (IO.FS.writeBinFile (entry p).root ⟨content.toArray⟩)
  makeDirectory p := attempt p (IO.FS.createDir (entry p).root)
  children := children
  descendants := descendants
  canonical p := do
    match ← kind? p with
    | none => return .error .notFound
    | some _ => attempt p do return (← IO.FS.realPath (entry p).root).toString.toList

def now : IO Timestamp := do
  return .ofSeconds (← Std.Time.Timestamp.now).toSecondsSinceUnixEpoch.val.toNat

end SchemaScript.Machine

open SchemaScript in
def main (words : List String) : IO UInt32 := do
  let outcome ← CommandLine.run (← Machine.now) (words.map String.toList)
  IO.print (String.ofList outcome.output)
  IO.eprint (String.ofList outcome.complaint)
  return UInt32.ofNat outcome.exitCode
