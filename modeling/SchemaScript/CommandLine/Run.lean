/- Commands at work: what they write, and how they end. -/
import SchemaScript.CommandLine.Arguments
import SchemaScript.Json.Writer
import SchemaScript.Schema.Json

namespace SchemaScript.CommandLine

open Project

inductive Outcome
  | done (output : Text)
  /-- All was done, and something is wrong with the documents. -/
  | faulty (output : Text)
  | failed (failure : Failure)
  /-- Vendors led to vendors until there was no room left, which ends the program at once. -/
  | overflowed
  | misused (misuse : Misuse)

namespace Outcome

def exitCode : Outcome → Nat
  | .done _ => 0
  | .faulty _ | .failed _ => 1
  | .misused _ => 2
  | .overflowed => 134

def output : Outcome → Text
  | .done t | .faulty t => t
  | .failed _ | .overflowed | .misused _ => []

def complaint : Outcome → Text
  | .done _ | .faulty _ => []
  | .failed failure => "Error: ".toList ++ failure.message ++ ['\n']
  | .overflowed => "fatal: ".toList ++ Failure.vendorsTooDeep.message ++ ['\n']
  | .misused misuse => "error: ".toList ++ misuse.message ++ ['\n']

end Outcome

def versionText : Text := "yasql ".toList ++ Script.version ++ ['\n']

def helpText : Text :=
  "Usage: yasql [-v] generate FILE [--indent N] [-o FILE]
       yasql [-v] parse FILE [-o FILE]
       yasql [-v] build [CONFIG] [--output DIRECTORY] [--vendors DIRECTORY]
       yasql [-v] check [PATH]
"

variable {m : Type → Type} [Monad m] [FileSystem m]

def readSchema (file : Path) : Attempt m Schema := do
  let source ← readSource (m := m) file
  Attempt.ofExcept (.document file) (Schema.ofText source.content)

def writtenTo (output : Path) : Text := "Written to ".toList ++ output ++ ['\n']

def writeScript (time : Timestamp) (file : Path) (indent : Option Int) (output : Option Path) :
    Attempt m Text := do
  let schema ← readSchema (m := m) file
  let script := Script.render time (Script.resolveIndent indent) schema
  match output with
  | none => return script
  | some path =>
      Attempt.orFail (.unwritable path) (Files.writeText (m := m) path script)
      return writtenTo path

/-- The schema of a document as JSON, or where it was written, in either case as lines. -/
def writeSchema (file : Path) (output : Option Path) : Attempt m Text := do
  let schema ← readSchema (m := m) file
  let json := schema.toJson.pretty
  match output with
  | none => return json ++ ['\n']
  | some path =>
      Attempt.orFail (.unwritable path) (Files.writeText (m := m) path json)
      return Text.trimEnd (writtenTo path) ++ ['\n']

def Command.perform (time : Timestamp) : Command → Attempt m Outcome
  | .generate file indent output => do return .done (← writeScript (m := m) time file indent output)
  | .parse file output => do return .done (← writeSchema (m := m) file output)
  | .build config output vendors => do
      let log ← Project.build (m := m) vendorDepth time config output vendors
      return .done (logText log ++ ['\n'])
  | .check path => do
      let report ← Project.check (m := m) path
      let text := report.text ++ ['\n']
      return if report.errorCount = 0 then .done text else .faulty text

def run (time : Timestamp) (words : List Text) : m Outcome := do
  match read words with
  | .error (.misuse misuse) => return .misused misuse
  | .error .help => return .done helpText
  | .error .version => return .done versionText
  | .ok command =>
      match ← (command.perform (m := m) time).run with
      | .ok outcome => return outcome
      | .error .vendorsTooDeep => return .overflowed
      | .error failure => return .failed failure

end SchemaScript.CommandLine
