/- The comment at the head of a script: when it was made, and what is known about the database. -/
import SchemaScript.Schema.Basic
import SchemaScript.Script.Basic
import SchemaScript.Script.Timestamp

namespace SchemaScript.Script

def version : Text := "0.1.0"

/-- The lines of a value behind its opening, each further line in a comment of its own. -/
def entryLines (opening value : Text) : Block :=
  match Text.lines value with
  | [] => [opening]
  | first :: rest => (opening ++ first) :: rest.map ("-- ".toList ++ ·)

/-- The lines of a labelled value; none if it is missing. -/
def entry (label : Text) : Option Text → Block
  | none => []
  | some value => entryLines ("-- ".toList ++ label ++ ": ".toList) value

def authorLines : List Text → Block
  | [] => []
  | first :: rest =>
      entryLines "-- Authors: " first ++ rest.flatMap (entryLines "--          ")

def metadataLines (m : Metadata) : Block :=
  entry "Project" m.project ++ entry "Description" m.description ++ entry "Version" m.version
    ++ entry "License" m.license ++ authorLines m.authors

/-- The head of a script. What is known about the database stands below an empty comment line. -/
def header (time : Timestamp) (m : Metadata) : Block :=
  let about := metadataLines m
  ["-- Generated with yasql".toList, "--".toList, "-- Timestamp: ".toList ++ time.text,
    "-- yasql version: ".toList ++ version]
    ++ (if about.isEmpty then [] else "--".toList :: about)

end SchemaScript.Script
