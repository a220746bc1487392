/- Building a project: a script for each database of a configuration, and then those of its vendors. -/
import SchemaScript.Project.Check
import SchemaScript.Script.Statement

namespace SchemaScript.Project

/-- Steps of a build, as its log tells them. -/
inductive Notice
  | started (time : Timestamp) (output : Path)
  | config (path : Path)
  | databaseMissing (path : Path)
  | postMissing (path : Path)
  /-- The names of the scripts of a configuration. -/
  | generated (names : List Text)
  | vendor (name : Text)

def Notice.lines : Notice → List Text
  | .started time output =>
      ["Build start: ".toList ++ time.text, "Output: ".toList ++ output, []]
  | .config path => ["Load config file ".toList ++ path]
  | .databaseMissing path => ["E: Database \"".toList ++ path ++ "\" not found".toList]
  | .postMissing path => ["W: Post file \"".toList ++ path ++ "\" not found".toList]
  | .generated names => "Files generated:".toList :: names.map fun name => '-' :: ' ' :: name
  | .vendor name => [[], "Switch to vendor ".toList ++ name, []]

def logText (log : List Notice) : Text := Text.join ['\n'] (log.flatMap Notice.lines)

/-- What is the same for all configurations of a build. -/
structure Site where
  output : Path
  vendors : Path
  time : Timestamp

/-- A part of a build, which adds to the log. -/
abbrev Building (m : Type → Type) := StateT (List Notice) (Attempt m)

def defaultConfig : Path := "config/databases.yml"

namespace Building

variable {m : Type → Type} [Monad m] [FileSystem m]

def note (n : Notice) : Building m Unit := modify (· ++ [n])

def readConfig (path : Path) : Attempt m Config := do
  let content ← Attempt.orFail (.configUnreadable path) (Files.readText (m := m) path)
  match Config.read? content with
  | some c => return c
  | none => throw (.configMisread path)

/-- The files that an entry of databases names. That there are none is noted, and is no failure. -/
def databaseFiles (entry : DatabaseEntry) (root : Path) : Building m (List Path) := do
  let path := root.join entry.path
  let files ←
    if Glob.isPattern entry.path then do
      let found ← expandPattern (m := m) path
      found.filterM fun p => Files.isFile (m := m) p
    else if ← Files.isFile (m := m) path then pure [path]
    else pure []
  if files.isEmpty then note (.databaseMissing path)
  return files

/-- What is put behind a script for a file of its own. -/
def postSection (name content : Text) : Text :=
  "\n--\n-- Post '".toList ++ name ++ "'\n--\n\n".toList ++ content

/-- The text behind a script. A file that cannot be read adds nothing, and is noted. -/
def postText (root : Path) (posts : List Path) : Building m Text := do
  let sections ← posts.mapM fun post => do
    let path := root.join post
    match ← Files.readText (m := m) path with
    | .ok content => return postSection (path.fileName?.getD post) content
    | .error _ =>
        note (.postMissing path)
        return []
  return sections.flatten

/-- Writes the script of a database, and gives its name: that of the database's file, with the ending
of scripts. -/
def buildDatabase (site : Site) (root : Path) (indent : Option Int) (entry : DatabaseEntry)
    (file : Path) : Building m Text := do
  let source ← readSource (m := m) file
  let schema ← Attempt.ofExcept (m := m) (.document file) (Schema.ofText source.content)
  let script := Script.render site.time (Script.resolveIndent indent) schema
  let post ← postText root entry.post
  match file.fileStem? with
  | none => throw (.nameless file)
  | some stem =>
      let name := stem ++ ".sql".toList
      let path := site.output.join name
      Attempt.orFail (m := m) (.unwritable path) (Files.writeText (m := m) path (script ++ post))
      return name

def buildDatabases (site : Site) (root : Path) (indent : Option Int) (entries : List DatabaseEntry) :
    Building m Unit := do
  let names ← entries.mapM fun entry => do
    (← databaseFiles entry root).mapM (buildDatabase site root indent entry)
  note (.generated names.flatten)

/-- Builds a configuration in a directory, and then the configurations of its vendors, of which each may
have vendors in turn. `depth` bounds how far that goes. -/
def buildConfig (site : Site) : (depth : Nat) → (config root : Path) → Building m Unit
  | 0, _, _ => throw .vendorsTooDeep
  | depth + 1, config, root => do
      let path := root.join config
      note (.config path)
      let c ← readConfig (m := m) path
      let entries := c.databases.getD []
      if !entries.isEmpty then buildDatabases site root c.indent entries
      let vendors ← Attempt.ofExcept (m := m) .vendor c.vendorEntries
      vendors.forM fun vendor => do
        note (.vendor vendor.name)
        vendor.configs.forM fun config =>
          buildConfig site depth (config.getD defaultConfig) (site.vendors.join vendor.name)

end Building

variable {m : Type → Type} [Monad m] [FileSystem m]

/-- The places of a build. The directory of the scripts is made if it is missing; that of the vendors
may be missing. -/
def openSite (time : Timestamp) (output vendors : Path) : Attempt m Site := do
  Attempt.orFail (.outputDirectory output) (Files.makeDirectories (m := m) output)
  let resolved ← Attempt.orFail (.unresolved output) (FileSystem.canonical (m := m) output)
  match ← FileSystem.canonical (m := m) vendors with
  | .ok vendors => return { output := resolved, vendors, time }
  | .error _ => return { output := resolved, vendors, time }

def vendorDepth : Nat := 4000

/-- Builds a configuration and gives the log. -/
def build (depth : Nat) (time : Timestamp) (config output vendors : Path) :
    Attempt m (List Notice) := do
  let site ← openSite time output vendors
  let start := [Notice.started time site.output]
  return (← (Building.buildConfig site depth config ['.']).run start).2

end SchemaScript.Project
