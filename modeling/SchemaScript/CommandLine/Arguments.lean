/- The words of a command line, and the command that they stand for. -/
import SchemaScript.Decimal.Basic
import SchemaScript.Project.Build
import SchemaScript.Text.Ascii

namespace SchemaScript.CommandLine

inductive Command
  | generate (file : Path) (indent : Option Int) (output : Option Path)
  | parse (file : Path) (output : Option Path)
  | build (config output vendors : Path)
  | check (path : Path)
deriving Repr, DecidableEq

inductive Verb
  | generate
  | parse
  | build
  | check
deriving Repr, DecidableEq

def Verb.ofWord? (word : Text) : Option Verb :=
  if word == "generate".toList then some .generate
  else if word == "parse".toList then some .parse
  else if word == "build".toList then some .build
  else if word == "check".toList then some .check
  else none

inductive Switch
  /-- Asks for more about the way of the work. The work and its results are the same. -/
  | verbose
  | help
  | version
  | indent
  | output
  | vendors
deriving Repr, DecidableEq

namespace Switch

def name : Switch → Text
  | .verbose => "verbose"
  | .help => "help"
  | .version => "version"
  | .indent => "indent"
  | .output => "output"
  | .vendors => "vendors"

def takesValue : Switch → Bool
  | .indent | .output | .vendors => true
  | .verbose | .help | .version => false

/-- Whether a word can be the value. What looks like a switch is none, except where a number with a
minus sign could be meant. -/
def admits (s : Switch) : Text → Bool
  | '-' :: _ :: _ => s = .indent
  | _ => true

end Switch

/-- The switches of a place on the command line, with the letters that stand for them. -/
abbrev Switches := List (Switch × Option Char)

namespace Switches

/-- In front of the verb. -/
def general : Switches := [(.verbose, some 'v'), (.help, some 'h'), (.version, some 'V')]

def ofVerb : Verb → Switches
  | .generate => [(.verbose, some 'v'), (.help, some 'h'), (.indent, none), (.output, some 'o')]
  | .parse => [(.verbose, some 'v'), (.help, some 'h'), (.output, some 'o')]
  | .build => [(.verbose, some 'v'), (.help, some 'h'), (.output, none), (.vendors, none)]
  | .check => [(.verbose, some 'v'), (.help, some 'h')]

def named? (l : Switches) (name : Text) : Option Switch :=
  (l.find? fun (s, _) => s.name == name).map (·.1)

def lettered? (l : Switches) (letter : Char) : Option Switch :=
  (l.find? fun (_, c) => c == some letter).map (·.1)

end Switches

inductive Misuse
  | noCommand
  | unknownCommand (word : Text)
  | unknownSwitch (word : Text)
  | repeated (switch : Switch)
  | valueMissing (switch : Switch)
  | valueNotTaken (switch : Switch)
  | notInteger (value : Text)
  | emptyPath
  | surplus (word : Text)
  | fileMissing
deriving Repr, DecidableEq

def Misuse.message : Misuse → Text
  | .noCommand => "a command is required: generate, parse, build or check"
  | .unknownCommand word => "unrecognized command '".toList ++ word ++ ['\'']
  | .unknownSwitch word => "unexpected argument '".toList ++ word ++ ['\'']
  | .repeated s => "--".toList ++ s.name ++ " can be given only once".toList
  | .valueMissing s => "--".toList ++ s.name ++ " needs a value".toList
  | .valueNotTaken s => "--".toList ++ s.name ++ " takes no value".toList
  | .notInteger value => "'".toList ++ value ++ "' is no integer of sixty-four bits".toList
  | .emptyPath => "a path can not be empty"
  | .surplus word => "unexpected argument '".toList ++ word ++ ['\'']
  | .fileMissing => "a file is required"

inductive Stop
  | misuse (m : Misuse)
  | help
  | version
deriving Repr, DecidableEq

/-- What the words behind a verb have said so far. -/
structure Given where
  verbose : Bool := false
  indent : Option Int := none
  output : Option Path := none
  vendors : Option Path := none
  /-- The word that is neither a switch nor a value of one. -/
  operand : Option Path := none
deriving Repr, DecidableEq

def pathOf (word : Text) : Except Stop Path :=
  if word.isEmpty then .error (.misuse .emptyPath) else .ok word

/-- An integer of sixty-four bits with a sign. -/
def integerOf (word : Text) : Except Stop Int :=
  match Text.int? word with
  | some i =>
      if fitsSigned 64 i then .ok i else .error (.misuse (.notInteger word))
  | none => .error (.misuse (.notInteger word))

namespace Given

def turnOn (g : Given) : Switch → Except Stop Given
  | .verbose =>
      if g.verbose then .error (.misuse (.repeated .verbose)) else .ok { g with verbose := true }
  | .help => .error .help
  | .version => .error .version
  | s => .error (.misuse (.valueMissing s))

def give (g : Given) (s : Switch) (value : Text) : Except Stop Given := do
  match s with
  | .indent =>
      let i ← integerOf value
      if g.indent.isSome then .error (.misuse (.repeated s)) else .ok { g with indent := some i }
  | .output =>
      let p ← pathOf value
      if g.output.isSome then .error (.misuse (.repeated s)) else .ok { g with output := some p }
  | .vendors =>
      let p ← pathOf value
      if g.vendors.isSome then .error (.misuse (.repeated s)) else .ok { g with vendors := some p }
  | s => .error (.misuse (.valueNotTaken s))

def addOperand (g : Given) (word : Text) : Except Stop Given := do
  if g.operand.isSome then .error (.misuse (.surplus word))
  else return { g with operand := some (← pathOf word) }

/-- Reads letters behind one hyphen. A letter that takes a value takes the rest of the word, without an
equals sign in front, or else waits for the next word. -/
def readLetters (switches : Switches) (g : Given) : Text → Except Stop (Given × Option Switch)
  | [] => .ok (g, none)
  | c :: rest => do
      match switches.lettered? c with
      | none => .error (.misuse (.unknownSwitch ['-', c]))
      | some s =>
          if s.takesValue then
            match rest with
            | [] => return (g, some s)
            | '=' :: value => return (← g.give s value, none)
            | value => return (← g.give s value, none)
          else readLetters switches (← g.turnOn s) rest

/-- Reads what stands behind two hyphens: a name, or a name and a value with an equals sign between
them. -/
def readName (switches : Switches) (g : Given) (t : Text) : Except Stop (Given × Option Switch) := do
  let (name, value) := match Text.cutAt? (· = '=') t with
    | some (name, value) => (name, some value)
    | none => (t, none)
  match switches.named? name, value with
  | none, _ => .error (.misuse (.unknownSwitch ('-' :: '-' :: name)))
  | some s, some value => return (← g.give s value, none)
  | some s, none => if s.takesValue then return (g, some s) else return (← g.turnOn s, none)

/-- Reads the words behind a verb. `waiting` is a switch whose value comes next. Behind a word of two
hyphens nothing is a switch. -/
def readWords (switches : Switches) (g : Given) (waiting : Option Switch) :
    List Text → Except Stop Given
  | [] =>
      match waiting with
      | some s => .error (.misuse (.valueMissing s))
      | none => .ok g
  | word :: rest => do
      match waiting with
      | some s =>
          if s.admits word then readWords switches (← g.give s word) none rest
          else .error (.misuse (.valueMissing s))
      | none =>
          match word with
          | ['-', '-'] => rest.foldlM addOperand g
          | '-' :: '-' :: name =>
              let (g, waiting) ← readName switches g name
              readWords switches g waiting rest
          | '-' :: c :: letters =>
              let (g, waiting) ← readLetters switches g (c :: letters)
              readWords switches g waiting rest
          | word => readWords switches (← g.addOperand word) none rest

def file (g : Given) : Except Stop Path :=
  match g.operand with
  | some p => .ok p
  | none => .error (.misuse .fileMissing)

/-- The command of a verb, with what holds where nothing is said. -/
def command (g : Given) : Verb → Except Stop Command
  | .generate => do return .generate (← g.file) g.indent g.output
  | .parse => do return .parse (← g.file) g.output
  | .build => .ok (.build (g.operand.getD Project.defaultConfig) (g.output.getD "build".toList)
      (g.vendors.getD "vendor".toList))
  | .check => .ok (.check (g.operand.getD ['.']))

end Given

/-- Help about everything, or about one verb. -/
def readHelp : List Text → Stop
  | [] => .help
  | [word] =>
      if (Verb.ofWord? word).isSome || word == "help".toList then .help
      else .misuse (.unknownCommand word)
  | _ :: word :: _ => .misuse (.unknownCommand word)

/-- Reads a command line from its start. `g` says what the words in front of the verb have said. -/
def readFrom (g : Given) : List Text → Except Stop Command
  | [] => .error (.misuse .noCommand)
  | word :: rest => do
      match word with
      | ['-', '-'] => .error (.misuse (.unknownSwitch word))
      | '-' :: '-' :: name => readFrom (← g.readName Switches.general name).1 rest
      | '-' :: c :: letters => readFrom (← g.readLetters Switches.general (c :: letters)).1 rest
      | word =>
          match Verb.ofWord? word with
          | some verb => (← Given.readWords (Switches.ofVerb verb) {} none rest).command verb
          | none =>
              if word == "help".toList then .error (readHelp rest)
              else .error (.misuse (.unknownCommand word))

def read (words : List Text) : Except Stop Command := readFrom {} words

end SchemaScript.CommandLine
