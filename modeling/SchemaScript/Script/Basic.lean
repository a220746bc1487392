/- Scripts: blocks of lines with one empty line between neighbours. -/
import SchemaScript.Text.Basic

namespace SchemaScript

/-- Lines that stand together. -/
abbrev Block := List Text

/-- A script is a sequence of blocks. -/
abbrev Script := List Block

namespace Script

/-- The text of a script: an empty line ends every block, and no newline follows the last one. -/
def text (s : Script) : Text :=
  Text.join ['\n'] (s.flatMap fun block => block ++ [[]])

/-- Appends one mark to the last line and another to each line before it. -/
def endLines (last others : Text) : Block → Block
  | [] => []
  | [line] => [line ++ last]
  | line :: next :: rest => (line ++ others) :: endLines last others (next :: rest)

/-- A comment of three lines that names the blocks behind it. -/
def banner (title : Text) : Block := ["--".toList, "-- ".toList ++ title, "--".toList]

/-- Blocks under a banner; without blocks there is no banner. -/
def titled (title : Text) : Script → Script
  | [] => []
  | block :: rest => banner title :: block :: rest

end Script
end SchemaScript
