/- White space: the characters that separate words, and what trimming removes. -/
import SchemaScript.Text.Basic

namespace SchemaScript

/-- The twenty-five characters of the Unicode property White_Space. -/
def isBlank (c : Char) : Bool :=
  let n := c.toNat
  (0x09 ≤ n && n ≤ 0x0D) || n == 0x20 || n == 0x85 || n == 0xA0 || n == 0x1680
    || (0x2000 ≤ n && n ≤ 0x200A) || n == 0x2028 || n == 0x2029 || n == 0x202F
    || n == 0x205F || n == 0x3000

namespace Text

/-- Every character is white space; the empty text counts. -/
def isBlank (t : Text) : Bool := t.all SchemaScript.isBlank

def trimStart (t : Text) : Text := t.dropWhile SchemaScript.isBlank

def trimEnd (t : Text) : Text := dropRightWhile SchemaScript.isBlank t

def trim (t : Text) : Text := trimEnd (trimStart t)

/-- The first word and what follows the one blank behind it, if a blank follows. -/
def cutAtBlank? (t : Text) : Option (Text × Text) := cutAt? SchemaScript.isBlank t

end Text
end SchemaScript
