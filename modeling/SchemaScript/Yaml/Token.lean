/- Tokens of a YAML text. -/
import SchemaScript.Text.Utf8

namespace SchemaScript.Yaml

inductive Token
  | versionDirective (major minor : Nat)
  /-- A handle, and the text that it stands for in tags. -/
  | tagDirective (handle : Text) (uri : Bytes)
  | documentStart
  | documentEnd
  | blockSequenceStart
  | blockMappingStart
  | blockEnd
  | flowSequenceStart
  | flowSequenceEnd
  | flowMappingStart
  | flowMappingEnd
  | blockEntry
  | flowEntry
  | key
  | value
  | alias (name : Text)
  | anchor (name : Text)
  /-- A tag with a handle; without one the suffix is the whole tag. -/
  | tag (handle : Text) (suffix : Bytes)
  | scalar (plain : Bool) (text : Text)
deriving Repr, DecidableEq

end SchemaScript.Yaml
