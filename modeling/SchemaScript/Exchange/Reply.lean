/- Requests from other programs: a text comes in, and a reply in JSON goes out. -/
import SchemaScript.Document.Text
import SchemaScript.Exchange.Options
import SchemaScript.Json.Writer
import SchemaScript.Schema.Json
import SchemaScript.Script.Statement

namespace SchemaScript.Exchange

inductive Reply
  | success (data : Json)
  | failure (message kind : Text)

namespace Reply

def toJson : Reply → Json
  | .success data => .object [("success".toList, .bool true), ("data".toList, data)]
  | .failure message kind => .object
      [("success".toList, .bool false), ("error".toList, .string message),
        ("kind".toList, .string kind)]

def text (r : Reply) : Text := r.toJson.compact

def ofFault (f : Document.Fault) : Reply := .failure f.message f.kind

end Reply

def parse (content : Text) : Reply :=
  match Schema.ofText content with
  | .ok schema => .success schema.toJson
  | .error f => .ofFault f

/-- The script of a document. Options that cannot be read are reported first. -/
def build (time : Timestamp) (content options : Text) : Reply :=
  match Options.read? options with
  | none => .failure "Invalid options JSON: not an object or array of options" "InvalidOptions"
  | some o =>
      match Schema.ofText content with
      | .ok schema => .success (.string (Script.render time (Script.resolveIndent o.width) schema))
      | .error f => .ofFault f

/-- The reply to a caller that takes texts as they are. -/
def parseText (content : Text) : Text := (parse content).text

def buildText (time : Timestamp) (content options : Text) : Text := (build time content options).text

/-- The bytes in front of the first zero. -/
def untilZero (bytes : Bytes) : Bytes := bytes.takeWhile (· ≠ 0)

/-- A text that ends in front of the first zero; none if it is no UTF-8. -/
def zeroEnded? (bytes : Bytes) : Option Text := Utf8.decode? (untilZero bytes)

def notText (what : Text) : Text :=
  (Json.object [("success".toList, .bool false),
    ("error".toList, .string ("Invalid UTF-8 in ".toList ++ what))]).compact

/-- A text as bytes for a receiver that stops at a zero; a text with a zero in it is not sent. -/
def send (t : Text) : Bytes :=
  if t.contains '\x00' then [] else Utf8.encode t

def parseBytes (content : Bytes) : Bytes :=
  match zeroEnded? content with
  | none => send (notText "content")
  | some t => send (parseText t)

def buildBytes (time : Timestamp) (content options : Bytes) : Bytes :=
  match zeroEnded? content with
  | none => send (notText "content")
  | some t =>
      match zeroEnded? options with
      | none => send (notText "options_json")
      | some o => send (buildText time t o)

end SchemaScript.Exchange
