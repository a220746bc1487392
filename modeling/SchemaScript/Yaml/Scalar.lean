/- The types of scalars: what a plain text means, and what a tag asks for. -/
import SchemaScript.Decimal.Basic
import SchemaScript.Text.Utf8
import SchemaScript.Value

namespace SchemaScript.Yaml

def isNullWord (t : Text) : Bool :=
  [['~'], "null".toList, "Null".toList, "NULL".toList].contains t

def bool? (t : Text) : Option Bool :=
  if ["true".toList, "True".toList, "TRUE".toList].contains t then some true
  else if ["false".toList, "False".toList, "FALSE".toList].contains t then some false
  else none

/-- Digits with a zero in front that stands for nothing are no number. -/
def hasIdleZero (t : Text) : Bool :=
  let digits := match t with
    | '-' :: rest | '+' :: rest => rest
    | t => t
  match digits with
  | '0' :: c :: rest => (c :: rest).all Decimal.isDigit
  | _ => false

/-- A natural number behind the letters of its base. -/
def based? : Text → Option Nat
  | '0' :: 'x' :: rest => Text.nat? 16 rest
  | '0' :: 'o' :: rest => Text.nat? 8 rest
  | '0' :: 'b' :: rest => Text.nat? 2 rest
  | _ => none

def natural? (t : Text) : Option Nat :=
  (based? t).orElse fun _ => Text.nat? 10 t

/-- An integer of any size: a sign, and digits in decimal or another base. -/
def integer? (t : Text) : Option Int :=
  if hasIdleZero t then none
  else match t with
  | '+' :: rest => (natural? rest).map Int.ofNat
  | '-' :: rest => (natural? rest).map fun n => -(n : Int)
  | t => (natural? t).map Int.ofNat

inductive Fit
  /-- It fits into sixty-four bits. -/
  | fits
  /-- It fits into a hundred and twenty-eight bits only, and is refused. -/
  | tooWide
  | none

def fitOf (i : Int) : Fit :=
  if fitsSigned 64 i || fitsUnsigned 64 i then .fits
  else if fitsSigned 128 i || fitsUnsigned 128 i then .tooWide
  else .none

/-- The unsigned part of a float, and whether it is negative. -/
def unsigned (t : Text) : Bool × Text :=
  match t with
  | '+' :: rest => (false, rest)
  | '-' :: rest => (true, rest)
  | t => (false, t)

/-- A float: a decimal in the range of doubles, infinity with or without a sign, or the word for no
number. -/
def float? (t : Text) : Option Double :=
  let (negative, rest) := unsigned t
  if [".inf".toList, ".Inf".toList, ".INF".toList].contains rest then some (.infinite negative)
  else if [".nan".toList, ".NaN".toList, ".NAN".toList].contains t then some .nan
  else (Decimal.read? rest).bind fun d =>
    let x := Double.ofDecimal negative d
    if x.isFinite then some x else none

/-- What a plain scalar means; nothing for an integer that is refused. -/
def plainValue? (t : Text) : Option Value :=
  if t.isEmpty || isNullWord t then some .null
  else match bool? t with
  | some b => some (.bool b)
  | none =>
      let other : Value :=
        match if hasIdleZero t then none else float? t with
        | some x => .float x
        | none => .string t
      match integer? t with
      | none => some other
      | some i =>
          match fitOf i with
          | .fits => some (.integer i)
          | .tooWide => none
          | .none => some other

inductive CoreTag
  | bool
  | int
  | float
  | null
deriving DecidableEq

/-- What the names of core tags begin with. -/
def coreStart : Text := "tag:yaml.org,2002:"

def CoreTag.ofBytes? (tag : Bytes) : Option CoreTag :=
  if tag == Utf8.encode (coreStart ++ "bool".toList) then some .bool
  else if tag == Utf8.encode (coreStart ++ "int".toList) then some .int
  else if tag == Utf8.encode (coreStart ++ "float".toList) then some .float
  else if tag == Utf8.encode (coreStart ++ "null".toList) then some .null
  else none

def CoreTag.value? (tag : CoreTag) (t : Text) : Option Value :=
  match tag with
  | .bool => (bool? t).map .bool
  | .int =>
      (integer? t).bind fun i =>
        match fitOf i with
        | .fits => some (.integer i)
        | _ => none
  | .float => (float? t).map .float
  | .null => if isNullWord t then some .null else none

/-- The name of a local tag, without its exclamation mark unless that is all. Other tags have none. -/
def localTag? (tag : Bytes) : Option Text :=
  match tag with
  | [] => none
  | [b] => if b.toNat = '!'.toNat then some ['!'] else none
  | b :: rest => if b.toNat = '!'.toNat then Utf8.decode? rest else none

def isLocal (tag : Bytes) : Bool := tag.head? == some (UInt8.ofNat '!'.toNat)

/-- The value of a scalar, apart from its local tag. Only a plain scalar has a type of its own. -/
def scalarValue? (tag : Option Bytes) (plain : Bool) (t : Text) : Option Value :=
  match tag with
  | none => if plain then plainValue? t else some (.string t)
  | some tag =>
      match CoreTag.ofBytes? tag with
      | some core => core.value? t
      | none => if isLocal tag && plain then plainValue? t else some (.string t)

end SchemaScript.Yaml
