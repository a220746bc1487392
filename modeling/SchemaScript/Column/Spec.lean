/- A column text taken apart into type, attributes and trailing clause, and the clause
   that is written for it. -/
import SchemaScript.Column.Keyword
import SchemaScript.Column.Token

namespace SchemaScript.Column

inductive Nullability
  | null
  | notNull
deriving Repr, DecidableEq

def Nullability.clause : Nullability → Text
  | .null => "NULL"
  | .notNull => "NOT NULL"

/-- A column text sorted by meaning, before defaults are applied. -/
structure Spec where
  /-- The words of the type, such as `varchar(255)`. -/
  dataType : Text := []
  numeric : Bool := false
  /-- A plus sign was written on a numeric type. -/
  signed : Bool := false
  zerofill : Bool := false
  nullability : Option Nullability := none
  autoIncrement : Bool := false
  primary : Bool := false
  unique : Bool := false
  /-- The clause that starts at the first trailing keyword. -/
  trailing : Option Text := none
deriving Repr, DecidableEq

/-- Tokens sorted by meaning. The tokens of the type and of the trailing clause keep their order. -/
structure Parts where
  body : List Text := []
  trailing : List Text := []
  zerofill : Bool := false
  nullability : Option Nullability := none
  autoIncrement : Bool := false
  primary : Bool := false
  unique : Bool := false
deriving Repr, DecidableEq

def Parts.mark (p : Parts) : IndexKind → Parts
  | .primary => { p with primary := true }
  | .unique => { p with unique := true }

/-- The first token is a given word, in any letter case. -/
def startsWith (word : Text) : List Text → Bool
  | [] => false
  | token :: _ => Text.sameIgnoringCase token word

/-- Sorts tokens, from the left. Index markers with a `KEY` behind them, `AUTO_INCREMENT`,
`UNSIGNED`, `ZEROFILL` and `NULLABLE` are taken out everywhere; `NULL` and `NOT NULL` only
before the trailing clause. Of several nullabilities the first counts. -/
def sortTokens (inTrailing : Bool) : List Text → Parts
  | [] => {}
  | token :: rest =>
      if Text.sameIgnoringCase token "AUTO_INCREMENT" then
        { sortTokens inTrailing rest with autoIncrement := true }
      else match IndexKind.ofKeyword? token with
      | some kind =>
          match rest with
          | [] => ({} : Parts).mark kind
          | next :: later =>
              if Text.sameIgnoringCase next "KEY" then (sortTokens inTrailing later).mark kind
              else (sortTokens inTrailing (next :: later)).mark kind
      | none =>
          if Text.sameIgnoringCase token "UNSIGNED" then sortTokens inTrailing rest
          else if Text.sameIgnoringCase token "ZEROFILL" then
            { sortTokens inTrailing rest with zerofill := true }
          else if Text.sameIgnoringCase token "NULLABLE" then
            { sortTokens inTrailing rest with nullability := some .null }
          else if inTrailing || opensTrailing token then
            let parts := sortTokens true rest
            { parts with trailing := token :: parts.trailing }
          else if Text.sameIgnoringCase token "NOT" && startsWith "NULL" rest then
            match rest with
            | [] => {}
            | _ :: later => { sortTokens inTrailing later with nullability := some .notNull }
          else if Text.sameIgnoringCase token "NULL" then
            { sortTokens inTrailing rest with nullability := some .null }
          else
            let parts := sortTokens inTrailing rest
            { parts with body := token :: parts.body }

/-- Takes the first plus sign out of the first token that has one; a token that was only the
sign goes with it. -/
def takePlus? : List Text → Option (List Text)
  | [] => none
  | token :: rest =>
      if token.contains '+' then
        match token.erase '+' with
        | [] => some rest
        | c :: cs => some ((c :: cs) :: rest)
      else (takePlus? rest).map (token :: ·)

/-- The first token of the type decides whether the column is numeric. -/
def hasNumericType : List Text → Bool
  | [] => false
  | token :: _ => isNumericType token

/-- The specification in sorted tokens. Only a numeric type has a sign to take out. -/
def Parts.spec (p : Parts) : Spec :=
  let numeric := hasNumericType p.body
  let plain := if numeric then takePlus? p.body else none
  { dataType := Text.join [' '] (plain.getD p.body)
    numeric
    signed := plain.isSome
    zerofill := p.zerofill
    nullability := p.nullability
    autoIncrement := p.autoIncrement
    primary := p.primary
    unique := p.unique
    trailing := if p.trailing.isEmpty then none else some (Text.join [' '] p.trailing) }

def scan (t : Text) : Spec := (sortTokens false (tokenize t)).spec

namespace Spec

/-- A numeric column is unsigned unless it was marked. -/
def signClause (s : Spec) : Text :=
  if s.numeric then
    (if s.signed then [] else " UNSIGNED".toList) ++ (if s.zerofill then " ZEROFILL".toList else [])
  else []

/-- A column holds no null unless it was said to. -/
def nullClause (s : Spec) : Text :=
  ' ' :: (s.nullability.getD .notNull).clause

def trailingClause (s : Spec) : Text :=
  match s.trailing with
  | none => []
  | some clause => ' ' :: clause

def render (s : Spec) : Text :=
  Text.trim (s.dataType ++ s.signClause ++ s.nullClause ++ s.trailingClause)

end Spec
end SchemaScript.Column
