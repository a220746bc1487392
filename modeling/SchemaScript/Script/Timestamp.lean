/- Points in time, written as date, time of day and offset. -/
import SchemaScript.Text.Ascii

namespace SchemaScript

/-- A date and a time of day, and by how many minutes they are ahead of universal time. -/
structure Timestamp where
  year : Int
  month : Nat
  day : Nat
  hour : Nat
  minute : Nat
  second : Nat
  offset : Int
deriving Repr, DecidableEq

namespace Timestamp

def isLeapYear (year : Int) : Bool :=
  year % 4 == 0 && (year % 100 != 0 || year % 400 == 0)

def daysInMonth (year : Int) (month : Nat) : Nat :=
  if month = 2 then (if isLeapYear year then 29 else 28)
  else if month = 4 ∨ month = 6 ∨ month = 9 ∨ month = 11 then 30
  else 31

/-- A date of the calendar, a time of day that may be a leap second, and an offset of less than
a day. -/
def isValid (t : Timestamp) : Bool :=
  1 ≤ t.month && t.month ≤ 12 && 1 ≤ t.day && t.day ≤ daysInMonth t.year t.month
    && t.hour ≤ 23 && t.minute ≤ 59 && t.second ≤ 60 && t.offset.natAbs < 24 * 60

/-- A year of four digits. Years that have more of them, and those before the year zero, have a sign. -/
def yearText (year : Int) : Text :=
  let digits := Text.ofNatPadded 4 year.natAbs
  if year < 0 then '-' :: digits else if 9999 < year then '+' :: digits else digits

/-- `YYYY-MM-DDTHH:MM:SS+HH:MM`. -/
def text (t : Timestamp) : Text :=
  let two := Text.ofNatPadded 2
  yearText t.year ++ '-' :: two t.month ++ '-' :: two t.day
    ++ 'T' :: two t.hour ++ ':' :: two t.minute ++ ':' :: two t.second
    ++ (if t.offset < 0 then '-' else '+') :: two (t.offset.natAbs / 60)
    ++ ':' :: two (t.offset.natAbs % 60)

/-- A number of exactly so many digits, and what follows it. -/
def digits? (count : Nat) (t : Text) : Option (Nat × Text) :=
  if (t.take count).length = count ∧ (t.take count).all (fun c => '0' ≤ c && c ≤ '9') then
    (Text.nat? 10 (t.take count)).map fun n => (n, t.drop count)
  else none

def behind? (c : Char) (t : Text) : Option Text := Text.after? [c] t

/-- A fraction of a second is one digit or more behind a point; it is dropped. -/
def afterFraction? : Text → Option Text
  | '.' :: c :: rest =>
      if '0' ≤ c && c ≤ '9' then some (rest.dropWhile fun c => '0' ≤ c && c ≤ '9') else none
  | '.' :: [] => none
  | t => some t

/-- Reads an offset: `Z`, or a sign, hours, a colon and minutes. The sign may be U+2212. -/
def offset? : Text → Option Int
  | ['Z'] | ['z'] => some 0
  | sign :: rest => do
      let negative ← if sign = '+' then some false
        else if sign = '-' ∨ sign = '\u2212' then some true else none
      let (hours, rest) ← digits? 2 rest
      let (minutes, rest) ← digits? 2 (← behind? ':' rest)
      if !rest.isEmpty || 59 < minutes then none
      else
        let total : Int := (hours * 60 + minutes : Nat)
        some (if negative then -total else total)
  | [] => none

/-- A date is separated from the time of day by one `T`, `t` or space. -/
def afterSeparator? : Text → Option Text
  | 'T' :: t | 't' :: t | ' ' :: t => some t
  | _ => none

/-- Reads a date, a separator, a time of day with seconds, and an offset. -/
def read? (t : Text) : Option Timestamp := do
  let (year, t) ← digits? 4 t
  let (month, t) ← digits? 2 (← behind? '-' t)
  let (day, t) ← digits? 2 (← behind? '-' t)
  let (hour, t) ← digits? 2 (← afterSeparator? t)
  let (minute, t) ← digits? 2 (← behind? ':' t)
  let (second, t) ← digits? 2 (← behind? ':' t)
  let offset ← offset? (← afterFraction? t)
  let result : Timestamp := { year, month, day, hour, minute, second, offset }
  if result.isValid then some result else none

/-- Splits a number of days since 0000-03-01 into year, month and day; the year begins in March, so
that a leap day ends it. -/
def ofDays (days : Nat) : Nat × Nat × Nat :=
  let era := days / 146097
  let dayOfEra := days % 146097
  let yearOfEra := (dayOfEra - dayOfEra / 1460 + dayOfEra / 36524 - dayOfEra / 146096) / 365
  let dayOfYear := dayOfEra - (365 * yearOfEra + yearOfEra / 4 - yearOfEra / 100)
  let shifted := (5 * dayOfYear + 2) / 153
  let day := dayOfYear - (153 * shifted + 2) / 5 + 1
  let month := if shifted < 10 then shifted + 3 else shifted - 9
  let year := era * 400 + yearOfEra + (if month ≤ 2 then 1 else 0)
  (year, month, day)

/-- The timestamp of a number of seconds since the start of 1970, in universal time. -/
def ofSeconds (seconds : Nat) : Timestamp :=
  let (year, month, day) := ofDays (seconds / 86400 + 719468)
  let rest := seconds % 86400
  { year, month, day, hour := rest / 3600, minute := rest / 60 % 60, second := rest % 60, offset := 0 }

end Timestamp
end SchemaScript
