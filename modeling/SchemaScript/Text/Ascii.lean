/- Comparison that ignores the case of the letters A to Z and of no others. -/
import SchemaScript.Text.Basic

namespace SchemaScript.Text

/-- Lowers A to Z and keeps every other character. -/
def lower (t : Text) : Text := t.map Char.toLower

def sameIgnoringCase (a b : Text) : Bool := lower a == lower b

def isAlphanumeric (c : Char) : Bool :=
  ('0' ≤ c && c ≤ '9') || ('a' ≤ c && c ≤ 'z') || ('A' ≤ c && c ≤ 'Z')

/-- The value of a digit in bases up to sixteen, in either case. -/
def digitValue? (c : Char) : Option Nat :=
  if '0' ≤ c ∧ c ≤ '9' then some (c.toNat - '0'.toNat)
  else if 'a' ≤ c ∧ c ≤ 'f' then some (c.toNat - 'a'.toNat + 10)
  else if 'A' ≤ c ∧ c ≤ 'F' then some (c.toNat - 'A'.toNat + 10)
  else none

def decimalDigit? (c : Char) : Option Nat :=
  (digitValue? c).filter (· < 10)

/-- Reads digits of a base after a number already read; any other character refuses the text. -/
def natFrom? (base : Nat) (value : Nat) : Text → Option Nat
  | [] => some value
  | c :: rest =>
      match digitValue? c with
      | some d => if d < base then natFrom? base (value * base + d) rest else none
      | none => none

/-- A natural number in a base: one digit or more and nothing else. -/
def nat? (base : Nat) (t : Text) : Option Nat :=
  if t.isEmpty then none else natFrom? base 0 t

/-- A decimal integer: an optional sign, then digits and nothing else. -/
def int? : Text → Option Int
  | '+' :: digits => (nat? 10 digits).map Int.ofNat
  | '-' :: digits => (nat? 10 digits).map fun n => -(n : Int)
  | digits => (nat? 10 digits).map Int.ofNat

end SchemaScript.Text
