/- Decimal numbers as digits and a power of ten, how a text writes them, and the integers that fit into
   a number of bits. -/
import SchemaScript.Text.Ascii

namespace SchemaScript

/-- The number `digits * 10 ^ exponent`. -/
structure Decimal where
  digits : Nat
  exponent : Int
deriving Repr, DecidableEq

namespace Decimal

def isDigit (c : Char) : Bool := '0' ≤ c && c ≤ '9'

/-- The whole number that a run of digits stands for; no digits stand for zero. -/
def wholePart (digits : Text) : Nat :=
  digits.foldl (fun n c => n * 10 + (c.toNat - '0'.toNat)) 0

/-- A decimal with the digits before and after its point, scaled by a power of ten. -/
def ofParts (whole fraction : Text) (scale : Int) : Decimal :=
  { digits := wholePart (whole ++ fraction), exponent := scale - fraction.length }

/-- An exponent behind a number: nothing at all, or the letter and an integer with or
without a sign. -/
def exponent? : Text → Option Int
  | [] => some 0
  | c :: rest => if c = 'e' ∨ c = 'E' then Text.int? rest else none

/-- Reads a number without a sign: digits, a point and digits, an exponent. The point may stand
first or last, but there is a digit before the exponent. -/
def read? (t : Text) : Option Decimal :=
  let whole := t.takeWhile isDigit
  match t.dropWhile isDigit with
  | '.' :: rest =>
      let fraction := rest.takeWhile isDigit
      if whole.isEmpty && fraction.isEmpty then none
      else (exponent? (rest.dropWhile isDigit)).map (ofParts whole fraction)
  | rest => if whole.isEmpty then none else (exponent? rest).map (ofParts whole [])

/-- Moves zeros at the end of the digits into the exponent, at most a given number of them. -/
def stripZeros : (most : Nat) → Decimal → Decimal
  | 0, d => d
  | most + 1, d =>
      if d.digits ≠ 0 ∧ d.digits % 10 = 0 then
        stripZeros most { digits := d.digits / 10, exponent := d.exponent + 1 }
      else d

structure Layout where
  /-- The number of places from the first digit to the point above which the plain form holds. -/
  plainAbove : Int
  /-- The number of places up to which the plain form holds. -/
  plainUpTo : Int

/-- The text of digits with the point `point` places behind the first of them: plain, with a digit
on both sides of the point, or as one digit, its fraction and an exponent. -/
def Layout.text (layout : Layout) (digits : Text) (point : Int) : Text :=
  if layout.plainAbove < point ∧ point ≤ layout.plainUpTo then
    if 0 < point then
      let places := point.toNat
      if digits.length ≤ places then
        digits ++ List.replicate (places - digits.length) '0' ++ ['.', '0']
      else digits.take places ++ '.' :: digits.drop places
    else ['0', '.'] ++ List.replicate (-point).toNat '0' ++ digits
  else
    match digits with
    | [] => []
    | first :: fraction =>
        let mantissa := if fraction.isEmpty then [first] else first :: '.' :: fraction
        mantissa ++ 'e' :: Text.ofInt (point - 1)

/-- Plain from five zeros behind the point up to sixteen places before it. -/
def defaultLayout : Layout := { plainAbove := -5, plainUpTo := 16 }

end Decimal

/-- Whether an integer fits into so many bits, one of them for its sign. -/
def fitsSigned (bits : Nat) (i : Int) : Bool :=
  let bound : Int := Nat.pow 2 (bits - 1)
  decide (-bound ≤ i ∧ i < bound)

def fitsUnsigned (bits : Nat) (i : Int) : Bool :=
  let bound : Int := Nat.pow 2 bits
  decide (0 ≤ i ∧ i < bound)

end SchemaScript
