/- Numbers of JSON: how their digits are kept, and the integers and doubles that they stand for. -/
import SchemaScript.Decimal.Double

namespace SchemaScript

/-- A number of JSON. A whole one was written without a fraction and without an exponent, and all its
digits were kept. -/
structure JsonNumber where
  negative : Bool
  magnitude : Decimal
  whole : Bool
deriving Repr, DecidableEq

namespace JsonNumber

/-- Puts digits behind a number as long as it fits into sixty-four bits, and gives the digits that are
left from the first that does not fit. -/
def takeDigits (n : Nat) : Text → Nat × Text
  | [] => (n, [])
  | c :: rest =>
      let next := n * 10 + (c.toNat - '0'.toNat)
      if fitsUnsigned 64 next then takeDigits next rest else (n, c :: rest)

/-- A number with the digits before its point, those behind it, and its exponent. Digits before the
point that are left scale the number by a power of ten each; digits behind the point that are left
count for nothing. -/
def ofParts (negative : Bool) (whole : Text) (fraction : Option Text) (exponent : Option Int) :
    JsonNumber :=
  let (n, left) := takeDigits 0 whole
  let (digits, dropped) := takeDigits n (fraction.getD [])
  let places : Int := (fraction.getD []).length - dropped.length
  { negative
    magnitude := { digits, exponent := exponent.getD 0 + left.length - places }
    whole := fraction.isNone && exponent.isNone && left.isEmpty }

/-- The integers that fit into sixty-four bits, with or without a sign, are kept as integers.
Minus zero is none of them. -/
def integer? (n : JsonNumber) : Option Int :=
  if !n.whole then none
  else if n.negative then
    let i : Int := -(n.magnitude.digits : Int)
    if i ≠ 0 ∧ fitsSigned 64 i then some i else none
  else if fitsUnsigned 64 n.magnitude.digits then some n.magnitude.digits
  else none

/-- The double of a number: that of its digits, multiplied or divided by that of its power of ten.
Each step is rounded, so that the result may be a neighbour of the double nearest to the number. -/
def double (n : JsonNumber) : Double := .scaled n.negative n.magnitude.digits n.magnitude.exponent

def inRange (n : JsonNumber) : Bool := n.integer?.isSome || n.double.isFinite

end JsonNumber
end SchemaScript
