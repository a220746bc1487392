/- Binary floating-point numbers of double precision, and the decimals nearest to them. -/
import SchemaScript.Decimal.Basic

namespace SchemaScript

/-- A number of double precision. A finite one is `mantissa * 2 ^ exponent` with a sign; its mantissa
has at most fifty-three bits, and fewer only at the least exponent. -/
inductive Double
  | nan
  | infinite (negative : Bool)
  | finite (negative : Bool) (mantissa : Nat) (exponent : Int)
deriving Repr, DecidableEq

namespace Double

/-- The least exponent, that of the numbers nearest to zero. -/
def leastExponent : Int := -1074

/-- The exponent of the largest numbers. -/
def greatestExponent : Int := 971

/-- The least mantissa of fifty-three bits. -/
def leastNormal : Nat := Nat.pow 2 52

def zero (negative : Bool) : Double := .finite negative 0 leastExponent

def isFinite : Double → Bool
  | .finite .. => true
  | _ => false

/-- Equality of values: zero has no sign, and a number that is none equals itself. -/
def same : Double → Double → Bool
  | .nan, .nan => true
  | .infinite a, .infinite b => a == b
  | .finite a m x, .finite b n y => (m == n && x == y && a == b) || (m == 0 && n == 0)
  | _, _ => false

/-- The natural number nearest to a quotient; of two, the even one. -/
def roundQuotient (num den : Nat) : Nat :=
  let down := num / den
  let twice := 2 * (num % den)
  if twice < den then down
  else if den < twice then down + 1
  else if down % 2 = 0 then down else down + 1

/-- A quotient divided by a power of a base, as numerator and denominator. -/
def shiftQuotient (base num den : Nat) (power : Int) : Nat × Nat :=
  if 0 ≤ power then (num, den * Nat.pow base power.toNat)
  else (num * Nat.pow base (-power).toNat, den)

/-- The greatest power of two that is not above a quotient of positive numbers. -/
def binaryExponent (num den : Nat) : Int :=
  let guess : Int := (num.log2 : Int) - den.log2
  let (a, b) := shiftQuotient 2 num den guess
  if b ≤ a then guess else guess - 1

/-- The double nearest to a quotient of positive numbers; of two, the one with the even mantissa. -/
def ofQuotient (negative : Bool) (num den : Nat) : Double :=
  let exponent := max (binaryExponent num den - 52) leastExponent
  let (a, b) := shiftQuotient 2 num den exponent
  let rounded := roundQuotient a b
  let (mantissa, exponent) :=
    if rounded = 2 * leastNormal then (leastNormal, exponent + 1) else (rounded, exponent)
  if greatestExponent < exponent then .infinite negative
  else if mantissa = 0 then zero negative
  else .finite negative mantissa exponent

/-- The double nearest to a decimal. Decimals far outside the range are not computed. -/
def ofDecimal (negative : Bool) (d : Decimal) : Double :=
  if d.digits = 0 then zero negative
  else
    let places := d.exponent + (Text.ofNat d.digits).length
    if 310 < places then .infinite negative
    else if places < -330 then zero negative
    else
      let (num, den) := shiftQuotient 10 d.digits 1 (-d.exponent)
      ofQuotient negative num den

def quotient (mantissa : Nat) (exponent : Int) : Nat × Nat :=
  shiftQuotient 2 mantissa 1 (-exponent)

def mul : Double → Double → Double
  | .finite a m x, .finite b n y =>
      if m * n = 0 then zero (a != b)
      else
        let (num, den) := quotient (m * n) (x + y)
        ofQuotient (a != b) num den
  | .infinite a, .finite b n _ | .finite a n _, .infinite b =>
      if n = 0 then .nan else .infinite (a != b)
  | .infinite a, .infinite b => .infinite (a != b)
  | .nan, _ | _, .nan => .nan

def div : Double → Double → Double
  | .finite a m x, .finite b n y =>
      if n = 0 then (if m = 0 then .nan else .infinite (a != b))
      else if m = 0 then zero (a != b)
      else
        let (num, den) := quotient m (x - y)
        ofQuotient (a != b) num (den * n)
  | .infinite a, .finite b _ _ => .infinite (a != b)
  | .finite a _ _, .infinite b => zero (a != b)
  | .infinite _, .infinite _ | .nan, _ | _, .nan => .nan

/-- The exponent of the greatest power of ten that is a double. -/
def greatestTen : Int := 308

def powerOfTen (exponent : Int) : Double := ofDecimal false { digits := 1, exponent }

/-- The double nearest to a whole number, multiplied or divided by powers of ten that are doubles, with
a rounding at each step. -/
def scaled (negative : Bool) (digits : Nat) (exponent : Int) : Double :=
  let x := ofDecimal negative { digits, exponent := 0 }
  if digits = 0 then x
  else if greatestTen < exponent then .infinite negative
  else if 0 ≤ exponent then x.mul (powerOfTen exponent)
  else if -greatestTen ≤ exponent then x.div (powerOfTen (-exponent))
  else if -(2 * greatestTen) ≤ exponent then
    (x.div (powerOfTen greatestTen)).div (powerOfTen (-exponent - greatestTen))
  else zero negative

/-- The numbers that round to a double: those between two bounds, which belong to them if the
mantissa is even. The bounds are given as multiples of `2 ^ (exponent - 2)`. -/
structure Interval where
  low : Nat
  high : Nat
  closed : Bool

/-- Half way to the neighbours on both sides. Below a power of two the lower one is nearer. -/
def interval (mantissa : Nat) (exponent : Int) : Interval :=
  let nearer := mantissa = leastNormal ∧ leastExponent < exponent
  { low := if nearer then 4 * mantissa - 1 else 4 * mantissa - 2
    high := 4 * mantissa + 2
    closed := mantissa % 2 = 0 }

def rounds (mantissa : Nat) (exponent : Int) (d : Decimal) : Bool :=
  let i := interval mantissa exponent
  let (num, den) := shiftQuotient 10 d.digits 1 (-d.exponent)
  let (num, den) := shiftQuotient 2 num den (exponent - 2)
  if i.closed then decide (i.low * den ≤ num ∧ num ≤ i.high * den)
  else decide (i.low * den < num ∧ num < i.high * den)

/-- The number of places before the decimal point, negative for zeros behind it. -/
def decimalPoint (num den : Nat) : Int :=
  let guess : Int := ((Text.ofNat num).length : Int) - (Text.ofNat den).length
  let (a, b) := shiftQuotient 10 num den guess
  if b ≤ a then guess + 1 else guess

/-- The neighbour of a positive double on a decimal grid, if one rounds to it; of two the nearer,
and of two as near the one with the even last digit. -/
def onGrid? (mantissa : Nat) (exponent : Int) (num den : Nat) (grid : Int) : Option Decimal :=
  let (a, b) := shiftQuotient 10 num den grid
  let below : Decimal := { digits := a / b, exponent := grid }
  let above : Decimal := { digits := a / b + 1, exponent := grid }
  let nearest : Decimal := { digits := roundQuotient a b, exponent := grid }
  match rounds mantissa exponent below, rounds mantissa exponent above with
  | true, true => some nearest
  | true, false => some below
  | false, true => some above
  | false, false => none

/-- Tries grids of more and more digits, up to a number of further tries. -/
def shortestFrom (mantissa : Nat) (exponent : Int) (num den : Nat) :
    (tries : Nat) → (grid : Int) → Decimal
  | 0, grid =>
      let (a, b) := shiftQuotient 10 num den grid
      { digits := roundQuotient a b, exponent := grid }
  | tries + 1, grid =>
      match onGrid? mantissa exponent num den grid with
      | some d => d
      | none => shortestFrom mantissa exponent num den tries (grid - 1)

/-- The decimal with the fewest digits that rounds to a positive double. Seventeen digits always
suffice. -/
def shortest (mantissa : Nat) (exponent : Int) : Decimal :=
  let (num, den) := quotient mantissa exponent
  let d := shortestFrom mantissa exponent num den 17 (decimalPoint num den - 1)
  d.stripZeros 20

/-- The text of a double: the fewest digits that read back as it. -/
def text : Double → Text
  | .nan => ".nan"
  | .infinite negative => if negative then "-.inf" else ".inf"
  | .finite negative mantissa exponent =>
      let sign : Text := if negative then ['-'] else []
      if mantissa = 0 then sign ++ ['0', '.', '0']
      else
        let d := shortest mantissa exponent
        let digits := Text.ofNat d.digits
        sign ++ Decimal.defaultLayout.text digits (d.exponent + digits.length)

end Double
end SchemaScript
