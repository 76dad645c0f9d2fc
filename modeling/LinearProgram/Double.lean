/-!
# Doubles as exact numbers

The layer's numbers are IEEE doubles, `Float` here. This module reads a finite double as the exact
number that it is, an integer times a power of two, and supplies the conversions that need that
reading: truncation to an integer, the value as a whole number of the smallest units, and the nearest
double of an integer.

`ofInt?` fails exactly when the nearest double is infinite, and `truncate?` exactly on the doubles that
have no value: the infinities and NaN.
-/

namespace LinearProgram.Double

/-! ## §1 Special values -/

/-- Positive infinity: "no bound on this side", when it stands in a pair of bounds. -/
def infinity : Float := Float.ofBits 0x7FF0000000000000

def negInfinity : Float := Float.ofBits 0xFFF0000000000000

/-- The one value that is no number. -/
def nan : Float := Float.ofBits 0x7FF8000000000000

/-- How many of the smallest positive doubles make one, which is 2 to the power of 1074. -/
def unitsPerOne : Nat := Nat.pow 2 1074

/-- The weight of the sign bit, the highest of 64 bits. -/
def signBit : Nat := 9223372036854775808

/-- The weight of the leading bit of a significand, the highest of 53 bits. -/
def leadingBit : Nat := 4503599627370496

def isNegative (x : Float) : Bool := decide (signBit ≤ x.toBits.toNat)

/-- The infinity that has the sign of `x`. -/
def infinityLike (x : Float) : Float := if isNegative x then negInfinity else infinity

/-! ## §2 The exact value of a finite double -/

/-- A number `± significand * 2 ^ exponent`. -/
structure Exact where
  negative : Bool
  significand : Nat
  exponent : Int
deriving DecidableEq, Repr

/-- The exact value of `x`, unless `x` is infinite or no number. Subnormal doubles and the zeros have
the smallest exponent, all others a significand of exactly 53 bits. -/
def value? (x : Float) : Option Exact :=
  let bits := x.toBits.toNat
  let field := bits / leadingBit % 2048
  let fraction := bits % leadingBit
  -- an exponent field of ones only marks what is no finite number
  if field = 2047 then none
  -- the zeros and the subnormal doubles have no hidden leading bit
  else if field = 0 then some ⟨isNegative x, fraction, -1074⟩
  else some ⟨isNegative x, leadingBit + fraction, Int.ofNat field - 1075⟩

namespace Exact

def floorAbs (v : Exact) : Nat :=
  if 0 ≤ v.exponent then v.significand * Nat.pow 2 v.exponent.toNat
  else v.significand / Nat.pow 2 (-v.exponent).toNat

/-- The integer reached by dropping the fraction. -/
def truncate (v : Exact) : Int :=
  if v.negative then -(v.floorAbs : Int) else v.floorAbs

/-- The value as a multiple of the smallest positive double, which every finite double is. -/
def units (v : Exact) : Int :=
  let n : Int := v.significand * Nat.pow 2 (v.exponent + 1074).toNat
  if v.negative then -n else n

end Exact

/-! ## §3 Between doubles and integers -/

/-- Drop the fraction; infinities and NaN have no integer part. -/
def truncate? (x : Float) : Option Int := (value? x).map Exact.truncate

/-- The nearest double of an integer, ties to the even significand; `none` beyond the range. -/
def ofInt? (n : Int) : Option Float :=
  let x := Float.ofInt n
  if x.isInf then none else some x

end LinearProgram.Double
