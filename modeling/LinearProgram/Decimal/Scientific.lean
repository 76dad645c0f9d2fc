import LinearProgram.Decimal.Shortest

/-!
# Fixed scientific text of a double

Reports show numbers with one digit before the point, six after it and an exponent of at least two
digits. The exact value is rounded to seven significant digits, a half going to the even neighbour.
-/

namespace LinearProgram.Decimal

def places : Nat := 6

/-- The quotient rounded to the nearest integer, a half to the even one. -/
def roundQuotient (num den : Nat) : Nat :=
  let q := num / den
  let r := num % den
  if 2 * r < den ∨ (2 * r = den ∧ q % 2 = 0) then q else q + 1

/-- The positive quotient `num / den` rounded to `places + 1` significant digits. -/
def roundSignificant (num den : Nat) : Numeral :=
  let g := magnitude num den - places
  let q := if g < 0 then roundQuotient (num * Nat.pow 10 (-g).toNat) den
    else roundQuotient num (den * Nat.pow 10 g.toNat)
  -- rounding up may carry into one more digit
  if q = Nat.pow 10 (places + 1) then ⟨Nat.pow 10 places, g + 1⟩ else ⟨q, g⟩

/-- The digits with a point after the first one, and the exponent. -/
def Numeral.scientificText (d : Numeral) : String :=
  let digits := (toString d.digits).toList
  String.ofList (digits.take 1) ++ "." ++ String.ofList (digits.drop 1) ++ "e" ++
    exponentText (d.exponent + places)

end LinearProgram.Decimal

namespace LinearProgram.Double

open Decimal

/-- The text of `x` in a report: `1.250000e+01`; infinities and NaN as in `text`. -/
def scientific (x : Float) : String :=
  match value? x with
  | none => text x
  | some v =>
    let sign := if v.negative then "-" else ""
    if v.significand = 0 then sign ++ "0." ++ zeros places ++ "e+00"
    else
      let num := if 0 ≤ v.exponent then v.significand * Nat.pow 2 v.exponent.toNat else v.significand
      let den := if 0 ≤ v.exponent then 1 else Nat.pow 2 (-v.exponent).toNat
      sign ++ (roundSignificant num den).scientificText

end LinearProgram.Double
