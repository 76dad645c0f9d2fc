import LinearProgram.Double

/-!
# The shortest decimal text of a double

A double is written with the fewest significant digits that still read back as the same double; of the
candidates with that many digits the one nearest to the exact value is taken, and an exact tie goes to
the even digit.

The search is exact arithmetic on natural numbers. The numbers that round to `m * 2 ^ q` form an
interval around it; for one, two, … seventeen digits the two neighbours of the exact value on that
decimal grid are tested for membership. The interval holds a point of a grid only if it holds one of
the two neighbours, so the first grid with a hit has the fewest digits.
-/

namespace LinearProgram.Decimal

/-! ## §1 Decimal numbers -/

/-- The number `digits * 10 ^ exponent`. -/
structure Numeral where
  digits : Nat
  exponent : Int
deriving DecidableEq, Repr

/-- How many decimal digits `n` has; zero has none. -/
def digitCount (n : Nat) : Nat := if n = 0 then 0 else (Nat.toDigits 10 n).length

/-- The largest `e` with `10 ^ e ≤ num / den`, for a positive quotient. -/
def magnitude (num den : Nat) : Int :=
  if den ≤ num then (digitCount (num / den) : Int) - 1
  else -(digitCount ((den + num - 1) / num - 1) : Int)

/-- Remove trailing zeros of the digits, with as many steps as there are digits. -/
def stripZeros : Nat → Numeral → Numeral
  | 0, d => d
  | fuel + 1, d =>
    if d.digits ≠ 0 ∧ d.digits % 10 = 0 then stripZeros fuel ⟨d.digits / 10, d.exponent + 1⟩ else d

/-- The same number with a last digit other than zero. -/
def Numeral.trimmed (d : Numeral) : Numeral := stripZeros (digitCount d.digits) d

/-! ## §2 The rounding interval -/

/-- The numbers that round to one double: the quotients between `low / den` and `high / den`, with the
double itself at `mid / den`. The ends belong to it when `closed`. -/
structure Interval where
  low : Nat
  mid : Nat
  high : Nat
  den : Nat
  closed : Bool

/-- The rounding interval of the positive double `m * 2 ^ q`. It reaches half a unit to both sides, but
only a quarter below a power of two, where the next smaller double is nearer. -/
def Interval.ofExact (m : Nat) (q : Int) : Interval :=
  -- everything is counted in quarters of a unit, so that both ends are whole numbers
  let narrow := m = Double.leadingBit ∧ -1074 < q
  let unit := if 2 ≤ q then Nat.pow 2 (q - 2).toNat else 1
  let den := if 2 ≤ q then 1 else Nat.pow 2 (2 - q).toNat
  { low := (4 * m - if narrow then 1 else 2) * unit
    mid := 4 * m * unit
    high := (4 * m + 2) * unit
    den := den
    closed := m % 2 = 0 }

/-- The grid point chosen among the multiples of `10 ^ g`, if one of the two neighbours of the middle
lies in the interval. -/
def Interval.pointOn? (i : Interval) (g : Int) : Option Numeral :=
  -- one side of the comparison is scaled, so that the grid consists of whole numbers
  let up := if g < 0 then Nat.pow 10 (-g).toNat else 1
  let den := if g < 0 then i.den else i.den * Nat.pow 10 g.toNat
  let mid := i.mid * up
  let below := mid / den
  let above := below + 1
  let low := i.low * up
  let high := i.high * up
  let hasBelow := low < below * den ∨ (i.closed ∧ low = below * den)
  let hasAbove := above * den < high ∨ (i.closed ∧ above * den = high)
  let toBelow := mid - below * den
  let toAbove := above * den - mid
  -- of two hits the nearer one, and the even one if neither is nearer
  if hasBelow ∧ hasAbove then
    if toBelow < toAbove ∨ (toBelow = toAbove ∧ below % 2 = 0) then some ⟨below, g⟩ else some ⟨above, g⟩
  else if hasBelow then some ⟨below, g⟩
  else if hasAbove then some ⟨above, g⟩
  else none

/-- The chosen point of the coarsest grid that has one, among the grids with `count` to seventeen
significant digits. -/
def Interval.search (i : Interval) (top : Int) : Nat → Nat → Numeral
  | 0, _ => ⟨i.mid / i.den, 0⟩
  | fuel + 1, count =>
    match i.pointOn? (top - count + 1) with
    | some d => d
    | none => i.search top fuel (count + 1)

/-- The decimal with the fewest digits that reads back as the positive double `m * 2 ^ q`. -/
def shortest (m : Nat) (q : Int) : Numeral :=
  let i := Interval.ofExact m q
  (i.search (magnitude i.mid i.den) 17 1).trimmed

/-! ## §3 Text -/

/-- An exponent with its sign and at least two digits. -/
def exponentText (e : Int) : String :=
  let digits := toString e.natAbs
  (if e < 0 then "-" else "+") ++ (if digits.length < 2 then "0" ++ digits else digits)

def zeros (count : Nat) : String := String.ofList (List.replicate count '0')

/-- Written out between 0.0001 and 10 ^ 16, always with a decimal point; with an exponent elsewhere. -/
def Numeral.text (d : Numeral) : String :=
  let digits := (toString d.digits).toList
  let count := digits.length
  let point : Int := count + d.exponent
  if -4 < point ∧ point ≤ 16 then
    if point ≤ 0 then "0." ++ zeros (-point).toNat ++ String.ofList digits
    else if (count : Int) ≤ point then String.ofList digits ++ zeros (point.toNat - count) ++ ".0"
    else String.ofList (digits.take point.toNat) ++ "." ++ String.ofList (digits.drop point.toNat)
  else
    let rest := String.ofList (digits.drop 1)
    String.ofList (digits.take 1) ++ (if count = 1 then "" else "." ++ rest) ++ "e" ++
      exponentText (point - 1)

end LinearProgram.Decimal

namespace LinearProgram.Double

open Decimal

/-- The shortest text that reads back as `x`; infinities and NaN are `inf`, `-inf` and `nan`. -/
def text (x : Float) : String :=
  match value? x with
  | none => if x.isNaN then "nan" else if isNegative x then "-inf" else "inf"
  | some v =>
    (if v.negative then "-" else "") ++
      (if v.significand = 0 then "0.0" else (shortest v.significand v.exponent).text)

end LinearProgram.Double
