import LinearProgram.Choice

/-!
# Bounds

A pair of a lower and an upper bound, either of which may be infinite, is stored as a `Bound`: which
sides are finite, and their values, with zero on a side that has none. Columns and rows of every engine
share this form.

`encode` refuses a pair exactly when one of its members is NaN. The sign of an infinity does not
matter: any infinity means "no bound on this side".
-/

namespace LinearProgram

/-- Which sides of an interval are finite. -/
inductive BoundKind where
  | free
  | lower
  | upper
  | double
  | fixed
deriving DecidableEq, Repr

instance : Choice BoundKind where
  label := "BoundType"
  all := [.free, .lower, .upper, .double, .fixed]
  name
    | .free => "free"
    | .lower => "lower"
    | .upper => "upper"
    | .double => "double"
    | .fixed => "fixed"

/-- The two sides of a stored bound, with `bottom` and `top` where the kind has no bound. A fixed bound
has one value, the lower one. -/
def BoundKind.sides {α : Type} (bottom top : α) (kind : BoundKind) (lower upper : α) : α × α :=
  match kind with
  | .free => (bottom, top)
  | .lower => (lower, top)
  | .upper => (bottom, upper)
  | .double => (lower, upper)
  | .fixed => (lower, lower)

/-- A stored bound. Only `kind` says whether a side is meaningful. -/
structure Bound where
  kind : BoundKind
  lower : Float
  upper : Float
deriving DecidableEq

namespace Bound

/-- The bounds of every binary variable. -/
def binary : Bound := ⟨.double, 0, 1⟩

/-- The stored form of a pair of bounds. -/
def encode (lower upper : Float) : Except Fault Bound :=
  if lower.isNaN || upper.isNaN then .error (.nanBound lower upper)
  else if lower.isInf then
    if upper.isInf then .ok ⟨.free, 0, 0⟩ else .ok ⟨.upper, 0, upper⟩
  else if upper.isInf then .ok ⟨.lower, lower, 0⟩
  else if lower == upper then .ok ⟨.fixed, lower, upper⟩
  else .ok ⟨.double, lower, upper⟩

/-- The pair of bounds that a stored bound means. -/
def decode (b : Bound) : Float × Float :=
  b.kind.sides Double.negInfinity Double.infinity b.lower b.upper

end Bound

/-! ## §1 Bounds given as numbers -/

/-- The stored form of a pair of numbers. Both become doubles first. -/
def Bound.encodeNumbers (lower upper : Number) : Except Fault Bound := do
  let l ← lower.toDouble
  let u ← upper.toDouble
  Bound.encode l u

/-- The pair of bounds that the kind and the stored numbers mean. A number on a side that the kind
leaves open is not looked at. -/
def Bound.decodeNumbers (kind : BoundKind) (lower upper : Number) : Except Fault (Float × Float) := do
  let (l, u) := kind.sides (.float Double.negInfinity) (.float Double.infinity) lower upper
  return (← l.toDouble, ← u.toDouble)

end LinearProgram
