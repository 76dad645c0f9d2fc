import LinearProgram.Proofs.Program
import Mathlib.Algebra.BigOperators.Group.Finset.Basic

/-!
# What problems mean

The meaning of a linear program is independent of who stores it: whether it is maximized, for each column
whether it is integer, which values it may take and how much it counts, and the vectors that all rows allow.

A program has a meaning by its conditions. A problem of a library has one by the library's own reading of
what it stores: the codes of bounds that GLPK documents, and on lp_solve types of rows, right-hand sides, and
the number from which on a side is infinite. Nothing here knows how the layer builds problems.
-/

namespace LinearProgram

/-! ## §1 Meanings -/

/-- What a column means. -/
structure ColumnMeaning where
  integer : Bool
  allowed : Set ℝ
  coefficient : Float

/-- What a linear program means. -/
structure Meaning where
  maximize : Bool
  columns : List ColumnMeaning
  feasible : Set (Nat → ℝ)

/-- The vectors at which the weighted sum of each row is one that the row allows. In the matrix, rows and
columns are counted from one. -/
def Meaning.ofRows (rows : List (Set ℝ)) (columns : Nat) (matrix : Int → Int → ℝ) : Set (Nat → ℝ) :=
  {x | ∀ (i : Nat) (allowed : Set ℝ), rows[i]? = some allowed →
    ∑ j ∈ Finset.range columns, matrix (i + 1) (j + 1) * x j ∈ allowed}

namespace Program

/-- A column means what the caller says of it. -/
def Column.meaning (c : Column) : ColumnMeaning := ⟨c.kind != .continuous, {t | c.Allows t}, c.coefficient⟩

/-- A program means that all its conditions hold. -/
def meaning (p : Program) : Meaning where
  maximize := p.direction == .maximize
  columns := p.columns.map Column.meaning
  feasible := {x | ∀ c ∈ p.conditions, c.Holds x}

end Program

/-! ## §2 GLPK -/

namespace Glpk

/-- The values that a bound of GLPK admits: free, bounded below, above, on both sides, or fixed. -/
def Admits (code : Int) (lower upper : Float) (s : ℝ) : Prop :=
  if code = 1 then True
  else if code = 2 then Double.toReal lower ≤ s
  else if code = 3 then s ≤ Double.toReal upper
  else if code = 4 then Double.toReal lower ≤ s ∧ s ≤ Double.toReal upper
  else code = 5 ∧ s = Double.toReal lower

def Row.allowed (r : Row) : Set ℝ := {s | Admits r.bound r.lower r.upper s}

/-- All kinds of columns but the first are integer. -/
def Column.meaning (c : Column) : ColumnMeaning :=
  ⟨c.kind != 1, {t | Admits c.bound c.lower c.upper t}, c.objective⟩

noncomputable def Problem.coefficient (q : Problem) (i j : Int) : ℝ :=
  ((Entry.cell q.matrix.toList i j).map Double.toReal).sum

noncomputable def Problem.meaning (q : Problem) : Meaning where
  maximize := q.direction == 2
  columns := q.columns.toList.map Column.meaning
  feasible := Meaning.ofRows (q.rows.toList.map Row.allowed) q.columns.size q.coefficient

end Glpk

/-! ## §3 lp_solve -/

namespace LpSolve

/-- The value is not below a lower side, unless this is infinite. -/
def Above (side : Float) (s : ℝ) : Prop :=
  side.isInf = false → -Double.toReal infinity < Double.toReal side → Double.toReal side ≤ s

/-- The value is not above an upper side, unless this is infinite. -/
def Below (side : Float) (s : ℝ) : Prop :=
  side.isInf = false → Double.toReal side < Double.toReal infinity → s ≤ Double.toReal side

def Row.allowed (r : Row) : Set ℝ :=
  {s | if r.type = atMost then Below r.side s
    else if r.type = atLeast then Above r.side s
    else r.type = equal ∧ s = Double.toReal r.side}

/-- What a column of lp_solve means. -/
def Column.meaning (c : Column) : ColumnMeaning :=
  ⟨c.integer, {t | Above c.lower t ∧ Below c.upper t}, c.objective⟩

noncomputable def Problem.meaning (q : Problem) : Meaning where
  maximize := q.maximize != 0
  columns := q.columns.toList.map Column.meaning
  feasible := Meaning.ofRows (q.rows.toList.map Row.allowed) q.columns.size
    fun i j => Double.toReal (q.entry i j)

end LpSolve

/-- What a problem means to the library that keeps it. -/
noncomputable def Native.Problem.meaning : Native.Problem → Meaning
  | .glpk q => q.meaning
  | .lpsolve q => q.meaning
  | .deleted => ⟨false, [], ∅⟩

end LinearProgram
