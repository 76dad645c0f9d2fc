import LinearProgram.Proofs.Coalescing
import LinearProgram.Proofs.Double
import LinearProgram.Proofs.Session

/-!
# Programs

The linear program that a caller describes, without regard to engines: a direction, columns and
conditions. `Operation.revise` says how an operation that succeeds changes the program of a model, in terms
of the arguments that the caller gives, and `World.programs` follows the programs of all models through a
session.

A program has a meaning in real numbers. A condition holds of a vector if the weighted sum of its terms
lies between its bounds. Terms of one column add up, since each contributes to the sum, and an infinite
bound of either sign is no condition.
-/

namespace LinearProgram

/-! ## §1 Programs -/

namespace Program

/-- A column: its kind, its bounds, and its coefficient in the objective. -/
structure Column where
  kind : VariableKind
  lower : Float
  upper : Float
  coefficient : Float
deriving DecidableEq

/-- A condition: bounds for a sum of terms, each a column, counted from zero, with its coefficient. -/
structure Condition where
  lower : Float
  upper : Float
  terms : List (Nat × Float)
deriving DecidableEq

end Program

/-- A linear program with integer columns. -/
structure Program where
  direction : Direction
  columns : List Program.Column
  conditions : List Program.Condition
deriving DecidableEq

namespace Program

def fresh (direction : Direction) : Program := ⟨direction, [], []⟩

namespace Column

/-- Give a column another kind. A binary column is bounded by zero and one. -/
def withKind (kind : VariableKind) (c : Column) : Column :=
  if kind = .binary then { c with kind := kind, lower := 0, upper := 1 } else { c with kind := kind }

/-- Bound a column. A binary one keeps its bounds. -/
def withBounds (lower upper : Float) (c : Column) : Column :=
  if c.kind = .binary then c else { c with lower := lower, upper := upper }

def withCoefficient (coefficient : Float) (c : Column) : Column := { c with coefficient := coefficient }

/-- The column that a caller describes. -/
def read (kind : Datum) (coefficient lower upper : Number) : Except Fault Column := do
  let kind ← Choice.read kind
  let lower ← lower.toDouble
  let upper ← upper.toDouble
  let coefficient ← coefficient.toDouble
  return withKind kind ⟨.continuous, lower, upper, coefficient⟩

end Column

/-- Reading in two steps. -/
theorem bind_eq_ok {α β : Type} {a : Except Fault α} {f : α → Except Fault β} {y : β}
    (h : a >>= f = .ok y) : ∃ x, a = .ok x ∧ f x = .ok y := by
  cases a with
  | error fault => cases h
  | ok x => exact ⟨x, rfl, h⟩

def columnsOf : List VariableArgument → List Nat
  | [] => []
  | .variable v :: rest => v.index.toNat :: columnsOf rest
  | .plain _ :: rest => columnsOf rest

/-- The condition that a caller describes. -/
def Condition.read (lower upper : Number) (arguments : List VariableArgument)
    (coefficients : List Number) : Except Fault Condition := do
  let lower ← lower.toDouble
  let upper ← upper.toDouble
  let coefficients ← coefficients.mapM Number.toDouble
  return ⟨lower, upper, (columnsOf arguments).zip coefficients⟩

def modify (p : Program) (j : Nat) (f : Column → Column) : Program :=
  { p with columns := p.columns.modify j f }

/-- Set coefficients of the objective, from left to right. -/
def setObjective (p : Program) (terms : List (Nat × Float)) : Program :=
  terms.foldl (fun p t => p.modify t.1 (Column.withCoefficient t.2)) p

end Program

/-! ## §2 Programs in a session -/

namespace Operation

/-- The model whose program an operation revises. -/
def subject? : Operation → Option ModelId
  | addVariable m .. | addVariables m .. | addConstraint m .. | setObjective m .. | setDirection m _ => some m
  | setKind v _ | setBounds v .. | setCoefficient v _ => some v.model
  | _ => none

/-- The program after an operation on its model that succeeded. -/
def revise (p : Program) : Operation → Except Fault Program
  | addVariable _ _ kind c l u => do
    let column ← Program.Column.read kind c l u
    return { p with columns := p.columns ++ [column] }
  | addVariables _ count _ kind c l u => do
    let column ← Program.Column.read kind c l u
    return { p with columns := p.columns ++ List.replicate count.toNat column }
  | addConstraint _ l u arguments cs => do
    let condition ← Program.Condition.read l u arguments cs
    return { p with conditions := p.conditions ++ [condition] }
  | setKind v kind => do
    let kind ← Choice.read kind
    return p.modify v.index.toNat (Program.Column.withKind kind)
  | setBounds v l u => do
    let l ← l.toDouble
    let u ← u.toDouble
    return p.modify v.index.toNat (Program.Column.withBounds l u)
  | setCoefficient v c => do
    let c ← c.toDouble
    return p.modify v.index.toNat (Program.Column.withCoefficient c)
  | setObjective _ cs arguments => do
    let cs ← cs.mapM Number.toDouble
    return p.setObjective ((Program.columnsOf arguments).zip cs)
  | setDirection _ direction => do
    let direction ← Choice.read direction
    return { p with direction := direction }
  | _ => return p

end Operation

/-- Which program a model stands for. -/
abbrev Programs := ModelId → Option Program

namespace Programs

def set (ps : Programs) (m : ModelId) (p : Option Program) : Programs := fun k => if k = m then p else ps k

@[simp] theorem set_self (ps : Programs) (m : ModelId) (p : Option Program) : ps.set m p m = p := if_pos rfl

theorem set_of_ne (ps : Programs) {m k : ModelId} (h : k ≠ m) (p : Option Program) :
    ps.set m p k = ps k := if_neg h

def answered (ps : Programs) (o : Operation) (answer : Answer) : Programs :=
  match o, answer with
  | .create _ direction _, .model m => ps.set m ((Choice.read direction).toOption.map Program.fresh)
  | .clone source, .model m => ps.set m (ps source)
  | o, _ =>
    match o.subject? with
    | some m => ps.set m ((ps m).bind fun p => (o.revise p).toOption)
    | none => ps

/-- The programs after an event. What fails changes none. -/
def after (ps : Programs) (e : Event) : Programs :=
  match e.answer with
  | .ok answer => ps.answered e.operation answer
  | .error _ => ps

end Programs

/-- The programs of all models after operations from the start. -/
def World.programs (os : List Operation) : Programs :=
  (World.initial.events os).foldl Programs.after fun _ => none

/-! ## §3 What programs mean -/

namespace Program

/-- The value is one that the bounds of a column allow. -/
def Column.Allows (c : Column) (t : ℝ) : Prop := Double.Within c.lower c.upper t

noncomputable def sumAt (terms : List (Nat × Float)) (x : Nat → ℝ) : ℝ :=
  (terms.map fun t => Double.toReal t.2 * x t.1).sum

def Condition.Holds (c : Condition) (x : Nat → ℝ) : Prop := Double.Within c.lower c.upper (sumAt c.terms x)

/-- The coefficients of one column among terms, in order. -/
def coefficientsAt (terms : List (Nat × Float)) (j : Nat) : List Float :=
  (terms.filter fun t => t.1 == j).map (·.2)

/-- Adding the coefficients of a column up in doubles is exact: they and their sum are numbers. -/
structure Exact (vs : List Float) : Prop where
  finite : ∀ v ∈ Entry.total vs :: vs, Double.value? v ≠ none
  total : Double.toReal (Entry.total vs) = (vs.map Double.toReal).sum

instance (vs : List Float) : Decidable (Exact vs) :=
  decidable_of_iff ((∀ v ∈ Entry.total vs :: vs, Double.value? v ≠ none) ∧
      Double.units (Entry.total vs) = (vs.map Double.units).sum)
    ⟨fun ⟨hfinite, htotal⟩ => ⟨hfinite, Double.toReal_eq_sum_iff.mpr htotal⟩,
      fun h => ⟨h.finite, Double.toReal_eq_sum_iff.mp h.total⟩⟩

end Program

end LinearProgram
