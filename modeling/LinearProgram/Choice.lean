import LinearProgram.Fault

/-!
# Choices

Directions, methods, kinds of variables and kinds of bounds are choices among a few named
alternatives. A caller may give one by name, as a plain value; whatever is not exactly the name of an
alternative is refused.
-/

namespace LinearProgram

/-- A type of finitely many named alternatives. -/
class Choice (α : Type) where
  /-- What the choice is about, as refusals call it. -/
  label : String
  /-- The alternatives. -/
  all : List α
  /-- The name of an alternative. -/
  name : α → String

namespace Choice

variable {α : Type} [Choice α]

def ofName? (s : String) : Option α := (all (α := α)).find? fun a => name a == s

def read (d : Datum) : Except Fault α :=
  let unknown : Fault := .unknownChoice d.quoted (label (α := α))
  match d with
  | .text s =>
    match ofName? s with
    | some a => .ok a
    | none => .error unknown
  | _ => .error unknown

end Choice

/-! ## §1 The choices of the layer -/

/-- Whether the objective is made small or large. -/
inductive Direction where
  | minimize
  | maximize
deriving DecidableEq, Repr

instance : Choice Direction where
  label := "Direction"
  all := [.minimize, .maximize]
  name
    | .minimize => "minimize"
    | .maximize => "maximize"

/-- How a model is solved. `auto` stands for `branchCut` as soon as some variable is not continuous, and
for `simplex` otherwise. -/
inductive Method where
  | auto
  | simplex
  | branchCut
deriving DecidableEq, Repr

instance : Choice Method where
  label := "Method"
  all := [.auto, .simplex, .branchCut]
  name
    | .auto => "auto"
    | .simplex => "simplex"
    | .branchCut => "branch_cut"

/-- The kind of a decision variable. -/
inductive VariableKind where
  | continuous
  | integer
  | binary
deriving DecidableEq, Repr

instance : Choice VariableKind where
  label := "VariableType"
  all := [.continuous, .integer, .binary]
  name
    | .continuous => "continuous"
    | .integer => "integer"
    | .binary => "binary"

instance : Choice Outcome where
  label := "Outcome"
  all := Outcome.all
  name := Outcome.name

/-! ## §2 Reading names back -/

namespace Choice

theorem ofName?_name_method (m : Method) : ofName? (name m) = some m := by cases m <;> decide

theorem ofName?_name_variableKind (k : VariableKind) : ofName? (name k) = some k := by
  cases k <;> decide

/-- An alternative that is found by its name is read from it. -/
theorem read_name {α : Type} [Choice α] {a : α} (h : ofName? (name a) = some a) : read (.text (name a)) = .ok a := by
  unfold read
  dsimp only
  rw [h]

end Choice

end LinearProgram
