import LinearProgram.Decimal.Scientific
import LinearProgram.Model.Solve

/-!
# Results

A result reads its values from the engine whenever it is asked, so it is valid only as long as the model
has not changed since the solve. `Solution` is a copy of the values that lasts.
-/

namespace LinearProgram

/-- A solution on its own. -/
structure Solution where
  status : SolveStatus
  method : Method
  objective : Float
  x : List Float
deriving DecidableEq

namespace SolveResult

/-! ## §1 Validity -/

/-- Whether the model is unchanged since the solve. -/
def isValid (r : SolveResult) : Action Bool := do
  let model ← Action.model r.model
  return !model.freed && model.revision == r.revision

/-- The engine to read from, if the result is valid. -/
def engine (r : SolveResult) : Action Engine := do
  -- a freed model is the fault even if the result is stale as well
  let model ← Action.openModel r.model
  if model.revision = r.revision then pure model.engine else Action.fail .stale

def isOptimal (r : SolveResult) : Bool := r.status = .optimal

/-! ## §2 Values -/

def column (r : SolveResult) : VariableArgument → Action Int
  | .plain d => Action.fail (.unsolvedVariable d.quoted)
  | .variable v => do
    if v.model = r.model then pure v.column else Action.fail (.unsolvedVariable (← v.display))

def primal (r : SolveResult) (v : VariableArgument) : Action Float := do
  let engine ← r.engine
  engine.primal (← r.column v) r.method

def dual (r : SolveResult) (v : VariableArgument) : Action Float := do
  let engine ← r.engine
  engine.dual (← r.column v) r.method

def objective (r : SolveResult) : Action Float := do (← r.engine).objectiveValue r.method

/-- The values of `count` columns from column `j` on. -/
def columnValues (engine : Engine) (method : Method) : Nat → Int → Action (List Float)
  | 0, _ => pure []
  | count + 1, j => do
    let x ← engine.primal j method
    return x :: (← columnValues engine method count (j + 1))

def values (r : SolveResult) : Action (List Float) := do
  let engine ← r.engine
  columnValues engine r.method (← engine.columnCount) 1

/-- The values as a solution that lasts. -/
def solution (r : SolveResult) : Action Solution := do
  let objective ← r.objective
  let x ← r.values
  return ⟨r.status, r.method, objective, x⟩

/-! ## §3 Text -/

/-- The root of the sum of squares, added up from left to right. -/
def norm (x : List Float) : Float := (x.foldl (fun sum v => sum + v * v) 0).sqrt

def display (r : SolveResult) : Action String := do
  let valid ← r.isValid
  return "SolveResult(status='" ++ r.status.name ++ "', method='" ++ Choice.name r.method ++
    "', valid=" ++ (if valid then "True" else "False") ++ ")"

def report (r : SolveResult) : Action String := do
  let head := ["lpbridge Solve Result", String.ofList (List.replicate 50 '='),
    "Status:          " ++ r.status.name, "Method:          " ++ Choice.name r.method]
  if ← r.isValid then
    -- the values are read before the objective
    let x ← r.values
    let objective ← r.objective
    let lines := ["Objective:       " ++ Double.scientific objective,
      "Variables:       " ++ toString x.length]
    let last := if x.isEmpty then [] else ["||x||:           " ++ Double.scientific (norm x)]
    return "\n".intercalate (head ++ lines ++ last)
  else return "\n".intercalate (head ++ ["(model changed since this solve)"])

end SolveResult

end LinearProgram
