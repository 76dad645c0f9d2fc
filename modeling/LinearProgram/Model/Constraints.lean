import LinearProgram.Matrix.Compressed
import LinearProgram.Model.Variables

/-!
# The objective and the constraints

Both are given as a list of variables with a list of coefficients. Everything is checked before anything
changes: the lengths, the numbers, and that every variable belongs to the model. A variable that occurs
several times has the sum of its coefficients in a constraint, and the last of them in the objective.
-/

namespace LinearProgram

/-- What stands in a list of variables: a variable or, by mistake, a plain value. -/
inductive VariableArgument where
  | variable (v : Variable)
  | plain (value : Datum)

namespace Model

/-! ## §1 Checks -/

/-- Check that every member of a list is a variable of the model. -/
def checkVariables (m : ModelId) (count : Nat) : List VariableArgument → Action (List Variable)
  | [] => pure []
  | .plain d :: _ => Action.fail (.notVariable d.typeName)
  | .variable v :: rest => do
    if v.model = m ∧ 0 ≤ v.index ∧ v.index < count then
      return v :: (← checkVariables m count rest)
    -- the text of the fault shows the variable, whose name is read from the engine for that
    else Action.fail (.foreignVariable (← v.display))

def checkLengths (vars : List VariableArgument) (coefficients : List Number) :
    Except Fault Unit :=
  if vars.length = coefficients.length then .ok ()
  else .error (.lengthsDiffer vars.length coefficients.length)

/-! ## §2 Objective -/

def setObjectives (engine : Engine) : List (Variable × Float) → Action Unit
  | [] => pure ()
  | (v, c) :: rest => do
    engine.setObjective v.column c
    setObjectives engine rest

/-- Set the objective coefficients of the listed variables; the others keep theirs. -/
def setObjective (m : ModelId) (coefficients : List Number) (vars : List VariableArgument) :
    Action Unit := do
  Action.lift (checkLengths vars coefficients)
  -- numbers are converted even if the model turns out to be freed
  let coefficients ← Action.lift (coefficients.mapM Number.toDouble)
  let model ← Action.openModel m
  let vars ← checkVariables m model.kinds.length vars
  setObjectives model.engine (vars.zip coefficients)

/-! ## §3 Constraints -/

/-- Append the coefficients of a constraint to each of its rows. -/
def appendRows (m : ModelId) (columns coefficients : List Number) : List Int → Action Unit
  | [] => pure ()
  | i :: rest => do
    let (entries, fault) := (← Action.model m).entries.append i columns coefficients
    -- what was stored before a fault stays
    Action.updateModel m fun model => { model with entries := entries }
    match fault with
    | some fault => Action.fail fault
    | none => appendRows m columns coefficients rest

/-- Add the constraint that the weighted sum of the variables lies between the bounds. -/
def addConstraint (m : ModelId) (lower upper : Number) (vars : List VariableArgument)
    (coefficients : List Number) : Action Unit := do
  Action.lift (checkLengths vars coefficients)
  let bound ← Action.lift (Bound.encodeNumbers lower upper)
  let coefficients ← Action.lift (coefficients.mapM Number.toDouble)
  let model ← Action.openModel m
  let vars ← checkVariables m model.kinds.length vars
  -- nothing before this line changes anything
  let rows ← model.engine.addRow bound
  appendRows m (vars.map fun v => .int v.column) (coefficients.map .float) rows
  if rows.isEmpty then
    Action.debug source ("dropped unconstrained row on " ++ model.engine.kind.name)
  else
    Action.updateModel m fun model => { model with constraintCount := model.constraintCount + 1 }
  -- a dropped row invalidates results as well
  touch m

/-- The coefficients of all rows of the engine. -/
def constraintMatrix (m : ModelId) : Action Compressed := do
  let model ← Action.openModel m
  let rows ← model.engine.rowCount
  let columns ← model.engine.columnCount
  Action.lift (model.entries.compressed rows columns)

end Model

end LinearProgram
