import LinearProgram.Native.Run

/-!
# The engine on lp_solve

How a model's operations become calls of lp_solve. A constraint bounded on both sides becomes two rows,
the upper side first, and one bounded on neither side is dropped. The library chooses the method itself;
its presolver is never used, since it would renumber the columns. Results are indexed by the rows first
and then the columns.
-/

namespace LinearProgram.LpSolve

/-! ## §1 Reading -/

/-- Read from a problem; `absent` is what the library answers where there is nothing to read, and when
it refuses. -/
def ask {α : Type} (p : Nat) (query : Query) (absent : α) (answer : Problem → α) : Action α := do
  if ← Action.call (.lpsolve (.read p query)) then
    match (← get).native.lpsolve? p with
    | some problem => pure (answer problem)
    | none => pure absent
  else pure absent

def name (p : Nat) : Action String := ask p .name "" (·.name)

def isMaximize (p : Nat) : Action Bool := ask p .maximize false fun q => q.maximize != 0

def columnCount (p : Nat) : Action Nat := ask p .columnCount 0 (·.columns.size)

def rowCount (p : Nat) : Action Nat := ask p .rowCount 0 (·.rows.size)

/-- The name of a column, empty for one that does not exist. -/
def columnName (p : Nat) (j : Int) : Action String :=
  ask p (.columnName j) "" fun q => ((q.column? j).map (·.name)).getD ""

/-- A stored bound with the library's infinity replaced by the real one. -/
def restoreInfinity (x : Float) : Float := if x.abs < infinity then x else Double.infinityLike x

/-- The bounds of a column as a pair. -/
def columnBounds (p : Nat) (j : Int) : Action (Float × Float) := do
  let lower ← ask p (.columnLower j) 0 fun q => ((q.column? j).map (·.lower)).getD 0
  let upper ← ask p (.columnUpper j) 0 fun q => ((q.column? j).map (·.upper)).getD 0
  return (restoreInfinity lower, restoreInfinity upper)

def objective (p : Nat) (j : Int) : Action Float :=
  ask p (.objective j) 0 fun q => ((q.column? j).map (·.objective)).getD 0

/-! ## §2 Building -/

/-- Make a call whose answer does not matter. -/
def tell (c : Call) : Action Unit := do let _ ← Action.call (.lpsolve c)

/-- Keep a new problem from printing by itself. -/
def silence (p : Nat) : Action Unit := do
  -- an empty file name stands for no output at all
  tell (.setOutput p "")
  tell (.setVerbosity p 0)

def create : Action Nat := do
  let p := (← get).native.next
  if ← Action.call (.lpsolve (.create p)) then
    silence p
    pure p
  else Action.fail (.noMemory .problem)

/-- Copy a problem, names included. -/
def copy (p : Nat) : Action Nat := do
  let target := (← get).native.next
  if ← Action.call (.lpsolve (.copy target p)) then
    silence target
    pure target
  else Action.fail (.noMemory .copy)

/-- Add columns one by one, as many as `count` says. -/
def pushColumns (p : Nat) : Nat → Action Unit
  | 0 => pure ()
  | count + 1 => do
    if ← Action.call (.lpsolve (.addColumn p)) then pushColumns p count
    -- columns added before the refusal stay
    else Action.fail (.noMemory .column)

/-- Add columns; the answer is the number of the first one. -/
def addColumns (p : Nat) (count : Nat) : Action Int := do
  let first := (← columnCount p) + 1
  pushColumns p count
  pure first

/-- Add free rows one by one, as many as `count` says. -/
def pushRows (p : Nat) : Nat → Action Unit
  | 0 => pure ()
  | count + 1 => do
    if ← Action.call (.lpsolve (.addRow p atLeast (-infinity))) then pushRows p count
    -- rows added before the refusal stay
    else Action.fail (.noMemory .row)

/-- Add free rows; the answer is the number of the first one. -/
def addRows (p : Nat) (count : Nat) : Action Int := do
  let first := (← rowCount p) + 1
  pushRows p count
  pure first

def setColumnKind (p : Nat) (j : Int) : VariableKind → Action Unit
  | .binary => tell (.setBinary p j 1)
  | .integer => tell (.setInteger p j 1)
  -- making a column continuous leaves the bounds that it had as a binary one
  | .continuous => tell (.setInteger p j 0)

def setColumnBounds (p : Nat) (j : Int) (b : Bound) : Action Unit :=
  match b.kind with
  | .free => tell (.setUnbounded p j)
  -- an open side is told as the library's own infinity
  | .upper => tell (.setBounds p j (-infinity) b.upper)
  | .lower => tell (.setBounds p j b.lower infinity)
  | .double | .fixed => tell (.setBounds p j b.lower b.upper)

/-- The type and right-hand side of a row; a row cannot be bounded on two sides. -/
def rowSide? (b : Bound) : Option (Int × Float) :=
  match b.kind with
  | .lower => some (atLeast, b.lower)
  | .upper => some (atMost, b.upper)
  | .fixed => some (equal, b.lower)
  | .free => some (atLeast, -infinity)
  | .double => none

def setRowBounds (p : Nat) (i : Int) (b : Bound) : Action Unit := do
  match rowSide? b with
  | none => Action.fail .rangeRow
  | some (type, side) =>
    tell (.setRowType p i type)
    tell (.setRowSide p i side)

/-- Set all entries of the matrix. Rows never lose coefficients, so this replaces it. -/
def setEntries (p : Nat) : List Entry → Action Unit
  | [] => pure ()
  | e :: rest => do
    tell (.setEntry p e.row e.column e.value)
    setEntries p rest

/-! ## §3 Solving -/

/-- What a return code means. -/
def outcome? : Int → Option Outcome
  | -2 => some (.failed .noMemory)
  | 0 => some (.solved .optimal)
  | 1 => some (.solved .suboptimal)
  | 2 => some (.failed .infeasible)
  | 3 => some (.failed .unbounded)
  | 4 => some (.failed .degenerate)
  | 5 => some (.failed .numericalFailure)
  | 6 => some (.failed .userAbort)
  | 7 => some (.failed .timeout)
  | 9 => some (.failed .presolved)
  | 10 => some (.failed .branchCutFail)
  | 11 => some (.failed .branchCutBreak)
  | 12 => some (.failed .feasibleFound)
  | 13 => some (.failed .noFeasibleFound)
  | _ => none

def report (code : Int) : EngineReport :=
  match outcome? code with
  | some o => .known o
  | none => .undocumented "lpsolve" code

/-- Solve, while messages go to the handle `log`. -/
def solve (p : Nat) (parameters : Parameters) (log : Option Handle) : Action EngineReport := do
  let verbose ← Action.lift parameters.verbose
  tell (.setVerbosity p (if verbose.isTrue then 4 else 0))
  match log with
  | none => return report (← Action.conduct (.lpSolve p))
  | some h =>
    tell (.logHook p (some h))
    let code ← Action.ensuring (Action.conduct (.lpSolve p)) (tell (.logHook p none))
    return report code

/-! ## §4 Results -/

/-- Element `index` of a result: of the rows first, then of the columns. -/
def resultAt (rows : Nat) (rowValues columnValues : List Float) (index : Int) : Float :=
  -- index 0 is the objective, then come the rows
  if (rows : Int) < index then RunValues.element columnValues (index - rows)
  else RunValues.element rowValues index

def primal (p : Nat) (j : Int) : Action Float := do
  let index := (← rowCount p) + j
  ask p (.primal index) 0 fun q => resultAt q.rows.size q.values.rowX q.values.x index

def dual (p : Nat) (j : Int) : Action Float := do
  let index := (← rowCount p) + j
  ask p (.dual index) 0 fun q => resultAt q.rows.size q.values.rowX q.values.dual index

def objectiveValue (p : Nat) : Action Float := ask p .objectiveValue 0 (·.values.objective)

end LinearProgram.LpSolve
