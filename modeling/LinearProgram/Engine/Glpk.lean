import LinearProgram.Native.Run

/-!
# The engine on GLPK

How a model's operations become calls of GLPK. The library knows the five kinds of bounds, takes the
matrix as a whole, and has a simplex method and an integer search with separate results. Only the
integer search can be stopped from outside.

Return codes and statuses are translated by tables; what a table does not list is reported as
undocumented.
-/

namespace LinearProgram.Glpk

/-! ## §1 Reading -/

/-- Read from a problem; `absent` is what the library answers where there is nothing to read, and when
it refuses. -/
def ask {α : Type} (p : Nat) (query : Query) (absent : α) (answer : Problem → α) : Action α := do
  if ← Action.call (.glpk (.read p query)) then
    match (← get).native.glpk? p with
    | some problem => pure (answer problem)
    | none => pure absent
  else pure absent

def name (p : Nat) : Action String := ask p .name "" (·.name)

def isMaximize (p : Nat) : Action Bool :=
  ask p .direction false fun q => q.direction == directionCode .maximize

def columnCount (p : Nat) : Action Nat := ask p .columnCount 0 (·.columns.size)

def rowCount (p : Nat) : Action Nat := ask p .rowCount 0 (·.rows.size)

/-- The name of a column, empty for one that does not exist. -/
def columnName (p : Nat) (j : Int) : Action String :=
  ask p (.columnName j) "" fun q => ((q.column? j).map (·.name)).getD ""

/-- The bounds of a column as a pair. -/
def columnBounds (p : Nat) (j : Int) : Action (Float × Float) := do
  let code ← ask p (.columnBound j) 0 fun q => ((q.column? j).map (·.bound)).getD 5
  -- the code is translated before the numbers are read, so an unknown one reads nothing more
  let kind ← Action.lift (boundKind code)
  let lower ← ask p (.columnLower j) 0 fun q => ((q.column? j).map (·.lower)).getD 0
  let upper ← ask p (.columnUpper j) 0 fun q => ((q.column? j).map (·.upper)).getD 0
  return Bound.decode ⟨kind, lower, upper⟩

def objective (p : Nat) (j : Int) : Action Float :=
  ask p (.objective j) 0 fun q => ((q.column? j).map (·.objective)).getD 0

/-! ## §2 Building -/

/-- The longest name in bytes; a longer one is fatal inside the library. -/
def longestName : Nat := 255

/-- Refuse a name that the library cannot store. -/
def checkName (name : String) : Except Fault Unit :=
  if longestName < name.utf8ByteSize then .error (.nameTooLong name) else .ok ()

/-- Make a call whose answer does not matter. -/
def tell (c : Call) : Action Unit := do let _ ← Action.call (.glpk c)

def create : Action Nat := do
  let p := (← get).native.next
  -- a null pointer is handed on as it is, without a fault
  if ← Action.call (.glpk (.create p)) then pure p else pure 0

/-- Copy a problem, names included. -/
def copy (p : Nat) : Action Nat := do
  let target ← create
  tell (.copy target p 1)
  pure target

/-- Add columns; the answer is the number of the first one. -/
def addColumns (p : Nat) (count : Nat) : Action Int := do
  -- the library treats a count of zero as a fatal error
  if count = 0 then return (← columnCount p) + 1
  else
    let first := (((← get).native.glpk? p).map (·.columns.size)).getD 0 + 1
    if ← Action.call (.glpk (.addColumns p count)) then pure first else pure 0

/-- Add rows; the answer is the number of the first one. -/
def addRows (p : Nat) (count : Nat) : Action Int := do
  -- as for columns, zero rows must not be asked for
  if count = 0 then return (← rowCount p) + 1
  else
    let first := (((← get).native.glpk? p).map (·.rows.size)).getD 0 + 1
    if ← Action.call (.glpk (.addRows p count)) then pure first else pure 0

def setColumnBounds (p : Nat) (j : Int) (b : Bound) : Action Unit :=
  tell (.setColumnBounds p j (boundCode b.kind) b.lower b.upper)

def setRowBounds (p : Nat) (i : Int) (b : Bound) : Action Unit :=
  tell (.setRowBounds p i (boundCode b.kind) b.lower b.upper)

/-! ## §3 Outcomes -/

/-- What a return code of the simplex method other than zero means. -/
def simplexFailure? : Int → Option Outcome
  -- GLP_EBADB, GLP_ESING, GLP_ECOND, GLP_EFAIL
  | 1 | 2 | 3 | 5 => some (.failed .numericalFailure)
  -- GLP_EBOUND, GLP_ENOPFS
  | 4 | 10 => some (.failed .infeasible)
  -- GLP_EITLIM, GLP_ETMLIM
  | 8 | 9 => some (.failed .timeout)
  -- GLP_ENODFS
  | 11 => some (.failed .unbounded)
  | _ => none

/-- What the status after a successful run of the simplex method means. -/
def simplexOutcome? : Int → Option Outcome
  | 5 => some (.solved .optimal)
  | 2 => some (.solved .suboptimal)
  | 3 | 4 => some (.failed .infeasible)
  | 6 => some (.failed .unbounded)
  | 1 => some (.failed .numericalFailure)
  | _ => none

/-- What the status after a successful integer search means. -/
def searchOutcome? : Int → Option Outcome
  | 5 => some (.solved .optimal)
  | 2 => some (.solved .suboptimal)
  | 4 => some (.failed .infeasible)
  | 1 => some (.failed .noFeasibleFound)
  | _ => none

/-- The return codes of an integer search that was stopped early, with the failure that they mean unless
a feasible solution had been found. -/
def searchStop? : Int → Option SolveFailure
  -- GLP_ESTOP, what a search ends with that the callback has stopped
  | 13 => some .userAbort
  | 9 => some .timeout
  -- GLP_EMIPGAP
  | 14 => some .noFeasibleFound
  | _ => none

/-- What the other return codes of the integer search mean. -/
def searchFailure? : Int → Option Outcome
  | 4 | 10 => some (.failed .infeasible)
  | 11 => some (.failed .unbounded)
  | 12 | 5 => some (.failed .branchCutFail)
  | _ => none

/-- A table's answer for a code. -/
def report (table : Int → Option Outcome) (code : Int) : EngineReport :=
  match table code with
  | some o => .known o
  | none => .undocumented "glpk" code

def simplexReport (code status : Int) : EngineReport :=
  if code ≠ 0 then report simplexFailure? code else report simplexOutcome? status

def searchReport (code status : Int) : EngineReport :=
  if code = 0 then report searchOutcome? status
  else
    match searchStop? code with
    -- status 2 is GLP_FEAS: a feasible solution was found before the stop
    | some failure => .known (if status = 2 then .solved .suboptimal else .failed failure)
    | none => report searchFailure? code

/-! ## §4 Solving -/

/-- How much the library prints. -/
def messageLevel (verbose : Datum) : Int := if verbose.isTrue then 2 else 0

/-- A truth value as the library takes it. -/
def flag (b : Bool) : Int := if b then 1 else 0

def simplex (p : Nat) (parameters : Parameters) (presolve : Bool) : Action EngineReport := do
  let verbose ← Action.lift parameters.verbose
  let code ← Action.conduct (.simplex p (messageLevel verbose) (flag presolve))
  -- the status is asked for only if the call succeeded
  if code ≠ 0 then pure (simplexReport code 0)
  else
    let status ← ask p .status 0 (·.status)
    pure (simplexReport code status)

def search (p : Nat) (parameters : Parameters) (abort : Option Handle) : Action EngineReport := do
  let verbose ← Action.lift parameters.verbose
  let presolve ← Action.lift parameters.presolve
  let code ← Action.conduct (.integerSearch p (messageLevel verbose) (flag presolve.isTrue) abort)
  -- a search that was stopped early may have found a feasible solution, so the status counts too
  let status ← ask p .integerStatus 0 (·.integerStatus)
  pure (searchReport code status)

/-- Run the integer search, after the simplex method unless the presolver is on: without it, the search
starts from an optimal solution of the relaxation. If there is none, that outcome is the answer. -/
def branchCut (p : Nat) (parameters : Parameters) (abort : Option Handle) : Action EngineReport := do
  if (← Action.lift parameters.presolve).isTrue then search p parameters abort
  else
    let relaxed ← simplex p parameters false
    -- suboptimal is not enough for the search to start from, and is handed on as if it were its outcome
    if relaxed = .known (.solved .optimal) then search p parameters abort
    else
      Action.debug "lpbridge.backends.glpk" ("LP relaxation ended with " ++ relaxed.display)
      pure relaxed

def runMethod (p : Nat) (abort : Option Handle) (method : Method) (parameters : Parameters) :
    Action EngineReport := do
  if method = .simplex then simplex p parameters (← Action.lift parameters.presolve).isTrue
  else branchCut p parameters abort

/-- Solve with a method, while messages go to the handle `log`. -/
def solve (p : Nat) (abort : Option Handle) (method : Method) (parameters : Parameters)
    (log : Option Handle) : Action EngineReport := do
  match log with
  | none => runMethod p abort method parameters
  | some h =>
    tell (.terminalHook (some h))
    Action.ensuring (runMethod p abort method parameters) (tell (.terminalHook none))

/-! ## §5 Results -/

/-- The value of a column in the solution of a method. -/
def primal (p : Nat) (j : Int) (method : Method) : Action Float :=
  if method = .branchCut then ask p (.integerPrimal j) 0 fun q => RunValues.element q.values.integerX j
  else ask p (.primal j) 0 fun q => RunValues.element q.values.x j

/-- The reduced cost of a column; an integer search has none. -/
def dual (p : Nat) (j : Int) (method : Method) : Action Float :=
  if method = .branchCut then Action.fail .noIntegerDuals
  else ask p (.dual j) 0 fun q => RunValues.element q.values.dual j

/-- The value of the objective in the solution of a method. -/
def objectiveValue (p : Nat) (method : Method) : Action Float :=
  if method = .branchCut then ask p .integerObjectiveValue 0 (·.values.integerObjective)
  else ask p .objectiveValue 0 (·.values.objective)

end LinearProgram.Glpk
