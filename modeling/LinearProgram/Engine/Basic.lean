import LinearProgram.Engine.Glpk
import LinearProgram.Engine.LpSolve

/-!
# Engines

The operations that a model needs from the problem it owns, whichever library holds it. Columns and rows
are counted from one, and their numbers only grow.

An engine whose problem has been released still passes calls on, but they name no problem: nothing is
read, nothing changes, and there is nothing to copy. A freed model never comes to that: its operations
are refused before they reach the engine.
-/

namespace LinearProgram.Engine

/-! ## §1 Life of a problem -/

/-- The number that the calls of the engine name: that of its problem, or 0, which names no problem, once
the problem has been released. -/
def number (e : Engine) : Nat := e.problem.getD 0

def create : EngineKind → Action Engine
  | .glpk => return ⟨.glpk, some (← Glpk.create), none⟩
  | .lpsolve => return ⟨.lpsolve, some (← LpSolve.create), none⟩

/-- Release the problem, once. -/
def destroy (e : Engine) : Action Engine := do
  match e.problem with
  | none => pure e
  | some p =>
    match e.kind with
    | .glpk => Glpk.tell (.delete p)
    | .lpsolve => LpSolve.tell (.delete p)
    -- the engine forgets the problem, so that it cannot be released twice
    pure { e with problem := none }

/-- An engine with a copy of the problem; there is none once the problem has been released. -/
def copy (e : Engine) : Action Engine := do
  match e.problem with
  | none => Action.fail .closed
  | some p =>
    match e.kind with
    | .glpk => return ⟨.glpk, some (← Glpk.copy p), none⟩
    | .lpsolve => return ⟨.lpsolve, some (← LpSolve.copy p), none⟩

/-! ## §2 The problem as a whole -/

/-- Refuse a name that the library cannot store. -/
def checkName (e : Engine) (name : String) : Action Unit :=
  match e.kind with
  | .glpk => Action.lift (Glpk.checkName name)
  | .lpsolve => pure ()

def setName (e : Engine) (name : String) : Action Unit := do
  e.checkName name
  match e.kind with
  | .glpk => Glpk.tell (.setName e.number name)
  | .lpsolve => LpSolve.tell (.setName e.number name)

def name (e : Engine) : Action String :=
  match e.kind with
  | .glpk => Glpk.name e.number
  | .lpsolve => LpSolve.name e.number

def setDirection (e : Engine) (d : Direction) : Action Unit :=
  match e.kind with
  | .glpk => Glpk.tell (.setDirection e.number (Glpk.directionCode d))
  | .lpsolve => LpSolve.tell (.setMaximize e.number (if d = .maximize then 1 else 0))

def direction (e : Engine) : Action Direction := do
  let maximize ← match e.kind with
    | .glpk => Glpk.isMaximize e.number
    | .lpsolve => LpSolve.isMaximize e.number
  return if maximize then .maximize else .minimize

/-! ## §3 Columns -/

def columnCount (e : Engine) : Action Nat :=
  match e.kind with
  | .glpk => Glpk.columnCount e.number
  | .lpsolve => LpSolve.columnCount e.number

/-- Add columns; the answer is the number of the first one. -/
def addColumns (e : Engine) (count : Int) : Action Int := do
  if count < 0 then Action.fail (.reduced .columns)
  else
    match e.kind with
    | .glpk => Glpk.addColumns e.number count.toNat
    | .lpsolve => LpSolve.addColumns e.number count.toNat

def setColumnName (e : Engine) (j : Int) (name : String) : Action Unit := do
  -- checked once more, also where a model has checked the name already
  e.checkName name
  match e.kind with
  | .glpk => Glpk.tell (.setColumnName e.number j name)
  | .lpsolve => LpSolve.tell (.setColumnName e.number j name)

def columnName (e : Engine) (j : Int) : Action String :=
  match e.kind with
  | .glpk => Glpk.columnName e.number j
  | .lpsolve => LpSolve.columnName e.number j

def setColumnKind (e : Engine) (j : Int) (kind : VariableKind) : Action Unit :=
  match e.kind with
  | .glpk => Glpk.tell (.setColumnKind e.number j (Glpk.kindCode kind))
  | .lpsolve => LpSolve.setColumnKind e.number j kind

def setColumnBounds (e : Engine) (j : Int) (b : Bound) : Action Unit :=
  match e.kind with
  | .glpk => Glpk.setColumnBounds e.number j b
  | .lpsolve => LpSolve.setColumnBounds e.number j b

/-- The bounds of a column as a pair. -/
def columnBounds (e : Engine) (j : Int) : Action (Float × Float) :=
  match e.kind with
  | .glpk => Glpk.columnBounds e.number j
  | .lpsolve => LpSolve.columnBounds e.number j

def setObjective (e : Engine) (j : Int) (coefficient : Float) : Action Unit :=
  match e.kind with
  | .glpk => Glpk.tell (.setObjective e.number j coefficient)
  | .lpsolve => LpSolve.tell (.setObjective e.number j coefficient)

def objective (e : Engine) (j : Int) : Action Float :=
  match e.kind with
  | .glpk => Glpk.objective e.number j
  | .lpsolve => LpSolve.objective e.number j

/-! ## §4 Rows -/

def rowCount (e : Engine) : Action Nat :=
  match e.kind with
  | .glpk => Glpk.rowCount e.number
  | .lpsolve => LpSolve.rowCount e.number

/-- Add free rows; the answer is the number of the first one. -/
def addRows (e : Engine) (count : Int) : Action Int := do
  if count < 0 then Action.fail (.reduced .rows)
  else
    match e.kind with
    | .glpk => Glpk.addRows e.number count.toNat
    | .lpsolve => LpSolve.addRows e.number count.toNat

def setRowBounds (e : Engine) (i : Int) (b : Bound) : Action Unit :=
  match e.kind with
  | .glpk => Glpk.setRowBounds e.number i b
  | .lpsolve => LpSolve.setRowBounds e.number i b

def addBoundedRow (e : Engine) (b : Bound) : Action Int := do
  let i ← e.addRows 1
  e.setRowBounds i b
  pure i

/-- Add the rows of one constraint; the answer lists their numbers. A free row is dropped by an engine
that does not store free rows, and lp_solve needs two rows for two sides. -/
def addRow (e : Engine) (b : Bound) : Action (List Int) := do
  if e.kind = .lpsolve ∧ b.kind = .double then
    -- each side is complete before the row of the other is added
    let upper ← e.addBoundedRow ⟨.upper, 0, b.upper⟩
    let lower ← e.addBoundedRow ⟨.lower, b.lower, 0⟩
    pure [upper, lower]
  else if b.kind = .free ∧ !e.kind.storesFreeRows then pure []
  else return [← e.addBoundedRow b]

/-- Hand the coefficients of all rows over. -/
def loadMatrix (e : Engine) (t : Triplets) : Action Unit :=
  match e.kind with
  | .glpk => Glpk.tell (.loadMatrix e.number t)
  | .lpsolve => LpSolve.setEntries e.number t.toList

/-! ## §5 Solving and results -/

/-- Install the handle that polls are made with, or remove it. -/
def setAbort (e : Engine) (handle : Option Handle) : Action Engine := do
  match e.kind with
  -- GLPK gets the handle with the call that starts the search
  | .glpk => pure { e with abort := handle }
  | .lpsolve =>
    LpSolve.tell (.abortHook e.number handle)
    pure e

/-- Run the solver, while its messages go to the handle `log`. -/
def solve (e : Engine) (method : Method) (parameters : Parameters) (log : Option Handle) :
    Action EngineReport :=
  match e.kind with
  | .glpk => Glpk.solve e.number e.abort method parameters log
  | .lpsolve => LpSolve.solve e.number parameters log

/-- The value of a column in the solution of a method. -/
def primal (e : Engine) (j : Int) (method : Method) : Action Float :=
  match e.kind with
  | .glpk => Glpk.primal e.number j method
  | .lpsolve => LpSolve.primal e.number j

/-- The reduced cost of a column in the solution of a method. -/
def dual (e : Engine) (j : Int) (method : Method) : Action Float :=
  match e.kind with
  | .glpk => Glpk.dual e.number j method
  | .lpsolve => LpSolve.dual e.number j

/-- The value of the objective in the solution of a method. -/
def objectiveValue (e : Engine) (method : Method) : Action Float :=
  match e.kind with
  | .glpk => Glpk.objectiveValue e.number method
  | .lpsolve => LpSolve.objectiveValue e.number

end LinearProgram.Engine
