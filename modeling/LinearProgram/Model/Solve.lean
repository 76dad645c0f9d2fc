import LinearProgram.Model.Constraints

/-!
# Solving

A solve hands the coefficients over, registers the model so that messages of the solver find its printer,
runs the solver, and turns the engine's report into a result or a fault. A solve under a context also
registers the context, which the solver polls; if the solver gave up because of it, the fault is the
context's.
-/

namespace LinearProgram

/-- A result of a solve. It stands for the state of the model at `revision`. -/
structure SolveResult where
  model : ModelId
  revision : Nat
  status : SolveStatus
  method : Method
deriving DecidableEq, Repr

def EngineReport.interpret : EngineReport → Except Fault SolveStatus
  | .known (.solved s) => .ok s
  | .known (.failed f) => .error (.unsolved f)
  | .undocumented engine code => .error (.undocumented engine code)

namespace Model

/-- Interpret a report. An undocumented code is also written to the log. -/
def interpret (report : EngineReport) : Action SolveStatus := do
  match report with
  | .undocumented engine code =>
    Action.logError "lpbridge.solver" (engine ++ " returned undocumented code " ++ toString code)
  | .known _ => pure ()
  Action.lift report.interpret

/-- The method that a choice stands for, given the kinds of the variables. -/
def effectiveMethod (kinds : List VariableKind) : Method → Method
  | .auto => if kinds.any (· != .continuous) then .branchCut else .simplex
  | method => method

/-- The method of a solve: the given one, or else that of the parameters. -/
def resolveMethod (model : Model) (given : Option Datum) : Except Fault MethodSetting := do
  match given with
  | some d => return .method (effectiveMethod model.kinds (← Choice.read d))
  | none =>
    match ← model.parameters.method with
    | .method method => return .method (effectiveMethod model.kinds method)
    | .plain d => return .plain d

/-- Note that a method is given which the engine does not follow. -/
def noteMethod (model : Model) (given : Option Datum) : Action Unit :=
  match given with
  | some d =>
    -- only a method that is given is noted, not that of the parameters
    if model.engine.kind.selectsMethod then pure ()
    else Action.debug source (model.engine.kind.name ++ " chooses its own method, ignoring " ++ d.display)
  | none => pure ()

/-- Find the method, and hand the coefficients over. -/
def prepare (model : Model) (given : Option Datum) : Action Method := do
  let setting ← Action.lift (resolveMethod model given)
  let triplets ← Action.lift model.entries.triplets
  model.engine.loadMatrix triplets
  -- a plain value in the place of the method is noticed here, when the matrix has been handed over
  let method ← Action.lift setting.read
  Action.debug source ("solving " ++ model.display ++ " with " ++ Choice.name method)
  pure method

/-- Turn the report of the engine into a result or a fault. -/
def conclude (m : ModelId) (method : Method) (report : EngineReport) : Action SolveResult := do
  -- the run replaced the values that earlier results would read, whatever its outcome
  touch m
  let model ← Action.model m
  Action.debug source (model.display ++ " finished: " ++ report.display)
  let status ← interpret report
  return ⟨m, model.revision, status, method⟩

/-- Run the engine with the model registered, and conclude. -/
def finish (m : ModelId) (model : Model) (method : Method) : Action SolveResult := do
  let report ← Action.registered (.model m) fun h =>
    model.engine.solve method model.parameters (some h)
  conclude m method report

def solve (m : ModelId) (given : Option Datum) : Action SolveResult := do
  let model ← Action.openModel m
  -- the note shows what was given as it is, before it is read as a method
  noteMethod model given
  let method ← prepare model given
  finish m model method

/-- Install the handle that polls are made with, or remove it. -/
def setAbort (m : ModelId) (handle : Option Handle) : Action Unit := do
  let engine ← (← Action.model m).engine.setAbort handle
  Action.updateModel m fun model => { model with engine := engine }

/-- Tell the fault of a solve under a context: an abort becomes the error of the context, if the context is
done. -/
def retell (c : ContextId) (fault : Fault) : Action SolveResult := do
  match fault with
  -- any other failure is the solver's own, even if the context is done by now
  | .unsolved .userAbort =>
    match ← Action.contextError c with
    | some cause => Action.fail (.interruptedSolve cause)
    | none => Action.fail fault
  | _ => Action.fail fault

/-- Solve a model while the engine polls with a handle. -/
def solvePolled (m : ModelId) (c : ContextId) (given : Option Datum) (h : Handle) : Action SolveResult := do
  setAbort m (some h)
  -- the handle is removed on both ways out
  Action.ensuring (Action.recovering (solve m given) (retell c)) (setAbort m none)

/-- Solve a model under a context. A context that is done already is the fault at once. -/
def solveWithContext (m : ModelId) (c : ContextId) (given : Option Datum) : Action SolveResult := do
  match ← Action.contextError c with
  | some cause => Action.fail (.interrupted cause)
  | none =>
    let _ ← Action.openModel m
    Action.registered (.context c) (solvePolled m c given)

end Model

end LinearProgram
