import LinearProgram.Callback

/-!
# Runs of the native solvers

A run of a solver as its script has it: events happen one after the other, some of them callbacks through
the hooks that are set, and values are left behind, whatever code is returned. A poll may tell the solver to
stop. When one has, the run returns the code for a stop, however long it still went on.

All runs go alike. A `NativeRun` says what sets one apart: the call that starts it, its hooks, its events,
what it leaves in its problem, and its codes.
-/

namespace LinearProgram

/-- The handles that a run comes back with, for messages and for polls. GLPK's search is stopped by a call that
the callback makes, and lp_solve by what the callback answers. -/
structure RunHooks where
  log : Option Handle
  abort : Option Handle
  stopsByCall : Bool

/-- A kind of run: the call that starts it, the problem it works on, the hooks that it finds set, the events that
happen, what it leaves in the problem, and the code it returns, by whether it was told to stop. -/
structure NativeRun where
  start : Native.Call
  problem : Nat
  hooks : Native.Store → RunHooks
  course : Script → List RunEvent
  leave : Script → RunValues → Native.Problem → Native.Problem
  code : Script → Bool → Int

namespace Action

/-! ## §1 Callbacks -/

/-- The library sends a message with a handle. -/
def deliver (h : Handle) (text : Payload) : Action Unit := do
  tell fun w => .message w h
  forwardMessage h text

def poll (h : Handle) : Action Bool := do
  let before ← get
  let stop ← shouldAbort h
  tell fun _ => .poll before h stop
  pure stop

/-- Send a message through a hook, if it is set. -/
def sendMessage (hook : Option Handle) (text : Payload) : Action Unit :=
  match hook with
  | none => pure ()
  | some h => deliver h text.terminated

/-- Poll through a hook, if it is set. -/
def pollHook (hooks : RunHooks) : Action Bool := do
  match hooks.abort with
  | none => pure false
  | some h =>
    if ← poll h then
      if hooks.stopsByCall then call (.glpk .stopSearch) else pure true
    else pure false

/-! ## §2 Events -/

/-- Let an event happen; the answer says whether the solver is told to stop. -/
def runEvent (hooks : RunHooks) : RunEvent → Action Bool
  | .message text => do
    sendMessage hooks.log text
    pure false
  | .poll _ => pollHook hooks
  | .cancel c => do
    modify fun w => { w with contexts := w.contexts.cancel c }
    pure false
  | .advance seconds => do
    let clock ← lift ((← get).clock.add seconds)
    modify fun w => { w with clock := clock }
    pure false
  | .fail fault => Action.fail fault

/-- Let events happen in order; the answer says whether the solver was told to stop by any of them. Only if
it heeds that at once, the rest does not happen. -/
def runEvents (hooks : RunHooks) : List RunEvent → Action Bool
  | [] => pure false
  | event :: rest => do
    let stop ← runEvent hooks event
    if stop && event.heeded then pure true
    else return stop || (← runEvents hooks rest)

/-! ## §3 Runs -/

def conduct (r : NativeRun) : Action Int := do
  if ← call r.start then
    let w ← get
    let stopped ← runEvents (r.hooks w.native) (r.course w.script)
    -- values are left behind whatever the code says
    let values ← lift w.script.values
    modify fun v => { v with native := v.native.modify r.problem (r.leave w.script values) }
    pure (r.code w.script stopped)
  else pure 0

end Action

namespace NativeRun

/-- The handle of a hook that is used only if the solver prints at all. -/
def printing (level : Int) (hook : Option Handle) : Option Handle := if 0 < level then hook else none

/-- A run of GLPK's simplex method, which has no polls. -/
def simplex (p : Nat) (messageLevel presolve : Int) : NativeRun where
  start := .glpk (.simplex p messageLevel presolve)
  problem := p
  hooks s := { log := printing messageLevel s.terminalHook, abort := none, stopsByCall := true }
  course := Script.simplexCourse
  leave script values
    | .glpk q => .glpk { q with status := script.status, values := values }
    | other => other
  code script _ := script.simplexCode

/-- A run of GLPK's integer search, which polls with the handle that it is given. -/
def integerSearch (p : Nat) (messageLevel presolve : Int) (callback : Option Handle) : NativeRun where
  start := .glpk (.integerSearch p messageLevel presolve callback)
  problem := p
  hooks s := { log := printing messageLevel s.terminalHook, abort := callback, stopsByCall := true }
  course := Script.searchCourse
  leave script values
    | .glpk q => .glpk { q with integerStatus := script.integerStatus, values := values }
    | other => other
  code script stopped := if stopped then script.stopCode.getD 13 else script.integerCode

/-- A run of lp_solve, which finds its hooks in the problem. -/
def lpSolve (p : Nat) : NativeRun where
  start := .lpsolve (.solve p)
  problem := p
  hooks s :=
    let problem := (s.lpsolve? p).getD .fresh
    { log := printing problem.verbosity problem.logHook, abort := problem.abortHook, stopsByCall := false }
  course := Script.course
  leave _ values
    | .lpsolve q => .lpsolve { q with values := values }
    | other => other
  code script stopped := if stopped then script.stopCode.getD 6 else script.code

end NativeRun

end LinearProgram
