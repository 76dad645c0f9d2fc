import LinearProgram.Cancel.Forest
import LinearProgram.Handle.Registry
import LinearProgram.Log
import LinearProgram.Matrix.Entries
import LinearProgram.Native.Library
import LinearProgram.Native.Store
import LinearProgram.Parameters

/-!
# The state of the layer

Everything that an operation can depend on or change: the models and what they hold on the side of the
layer, the contexts and the clock, the registry of handles, the libraries and the problems inside them,
and what has been written. An operation is an `Action`, a function on this state that also may fail; what
it changed before it failed stays changed.

An action also tells its `Moment`s: each time a library comes back with a handle that it was given, and each
time a registration is about to be given up, with the state of everything at that time.
-/

namespace LinearProgram

/-! ## §1 Models -/

/-- The number of a model, in the order of their making. -/
abbrev ModelId := Nat

/-- A variable: its model and its position in it, counted from zero. -/
structure Variable where
  model : ModelId
  index : Int
deriving DecidableEq, Repr

namespace Variable

/-- The column of the variable in the engine, counted from one. -/
def column (v : Variable) : Int := v.index + 1

end Variable

/-- One problem inside an engine. `problem` is its number, `none` once it has been released; `abort` is
the handle that GLPK's search is to be given. -/
structure Engine where
  kind : EngineKind
  problem : Option Nat
  abort : Option Handle
deriving DecidableEq

/-- A model. `freed` says whether its problem has been released by it; `kinds`, `vars` and `names`
describe its columns, `entries` its coefficients, and `revision` counts the changes that make earlier
results invalid. -/
structure Model where
  engine : Engine
  freed : Bool
  printer : Printer
  parameters : Parameters
  kinds : List VariableKind
  vars : List Variable
  names : List String
  entries : Entries
  constraintCount : Nat
  revision : Nat

namespace Model

/-- A model that was just attached to an engine. -/
def attached (engine : Engine) (printer : Printer) (parameters : Parameters) : Model :=
  { engine := engine, freed := false, printer := printer, parameters := parameters, kinds := []
    vars := [], names := [], entries := .empty, constraintCount := 0, revision := 0 }

def display (m : Model) : String :=
  if m.freed then "<lpbridge.Model (freed)>"
  else "<lpbridge.Model backend=" ++ m.engine.kind.name ++ " variables=" ++ toString m.kinds.length ++
    " constraints=" ++ toString m.constraintCount ++ ">"

end Model

/-! ## §2 Registered objects -/

/-- What a handle may stand for: a model, a context, another object that has a printer, or a plain
value. -/
inductive Target where
  | model (model : ModelId)
  | context (context : ContextId)
  | holder (printer : Printer)
  | plain (value : Datum)

/-! ## §3 The state -/

/-- The state of the layer. `calls` are the calls of the native libraries so far, reads included;
`script` says what the native solvers do in their next run, and `allowance` how often a library function
still works before it refuses. -/
structure World where
  clock : Number
  contexts : Forest
  registry : Registry Target
  surroundings : Surroundings
  glpkLibrary : Library
  lpsolveLibrary : Library
  native : Native.Store
  calls : Array Native.Call
  writings : Writings
  models : Array Model
  script : Script
  allowance : List (String × Nat)

namespace World

/-- Nothing made yet, no library loaded, and the clock at zero. -/
def initial : World :=
  { clock := .zero, contexts := .empty, registry := .empty, surroundings := .standard
    glpkLibrary := .ofEngine .glpk, lpsolveLibrary := .ofEngine .lpsolve, native := .empty, calls := #[]
    writings := .empty, models := #[], script := .standard, allowance := [] }

instance : Inhabited World := ⟨initial⟩

def library (w : World) : EngineKind → Library
  | .glpk => w.glpkLibrary
  | .lpsolve => w.lpsolveLibrary

def withLibrary (w : World) (kind : EngineKind) (l : Library) : World :=
  match kind with
  | .glpk => { w with glpkLibrary := l }
  | .lpsolve => { w with lpsolveLibrary := l }

def model? (w : World) (m : ModelId) : Option Model := w.models[m]?

def modifyModel (w : World) (m : ModelId) (f : Model → Model) : World :=
  { w with models := w.models.modify m f }

def log (w : World) (level : Int) (source text : String) : World :=
  { w with writings := w.writings.log level source text }

end World

/-! ## §4 Moments -/

/-- A moment at which a library meets the layer, with the state at it: the library sends a message with the
handle it has for messages, it polls with the handle it has for polls and is told whether to stop, or the
registration behind a handle is about to be given up. -/
inductive Moment where
  | message (state : World) (handle : Handle)
  | poll (state : World) (handle : Handle) (stop : Bool)
  | leaving (state : World) (handle : Handle)

/-- The handle that a moment is about. -/
def Moment.handle : Moment → Handle
  | message _ h | poll _ h _ | leaving _ h => h

/-- A value, with the moments that passed before it was found. -/
def Told (α : Type) : Type := α × List Moment

instance : Monad Told where
  pure x := (x, [])
  bind a f :=
    let b := f a.1
    (b.1, a.2 ++ b.2)

/-! ## §5 Actions -/

/-- An operation on the state that answers or fails, and tells its moments. -/
abbrev Action (α : Type) := ExceptT Fault (StateT World Told) α

namespace Action

/-- Run an action on a state: its answer or fault, the state it leaves, and the moments on the way. -/
def watch {α : Type} (a : Action α) (w : World) : (Except Fault α × World) × List Moment := a.run.run w

/-- Run an action on a state, whatever its moments are. -/
def on {α : Type} (a : Action α) (w : World) : Except Fault α × World := (a.watch w).1

def tell (x : World → Moment) : Action Unit := fun w => ((.ok (), w), [x w])

def fail {α : Type} (fault : Fault) : Action α := throw fault

/-- The answer of a computation that does not depend on the state. -/
def lift {α : Type} (r : Except Fault α) : Action α :=
  match r with
  | .ok a => pure a
  | .error fault => throw fault

/-- Do `cleanup` after `body`, however the body ended. A fault of the cleanup replaces the answer or
fault of the body. -/
def ensuring {α : Type} (body : Action α) (cleanup : Action Unit) : Action α := fun w =>
  let ((result, w), before) := body.watch w
  match cleanup.watch w with
  | ((.error fault, w), after) => ((.error fault, w), before ++ after)
  | ((.ok (), w), after) => ((result, w), before ++ after)

/-- Do `handler` with the fault of `body`, if it fails; what the body changed stays changed. -/
def recovering {α : Type} (body : Action α) (handler : Fault → Action α) : Action α := fun w =>
  match body.watch w with
  | ((.error fault, w), before) =>
    let (outcome, after) := (handler fault).watch w
    (outcome, before ++ after)
  | ((.ok a, w), before) => ((.ok a, w), before)

def debug (source text : String) : Action Unit := modify fun w => w.log LogRecord.debug source text

def logError (source text : String) : Action Unit := modify fun w => w.log LogRecord.error source text

/-- The model of a number. What is no model counts as freed. -/
def model (m : ModelId) : Action Model := do
  match (← get).model? m with
  | some model => pure model
  | none => fail .closed

/-- The model of a number, unless it has been freed. -/
def openModel (m : ModelId) : Action Model := do
  let model ← model m
  if model.freed then fail .closed else pure model

def updateModel (m : ModelId) (f : Model → Model) : Action Unit := modify fun w => w.modifyModel m f

/-! ## §6 Contexts and handles -/

def contextError (c : ContextId) : Action (Option Interruption) :=
  modifyGet fun w =>
    let (cause, contexts) := w.contexts.error w.clock c
    (cause, { w with contexts := contexts })

/-- Register an object while `body` runs. -/
def registered {α : Type} (target : Target) (body : Handle → Action α) : Action α := do
  let (h, registry) ← lift ((← get).registry.register target)
  modify fun w => { w with registry := registry }
  ensuring (body h) do
    tell fun w => .leaving w h
    let registry ← lift ((← get).registry.unregister h)
    modify fun w => { w with registry := registry }

/-! ## §7 Calls of the native libraries -/

/-- Count one use of a library function against an allowance; `none` when it is used up. -/
def spend (function : String) : List (String × Nat) → Option (List (String × Nat))
  | [] => some []
  | (f, n) :: rest =>
    if f = function then
      match n with
      | 0 => none
      | n + 1 => some ((f, n) :: rest)
    else (spend function rest).map ((f, n) :: ·)

/-- Call a native library. It answers whether the call was carried out; a function whose allowance is
used up refuses, and nothing happens. -/
def call (c : Native.Call) : Action Bool := do
  let w ← get
  match spend c.function w.allowance with
  | none => pure false
  | some allowance =>
    set { w with allowance := allowance, calls := w.calls.push c, native := w.native.apply c }
    pure true

end Action

end LinearProgram
