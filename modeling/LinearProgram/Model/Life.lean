import LinearProgram.Engine.Basic
import LinearProgram.Engine.Selection

/-!
# Making, copying and freeing models

A model is made from a name, a direction and options, which are applied in order to its settings before
its problem exists. A construction that fails releases the problem again. A freed model answers to
nothing but whether it is valid.
-/

namespace LinearProgram

/-! ## §1 Options -/

/-- An option of a new model. An argument of the wrong sort is kept as a plain value or as the word for
its type, and refused when the option is applied. -/
inductive ModelOption where
  | verbose (value : Datum)
  | presolve (value : Datum)
  | parameters (value : Parameters)
  | notParameters (value : Datum)
  | engine (choice : EngineChoice)
  | printer (value : Printer)
  | notPrinter (typeName : String)

/-- The settings of a model whose problem does not exist yet. -/
structure ModelDraft where
  printer : Printer
  parameters : Parameters
  engine : Option EngineKind

namespace ModelDraft

/-- Silent, with the standard parameters and the default engine. -/
def standard : ModelDraft := ⟨.silent, .standard, none⟩

def apply (d : ModelDraft) : ModelOption → Action ModelDraft
  | .verbose value =>
    pure { d with parameters := { d.parameters with verbose? := some (.bool value.isTrue) } }
  | .presolve value =>
    pure { d with parameters := { d.parameters with presolve? := some (.bool value.isTrue) } }
  | .parameters p => do return { d with parameters := ← Action.lift p.copy }
  | .notParameters value => Action.fail (.notParameters value.typeName)
  | .engine choice => do return { d with engine := some (← Action.select choice) }
  | .printer p => pure { d with printer := p }
  | .notPrinter typeName => Action.fail (.noPrinter typeName)

/-- Apply all options in order. The fault of an option is passed on as the cause of another. -/
def applyAll (d : ModelDraft) : List ModelOption → Action ModelDraft
  | [] => pure d
  | o :: rest => do
    let d ← Action.recovering (d.apply o) fun fault => Action.fail (.option fault)
    d.applyAll rest

end ModelDraft

namespace Model

/-- The source of the records that models write. -/
def source : String := "lpbridge.model"

/-! ## §2 Freeing -/

def isValid (m : ModelId) : Action Bool := return !(← Action.model m).freed

/-- Free a model and release its problem; freeing it again changes nothing. -/
def free (m : ModelId) : Action Unit := do
  let model ← Action.model m
  if !model.freed then
    -- the problem may have been released before, and is then not released again
    let engine ← model.engine.destroy
    Action.updateModel m fun model => { model with engine := engine, freed := true }
    Action.debug source "freed model"

/-- Do `body` with a model, and free the model if it fails. -/
def freeingOnFault {α : Type} (m : ModelId) (body : Action α) : Action α :=
  Action.recovering body fun fault => do
    free m
    Action.fail fault

/-- Do `body` with a model, and free the model after it. -/
def freeingAfter {α : Type} (m : ModelId) (body : Action α) : Action α := Action.ensuring body (free m)

/-- Release the problem of a model without freeing the model. -/
def release (m : ModelId) : Action Unit := do
  let engine ← (← Action.model m).engine.destroy
  Action.updateModel m fun model => { model with engine := engine }

/-! ## §3 Making and copying -/

def add (model : Model) : Action ModelId := do
  let m := (← get).models.size
  modify fun w => { w with models := w.models.push model }
  pure m

/-- Make a model on an engine once its settings are known. If its problem cannot be named, the problem
is released again. -/
def make (name : String) (direction : Direction) (draft : ModelDraft) (kind : EngineKind) : Action ModelId := do
  let engine ← Engine.create kind
  let m ← add (attached engine draft.printer draft.parameters)
  -- from here on the problem has an owner that can release it
  freeingOnFault m do
    engine.checkName name
    engine.setName name
    engine.setDirection direction
  Action.debug source ("created " ++ (← Action.model m).display)
  pure m

/-- Make a model. The direction is read first, then the options are applied, then the problem is
created. -/
def create (name : String) (direction : Datum) (options : List ModelOption) : Action ModelId := do
  let direction ← Action.lift (Choice.read direction)
  -- options change settings only: the problem does not exist yet
  let draft ← ModelDraft.standard.applyAll options
  match draft.engine with
  | some kind => make name direction draft kind
  | none => make name direction draft (← Action.selectDefault)

/-- Copy a model with its problem. The variables of the copy are its own, at the same positions. -/
def clone (m : ModelId) : Action ModelId := do
  let model ← Action.openModel m
  let parameters ← Action.lift model.parameters.copy
  -- the parameters are copied before there is a second problem that could be left over
  let engine ← model.engine.copy
  let copy := (← get).models.size
  add { model with
    engine := engine
    parameters := parameters
    vars := (List.range model.kinds.length).map fun i => ⟨copy, Int.ofNat i⟩
    revision := 0 }

/-! ## §4 The model as a whole -/

def name (m : ModelId) : Action String := do (← Action.openModel m).engine.name

def direction (m : ModelId) : Action Direction := do (← Action.openModel m).engine.direction

def setDirection (m : ModelId) (direction : Datum) : Action Unit := do
  let direction ← Action.lift (Choice.read direction)
  (← Action.openModel m).engine.setDirection direction

def variableCount (m : ModelId) : Action Nat := do (← Action.openModel m).engine.columnCount

/-- The number of constraints, without those that were dropped. -/
def countConstraints (m : ModelId) : Action Nat := return (← Action.openModel m).constraintCount

def listVariables (m : ModelId) : Action (List Variable) := return (← Action.openModel m).vars

/-- Change the parameters of a model, entry by entry; entries before one that is refused are kept. -/
def assignParameters (m : ModelId) : List (String × Datum) → Action Unit
  | [] => pure ()
  | (key, d) :: rest => do
    let p ← Action.lift ((← Action.model m).parameters.put key d)
    Action.updateModel m fun model => { model with parameters := p }
    assignParameters m rest

end Model

end LinearProgram
