import LinearProgram.Model.Life

/-!
# Variables

Variables are added one at a time or in a batch, and each has a name of its own within the model: the
given one, or a generated one that collides with no other. Their attributes are read from and written to
the engine. A binary variable always has the bounds zero and one.
-/

namespace LinearProgram

/-! ## §1 Names -/

namespace VariableName

/-- The names that are tried in turn for the variable at a position: `V3`, `V3_1`, `V3_2`, and so on. -/
def candidate (index attempt : Nat) : String :=
  let base := "V" ++ toString index
  if attempt = 0 then base else base ++ "_" ++ toString attempt

/-- The first candidate that is not taken. The candidates differ from each other, so among one more of
them than there are taken names, one is free. -/
def generate (taken : List String) (index : Nat) : String :=
  let attempt := (List.range (taken.length + 1)).find? fun k => !taken.contains (candidate index k)
  candidate index (attempt.getD 0)

/-- The name for the variable at a position: the given one, which must not be taken, or a generated
one. -/
def pick (taken : List String) (given : String) (index : Nat) : Except Fault String :=
  if given.isEmpty then .ok (generate taken index)
  else if taken.contains given then .error (.nameTaken given)
  else .ok given

end VariableName

namespace Model

/-! ## §2 Adding variables -/

/-- What a new variable is to be like, apart from its name. -/
structure VariableDraft where
  kind : VariableKind
  bound : Bound
  coefficient : Float

def VariableDraft.read (kind : Datum) (coefficient lower upper : Number) :
    Except Fault VariableDraft := do
  let kind ← Choice.read kind
  let bound ← Bound.encodeNumbers lower upper
  let coefficient ← coefficient.toDouble
  return ⟨kind, bound, coefficient⟩

def setUpColumn (m : ModelId) (engine : Engine) (j : Int) (name : String) (d : VariableDraft) :
    Action Variable := do
  engine.setColumnName j name
  -- the kind comes first, since declaring a column binary changes its bounds
  engine.setColumnKind j d.kind
  engine.setColumnBounds j (if d.kind = .binary then Bound.binary else d.bound)
  engine.setObjective j d.coefficient
  let v : Variable := ⟨m, j - 1⟩
  Action.updateModel m fun model =>
    { model with kinds := model.kinds ++ [d.kind], vars := model.vars ++ [v] }
  pure v

/-- Set up one column for each name, from column `j` on. -/
def setUpColumns (m : ModelId) (engine : Engine) (d : VariableDraft) :
    Int → List String → Action (List Variable)
  | _, [] => pure []
  | j, name :: rest => do
    let v ← setUpColumn m engine j name d
    return v :: (← setUpColumns m engine d (j + 1) rest)

/-- Choose names for `count` variables from position `index` on, each different from the names taken and
from the earlier ones. The given names are those that `given` tells for the positions. -/
def pickNames (engine : Engine) (taken : List String) (given : Nat → String) :
    Nat → Nat → Action (List String)
  | 0, _ => pure []
  | count + 1, index => do
    let name ← Action.lift (VariableName.pick taken (given index) index)
    engine.checkName name
    return name :: (← pickNames engine (taken ++ [name]) given count (index + 1))

/-- Invalidate earlier results. -/
def touch (m : ModelId) : Action Unit :=
  Action.updateModel m fun model => { model with revision := model.revision + 1 }

/-- Add variables of one description, with the names that `given` tells for their positions. -/
def addColumns (m : ModelId) (count : Nat) (given : Nat → String) (d : VariableDraft) :
    Action (List Variable) := do
  let model ← Action.openModel m
  let index ← model.engine.columnCount
  -- all names are settled before the library adds a column
  let names ← pickNames model.engine model.names given count index
  let first ← model.engine.addColumns count
  Action.updateModel m fun model => { model with names := model.names ++ names }
  let vars ← setUpColumns m model.engine d first names
  touch m
  pure vars

def addVariable (m : ModelId) (name : String) (kind : Datum) (coefficient lower upper : Number) :
    Action Variable := do
  let d ← Action.lift (VariableDraft.read kind coefficient lower upper)
  let vars ← addColumns m 1 (fun _ => name) d
  pure (vars.headD ⟨m, -1⟩)

/-- Add `count` variables of one description, named by `stem` and their position, or with generated
names. -/
def addVariables (m : ModelId) (count : Int) (stem : String) (kind : Datum)
    (coefficient lower upper : Number) : Action (List Variable) := do
  if count < 0 then Action.fail (.reduced .vars)
  else
    let d ← Action.lift (VariableDraft.read kind coefficient lower upper)
    -- an empty stem asks for generated names
    addColumns m count.toNat (fun i => if stem.isEmpty then "" else stem ++ toString i) d

/-- Add a variable that is zero or one. -/
def addBinary (m : ModelId) (name : String) : Action Variable :=
  addVariable m name (.text (Choice.name VariableKind.binary)) .one .zero .one

def addInteger (m : ModelId) (name : String) : Action Variable :=
  addVariable m name (.text (Choice.name VariableKind.integer)) .one (.float Double.negInfinity)
    (.float Double.infinity)

end Model

/-! ## §3 Attributes -/

namespace Variable

def name (v : Variable) : Action String := do
  (← Action.openModel v.model).engine.columnName v.column

def kind (v : Variable) : Action VariableKind := do
  let model ← Action.openModel v.model
  match (place? model.kinds.length v.index).bind fun i => model.kinds[i]? with
  | some kind => pure kind
  | none => Action.fail (.noItem v.index)

/-- Change the kind of a variable. Making it binary also bounds it by zero and one. -/
def setKind (v : Variable) (kind : Datum) : Action Unit := do
  let kind ← Action.lift (Choice.read kind)
  let model ← Action.openModel v.model
  model.engine.setColumnKind v.column kind
  if kind = .binary then model.engine.setColumnBounds v.column Bound.binary
  -- the engine is told before the place of the variable is looked up
  match place? model.kinds.length v.index with
  | some i => Action.updateModel v.model fun model => { model with kinds := model.kinds.set i kind }
  | none => Action.fail (.noItemToReplace v.index)

def bounds (v : Variable) : Action (Float × Float) := do
  let kind ← v.kind
  -- the engine is not asked, whatever it holds
  if kind = .binary then pure (0, 1)
  else (← Action.openModel v.model).engine.columnBounds v.column

/-- Set the bounds of a variable; those of a binary one stay. -/
def setBounds (v : Variable) (lower upper : Number) : Action Unit := do
  let bound ← Action.lift (Bound.encodeNumbers lower upper)
  let kind ← v.kind
  if kind = .binary then
    Action.debug Model.source ("ignoring bounds for binary variable " ++ toString v.index)
  else (← Action.openModel v.model).engine.setColumnBounds v.column bound

def coefficient (v : Variable) : Action Float := do
  (← Action.openModel v.model).engine.objective v.column

def setCoefficient (v : Variable) (coefficient : Number) : Action Unit := do
  let coefficient ← Action.lift coefficient.toDouble
  (← Action.openModel v.model).engine.setObjective v.column coefficient

/-- The variable as it stands in messages, with its name as long as its model has not been freed. -/
def display (v : Variable) : Action String := do
  if ← Model.isValid v.model then
    return "Variable(" ++ Text.quoted (← v.name) ++ ", index=" ++ toString v.index ++ ")"
  else return "Variable(index=" ++ toString v.index ++ ", model freed)"

end Variable

end LinearProgram
