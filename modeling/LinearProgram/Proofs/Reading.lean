import LinearProgram.Model.Result
import LinearProgram.Proofs.Engine.Effects
import LinearProgram.Proofs.Run

/-!
# Reading

What reads from an engine, a model or a result makes calls that only read. Whatever such calls and records
keep, reading keeps: that is `ReadClosed`. Above all, it is `Idling`: no model, no problem and no registration
changes, and no solver is started.
-/

namespace LinearProgram

open LinearProgram.Action

/-- A property of states that records keep. -/
class NoteClosed (P : World → Prop) : Prop where
  writings : ∀ {w l}, P w → P { w with writings := l }

/-- In addition, a property that calls which only read keep. -/
class ReadClosed (P : World → Prop) : Prop extends NoteClosed P where
  call : ∀ {c : Native.Call}, c.isRead = true → Preserves P (call c)

instance (w : World) : ReadClosed (Idling w) where
  call {c} hc w₁ h := by
    rw [on_call_of_compliant h.compliant]
    have hquiet : c.isQuiet = true ∧ c.isEntry = false := by
      rcases c with c | c <;> cases c <;> first | exact ⟨rfl, rfl⟩ | cases hc
    exact h.trans (Idling.after h.compliant hquiet.1 hquiet.2)
  writings h := (Idling.kept w).writings h

/-- A property of states that records and loading a library keep. -/
class LoadClosed (P : World → Prop) : Prop extends NoteClosed P where
  library : ∀ {w : World} {kind : EngineKind} {l : Library}, P w → P (w.withLibrary kind l)

namespace Action

variable {P : World → Prop}

theorem reads_model (m : ModelId) : Preserves P (model m) := by
  intro w₁ h
  rw [on_model]
  cases w₁.model? m <;> exact h

/-- Looking for an open model writes nothing but its refusal. -/
theorem reads_openModel (m : ModelId) : Preserves P (openModel m) := by
  intro w₁ h
  rcases on_openModel_cases m w₁ with ⟨model, -, -, hon⟩ | hon
  · rw [hon]
    exact h
  · rw [hon]
    exact h

variable [NoteClosed P]

theorem reads_debug (source text : String) : Preserves P (debug source text) :=
  fun _ h => NoteClosed.writings h

theorem reads_logError (source text : String) : Preserves P (logError source text) :=
  fun _ h => NoteClosed.writings h

end Action

/-! ## §1 Engines -/

namespace Glpk

variable {P : World → Prop} [ReadClosed P]

/-- A question to a problem of GLPK leaves a note of the call, and nothing else. -/
theorem reads_ask {α : Type} (p : Nat) (query : Query) (absent : α) (answer : Problem → α) :
    Preserves P (ask p query absent answer) := by
  unfold ask
  refine Preserves.bind (ReadClosed.call rfl) fun carried => ?_
  split
  · refine Preserves.bind Preserves.get fun v => ?_
    split <;> exact Preserves.pure _
  · exact Preserves.pure _

theorem reads_columnBounds (p : Nat) (j : Int) : Preserves P (columnBounds p j) := by
  unfold columnBounds
  refine Preserves.bind (reads_ask _ _ _ _) fun code => Preserves.bind (Preserves.lift _) fun kind => ?_
  refine Preserves.bind (reads_ask _ _ _ _) fun lower => ?_
  exact Preserves.bind (reads_ask _ _ _ _) fun upper => Preserves.pure _

end Glpk

namespace LpSolve

variable {P : World → Prop} [ReadClosed P]

/-- A question to a problem of lp_solve leaves a note of the call, and nothing else. -/
theorem reads_ask {α : Type} (p : Nat) (query : Query) (absent : α) (answer : Problem → α) :
    Preserves P (ask p query absent answer) := by
  unfold ask
  refine Preserves.bind (ReadClosed.call rfl) fun carried => ?_
  split
  · refine Preserves.bind Preserves.get fun v => ?_
    split <;> exact Preserves.pure _
  · exact Preserves.pure _

theorem reads_columnBounds (p : Nat) (j : Int) : Preserves P (columnBounds p j) := by
  unfold columnBounds
  refine Preserves.bind (reads_ask _ _ _ _) fun lower => ?_
  exact Preserves.bind (reads_ask _ _ _ _) fun upper => Preserves.pure _

theorem reads_primal (p : Nat) (j : Int) : Preserves P (primal p j) :=
  Preserves.bind (reads_ask _ _ _ _) fun _ => reads_ask _ _ _ _

theorem reads_dual (p : Nat) (j : Int) : Preserves P (dual p j) :=
  Preserves.bind (reads_ask _ _ _ _) fun _ => reads_ask _ _ _ _

end LpSolve

namespace Engine

variable {P : World → Prop} [ReadClosed P] (e : Engine)

theorem reads_name : Preserves P e.name := by
  unfold name
  cases e.kind
  · exact Glpk.reads_ask _ _ _ _
  · exact LpSolve.reads_ask _ _ _ _

theorem reads_direction : Preserves P e.direction := by
  unfold direction
  cases e.kind
  · exact Preserves.bind (Glpk.reads_ask _ _ _ _) fun _ => Preserves.pure _
  · exact Preserves.bind (LpSolve.reads_ask _ _ _ _) fun _ => Preserves.pure _

theorem reads_columnCount : Preserves P e.columnCount := by
  unfold columnCount
  cases e.kind
  · exact Glpk.reads_ask _ _ _ _
  · exact LpSolve.reads_ask _ _ _ _

theorem reads_rowCount : Preserves P e.rowCount := by
  unfold rowCount
  cases e.kind
  · exact Glpk.reads_ask _ _ _ _
  · exact LpSolve.reads_ask _ _ _ _

theorem reads_columnName (j : Int) : Preserves P (e.columnName j) := by
  unfold columnName
  cases e.kind
  · exact Glpk.reads_ask _ _ _ _
  · exact LpSolve.reads_ask _ _ _ _

/-- Bounds are read with questions only, on both engines. -/
theorem reads_columnBounds (j : Int) : Preserves P (e.columnBounds j) := by
  unfold columnBounds
  cases e.kind
  · exact Glpk.reads_columnBounds _ _
  · exact LpSolve.reads_columnBounds _ _

theorem reads_objective (j : Int) : Preserves P (e.objective j) := by
  unfold objective
  cases e.kind
  · exact Glpk.reads_ask _ _ _ _
  · exact LpSolve.reads_ask _ _ _ _

theorem reads_primal (j : Int) (method : Method) : Preserves P (e.primal j method) := by
  unfold primal
  cases e.kind
  · show Preserves P (Glpk.primal _ _ _)
    unfold Glpk.primal
    split <;> exact Glpk.reads_ask _ _ _ _
  · exact LpSolve.reads_primal _ _

theorem reads_dual (j : Int) (method : Method) : Preserves P (e.dual j method) := by
  unfold dual
  cases e.kind
  · -- GLPK gives no duals for a branch-and-cut result, and then nothing is asked
    show Preserves P (Glpk.dual _ _ _)
    unfold Glpk.dual
    split
    · exact Preserves.fail _
    · exact Glpk.reads_ask _ _ _ _
  · exact LpSolve.reads_dual _ _

theorem reads_objectiveValue (method : Method) :
    Preserves P (e.objectiveValue method) := by
  unfold objectiveValue
  cases e.kind
  · show Preserves P (Glpk.objectiveValue _ _)
    unfold Glpk.objectiveValue
    split <;> exact Glpk.reads_ask _ _ _ _
  · exact LpSolve.reads_ask _ _ _ _

end Engine

/-! ## §2 Models and variables -/

namespace Variable

variable {P : World → Prop} [ReadClosed P] (v : Variable)

theorem reads_name : Preserves P v.name :=
  Preserves.bind (reads_openModel _) fun model => model.engine.reads_columnName _

omit [ReadClosed P] in
theorem reads_kind : Preserves P v.kind := by
  unfold kind
  refine Preserves.bind (reads_openModel _) fun model => ?_
  split
  · exact Preserves.pure _
  · exact Preserves.fail _

theorem reads_bounds : Preserves P v.bounds := by
  unfold bounds
  refine Preserves.bind v.reads_kind fun kind => ?_
  split
  · exact Preserves.pure _
  · exact Preserves.bind (reads_openModel _) fun model => model.engine.reads_columnBounds _

theorem reads_coefficient : Preserves P v.coefficient :=
  Preserves.bind (reads_openModel _) fun model => model.engine.reads_objective _

/-- A variable is shown by what can be read of it. -/
theorem reads_display : Preserves P v.display := by
  unfold display
  refine Preserves.bind (Preserves.bind (reads_model _) fun _ => Preserves.pure _) fun valid => ?_
  split
  · exact Preserves.bind v.reads_name fun _ => Preserves.pure _
  · exact Preserves.pure _

end Variable

namespace Model

variable {P : World → Prop} [ReadClosed P]

omit [ReadClosed P] in
theorem reads_isValid (m : ModelId) : Preserves P (isValid m) :=
  Preserves.bind (reads_model _) fun _ => Preserves.pure _

theorem reads_name (m : ModelId) : Preserves P (name m) :=
  Preserves.bind (reads_openModel _) fun model => model.engine.reads_name

theorem reads_direction (m : ModelId) : Preserves P (direction m) :=
  Preserves.bind (reads_openModel _) fun model => model.engine.reads_direction

theorem reads_variableCount (m : ModelId) : Preserves P (variableCount m) :=
  Preserves.bind (reads_openModel _) fun model => model.engine.reads_columnCount

omit [ReadClosed P] in
theorem reads_countConstraints (m : ModelId) : Preserves P (countConstraints m) :=
  Preserves.bind (reads_openModel _) fun _ => Preserves.pure _

omit [ReadClosed P] in
theorem reads_listVariables (m : ModelId) : Preserves P (listVariables m) :=
  Preserves.bind (reads_openModel _) fun _ => Preserves.pure _

/-- The matrix is made of the counts and of what the model has stored. -/
theorem reads_constraintMatrix (m : ModelId) : Preserves P (constraintMatrix m) := by
  unfold constraintMatrix
  refine Preserves.bind (reads_openModel _) fun model => ?_
  refine Preserves.bind model.engine.reads_rowCount fun rows => ?_
  exact Preserves.bind model.engine.reads_columnCount fun columns => Preserves.lift _

end Model

/-! ## §3 Results -/

namespace SolveResult

variable {P : World → Prop} [ReadClosed P] (r : SolveResult)

omit [ReadClosed P] in
theorem reads_isValid : Preserves P r.isValid :=
  Preserves.bind (reads_model _) fun _ => Preserves.pure _

omit [ReadClosed P] in
theorem reads_engine : Preserves P r.engine := by
  unfold SolveResult.engine
  refine Preserves.bind (reads_openModel _) fun model => ?_
  split
  · exact Preserves.pure _
  · exact Preserves.fail _

/-- The column of a variable is found without a change. -/
theorem reads_column (v : VariableArgument) : Preserves P (r.column v) := by
  match v with
  | .plain d => exact Preserves.fail _
  | .variable v =>
    simp only [SolveResult.column]
    split
    · exact Preserves.pure _
    · exact Preserves.bind v.reads_display fun _ => Preserves.fail _

theorem reads_primal (v : VariableArgument) : Preserves P (r.primal v) := by
  unfold SolveResult.primal
  refine Preserves.bind r.reads_engine fun e => ?_
  exact Preserves.bind (r.reads_column v) fun j => e.reads_primal j r.method

theorem reads_dual (v : VariableArgument) : Preserves P (r.dual v) := by
  unfold SolveResult.dual
  refine Preserves.bind r.reads_engine fun e => ?_
  exact Preserves.bind (r.reads_column v) fun j => e.reads_dual j r.method

theorem reads_objective : Preserves P r.objective :=
  Preserves.bind r.reads_engine fun e => e.reads_objectiveValue r.method

/-- The values of the columns are read one after the other. -/
theorem reads_columnValues (e : Engine) (method : Method) (count : Nat) (j : Int) :
    Preserves P (columnValues e method count j) := by
  induction count generalizing j with
  | zero => exact Preserves.pure _
  | succ count ih =>
    unfold columnValues
    refine Preserves.bind (e.reads_primal j method) fun x => ?_
    exact Preserves.bind (ih (j + 1)) fun _ => Preserves.pure _

theorem reads_values : Preserves P r.values := by
  unfold SolveResult.values
  refine Preserves.bind r.reads_engine fun e => ?_
  exact Preserves.bind e.reads_columnCount fun count => reads_columnValues e r.method count 1

theorem reads_solution : Preserves P r.solution :=
  Preserves.bind r.reads_objective fun _ => Preserves.bind r.reads_values fun _ => Preserves.pure _

omit [ReadClosed P] in
theorem reads_display : Preserves P r.display :=
  Preserves.bind r.reads_isValid fun _ => Preserves.pure _

/-- A report is made of what can be read. -/
theorem reads_report : Preserves P r.report := by
  unfold SolveResult.report
  refine Preserves.bind r.reads_isValid fun valid => ?_
  split
  · exact Preserves.bind r.reads_values fun _ => Preserves.bind r.reads_objective fun _ => Preserves.pure _
  · exact Preserves.pure _

end SolveResult

end LinearProgram
