import LinearProgram.Proofs.Session
import LinearProgram.Proofs.Solve.Released

/-!
# What sets no hook

Only a solve puts handles into hooks. Everything else that can be done with models makes calls that set no hook,
and gives no engine a handle. `BuildClosed` are the properties of states that all of this keeps, and the
`builds_` theorems say so, from the single call up to the operations of models and variables.
-/

namespace LinearProgram

open LinearProgram.Action

/-! ## §1 Engines -/

/-- A property that is kept by calls that set no hook, by records, by loading libraries, and by changes of the
models that give no engine a handle. -/
class BuildClosed (P : World → Prop) : Prop where
  call : ∀ {c : Native.Call}, c.isHook = false → Preserves P (call c)
  writings : ∀ {w l}, P w → P { w with writings := l }
  library : ∀ {w : World} {kind : EngineKind} {l : Library}, P w → P (w.withLibrary kind l)
  change : ∀ {w : World} {m : ModelId} {f : Model → Model},
    (∀ model, model.engine.abort = none → (f model).engine.abort = none) → P w → P (w.modifyModel m f)
  add : ∀ {w : World} {model : Model}, model.engine.abort = none → P w →
    P { w with models := w.models.push model }
  idle : ∀ {w : World} {m : ModelId} {model : Model}, P w → w.model? m = some model →
    model.engine.abort = none

variable {P : World → Prop} [BuildClosed P]

instance : ReadClosed P where
  call {c} hc := BuildClosed.call (by rcases c with c | c <;> cases c <;> first | rfl | cases hc)
  writings := BuildClosed.writings

instance : LoadClosed P where
  library := BuildClosed.library

namespace Action

theorem builds_update (m : ModelId) {f : Model → Model}
    (hf : ∀ model, model.engine.abort = none → (f model).engine.abort = none) :
    Preserves P (updateModel m f) := fun _ h => BuildClosed.change hf h

theorem builds_note (m : ModelId) {f : Model → Model} (hf : ∀ model, (f model).engine = model.engine) :
    Preserves P (updateModel m f) :=
  builds_update m fun model h => (congrArg Engine.abort (hf model)).trans h

end Action

namespace Glpk

theorem builds_tell {c : Call} (hc : (Native.Call.glpk c).isHook = false) : Preserves P (tell c) :=
  (BuildClosed.call hc).bind fun _ => Preserves.pure _

theorem builds_create : Preserves P create := by
  unfold create
  refine Preserves.get.bind fun w => (BuildClosed.call rfl).bind fun _ => ?_
  split <;> exact Preserves.pure _

theorem builds_copy (p : Nat) : Preserves P (copy p) :=
  builds_create.bind fun _ => (builds_tell rfl).bind fun _ => Preserves.pure _

theorem builds_addColumns (p count : Nat) : Preserves P (addColumns p count) := by
  unfold addColumns
  split
  · exact (reads_ask _ _ _ _).bind fun _ => Preserves.pure _
  · refine Preserves.get.bind fun w => (BuildClosed.call rfl).bind fun _ => ?_
    split <;> exact Preserves.pure _

theorem builds_addRows (p count : Nat) : Preserves P (addRows p count) := by
  unfold addRows
  split
  · exact (reads_ask _ _ _ _).bind fun _ => Preserves.pure _
  · refine Preserves.get.bind fun w => (BuildClosed.call rfl).bind fun _ => ?_
    split <;> exact Preserves.pure _

end Glpk

namespace LpSolve

theorem builds_tell {c : Call} (hc : (Native.Call.lpsolve c).isHook = false) : Preserves P (tell c) :=
  (BuildClosed.call hc).bind fun _ => Preserves.pure _

theorem builds_silence (p : Nat) : Preserves P (silence p) :=
  (builds_tell rfl).bind fun _ => builds_tell rfl

/-- A new problem of lp_solve has no hook. -/
theorem builds_create : Preserves P create := by
  unfold create
  refine Preserves.get.bind fun w => (BuildClosed.call rfl).bind fun _ => ?_
  split
  · exact (builds_silence _).bind fun _ => Preserves.pure _
  · exact Preserves.fail _

theorem builds_copy (p : Nat) : Preserves P (copy p) := by
  unfold copy
  refine Preserves.get.bind fun w => (BuildClosed.call rfl).bind fun _ => ?_
  split
  · exact (builds_silence _).bind fun _ => Preserves.pure _
  · exact Preserves.fail _

theorem builds_pushColumns (p count : Nat) : Preserves P (pushColumns p count) := by
  induction count with
  | zero => exact Preserves.pure _
  | succ count ih =>
    unfold pushColumns
    refine (BuildClosed.call rfl).bind fun _ => ?_
    -- refused: the columns pushed so far stay
    split
    · exact ih
    · exact Preserves.fail _

theorem builds_pushRows (p count : Nat) : Preserves P (pushRows p count) := by
  induction count with
  | zero => exact Preserves.pure _
  | succ count ih =>
    unfold pushRows
    refine (BuildClosed.call rfl).bind fun _ => ?_
    split
    · exact ih
    · exact Preserves.fail _

end LpSolve

namespace Engine

variable (e : Engine)

theorem builds_create (kind : EngineKind) : Preserves P (create kind) := by
  cases kind with
  | glpk => exact Glpk.builds_create.bind fun _ => Preserves.pure _
  | lpsolve => exact LpSolve.builds_create.bind fun _ => Preserves.pure _

/-- A new engine has no handle for aborts. -/
theorem abort_of_create {kind : EngineKind} {w w' : World} (h : (create kind).on w = (.ok e, w')) :
    e.abort = none := by
  cases kind <;>
  · obtain ⟨p, w₁, -, hpure⟩ := on_bind_eq_ok.mp h
    cases hpure
    rfl

theorem builds_destroy : Preserves P e.destroy := by
  unfold destroy
  split
  · exact Preserves.pure _
  · cases e.kind with
    | glpk => exact (Glpk.builds_tell rfl).bind fun _ => Preserves.pure _
    | lpsolve => exact (LpSolve.builds_tell rfl).bind fun _ => Preserves.pure _

theorem abort_of_destroy {e' : Engine} {w w' : World} (h : e.destroy.on w = (.ok e', w')) :
    e'.abort = e.abort := by
  unfold destroy at h
  -- nothing to destroy, or one call that forgets the number
  split at h
  · cases h
    rfl
  · split at h <;>
    · obtain ⟨_, w₁, _, hpure⟩ := on_bind_eq_ok.mp h
      cases hpure
      rfl

theorem builds_copy : Preserves P e.copy := by
  unfold copy
  split
  · exact Preserves.fail _
  · cases e.kind with
    | glpk => exact (Glpk.builds_copy _).bind fun _ => Preserves.pure _
    | lpsolve => exact (LpSolve.builds_copy _).bind fun _ => Preserves.pure _

/-- A copy of an engine has no handle for aborts, even if the engine has one. -/
theorem abort_of_copy {e' : Engine} {w w' : World} (h : e.copy.on w = (.ok e', w')) : e'.abort = none := by
  unfold copy at h
  split at h
  · cases h
  · split at h <;>
    · obtain ⟨p, w₁, -, hpure⟩ := on_bind_eq_ok.mp h
      cases hpure
      rfl

omit [BuildClosed P] in
theorem builds_checkName (name : String) : Preserves P (e.checkName name) := by
  unfold checkName
  cases e.kind
  · exact Preserves.lift _
  · exact Preserves.pure _

theorem builds_setName (name : String) : Preserves P (e.setName name) := by
  unfold setName
  refine (e.builds_checkName name).bind fun _ => ?_
  cases e.kind
  · exact Glpk.builds_tell rfl
  · exact LpSolve.builds_tell rfl

theorem builds_setDirection (d : Direction) : Preserves P (e.setDirection d) := by
  unfold setDirection
  cases e.kind
  · exact Glpk.builds_tell rfl
  · exact LpSolve.builds_tell rfl

/-- Columns are added without touching any hook. -/
theorem builds_addColumns (count : Int) : Preserves P (e.addColumns count) := by
  unfold addColumns
  split
  · exact Preserves.fail _
  · cases e.kind
    · exact Glpk.builds_addColumns _ _
    · exact (LpSolve.reads_ask _ _ _ _).bind fun _ =>
        (LpSolve.builds_pushColumns _ _).bind fun _ => Preserves.pure _

theorem builds_setColumnName (j : Int) (name : String) : Preserves P (e.setColumnName j name) := by
  unfold setColumnName
  refine (e.builds_checkName name).bind fun _ => ?_
  cases e.kind
  · exact Glpk.builds_tell rfl
  · exact LpSolve.builds_tell rfl

theorem builds_setColumnKind (j : Int) (kind : VariableKind) : Preserves P (e.setColumnKind j kind) := by
  unfold setColumnKind
  cases e.kind
  · exact Glpk.builds_tell rfl
  · cases kind <;> exact LpSolve.builds_tell rfl

theorem builds_setColumnBounds (j : Int) (b : Bound) : Preserves P (e.setColumnBounds j b) := by
  unfold setColumnBounds
  cases e.kind
  · exact Glpk.builds_tell rfl
  · unfold LpSolve.setColumnBounds
    cases b.kind <;> exact LpSolve.builds_tell rfl

theorem builds_setObjective (j : Int) (coefficient : Float) : Preserves P (e.setObjective j coefficient) := by
  unfold setObjective
  cases e.kind
  · exact Glpk.builds_tell rfl
  · exact LpSolve.builds_tell rfl

theorem builds_addRows (count : Int) : Preserves P (e.addRows count) := by
  unfold addRows
  split
  · exact Preserves.fail _
  · cases e.kind
    · exact Glpk.builds_addRows _ _
    · exact (LpSolve.reads_ask _ _ _ _).bind fun _ =>
        (LpSolve.builds_pushRows _ _).bind fun _ => Preserves.pure _

theorem builds_setRowBounds (i : Int) (b : Bound) : Preserves P (e.setRowBounds i b) := by
  unfold setRowBounds
  cases e.kind
  · exact Glpk.builds_tell rfl
  · show Preserves P (LpSolve.setRowBounds e.number i b)
    unfold LpSolve.setRowBounds
    -- a row of lp_solve has one side, so a double bound is refused
    split
    · exact Preserves.fail _
    · exact (LpSolve.builds_tell rfl).bind fun _ => LpSolve.builds_tell rfl

theorem builds_addBoundedRow (b : Bound) : Preserves P (e.addBoundedRow b) :=
  (e.builds_addRows 1).bind fun i => (e.builds_setRowBounds i b).bind fun _ => Preserves.pure _

/-- Rows are added without touching any hook. -/
theorem builds_addRow (b : Bound) : Preserves P (e.addRow b) := by
  unfold addRow
  split
  · exact (e.builds_addBoundedRow _).bind fun _ => (e.builds_addBoundedRow _).bind fun _ => Preserves.pure _
  · split
    · exact Preserves.pure _
    · exact (e.builds_addBoundedRow b).bind fun _ => Preserves.pure _

end Engine

/-! ## §2 Models and variables -/

namespace Model

variable (m : ModelId)

theorem builds_free : Preserves P (free m) := by
  unfold free
  refine (reads_model m).bind_of fun w model w' hw hon => ?_
  obtain ⟨hm, rfl⟩ := on_model_eq_ok hon
  -- no solve is under way, so no handle is lost with the model
  have habort := BuildClosed.idle hw hm
  split
  · refine model.engine.builds_destroy.bind_of fun v e v' hv hdestroy => ?_
    refine (builds_update m fun _ _ => ?_).bind fun _ => reads_debug _ _
    exact (Engine.abort_of_destroy _ hdestroy).trans habort
  · exact Preserves.pure _

theorem builds_add {model : Model} (h : model.engine.abort = none) : Preserves P (add model) :=
  Preserves.get.bind fun _ => (Preserves.change fun _ hw => BuildClosed.add h hw).bind fun _ =>
    Preserves.pure _

/-- Making a model sets no hook. -/
theorem builds_make (name : String) (direction : Direction) (draft : ModelDraft) (kind : EngineKind) :
    Preserves P (make name direction draft kind) := by
  refine (Engine.builds_create kind).bind_of fun w e w' _ hcreate => ?_
  refine (builds_add (Engine.abort_of_create e hcreate)).bind fun m => Preserves.bind ?_ fun _ =>
    (reads_model m).bind fun model => (reads_debug _ _).bind fun _ => Preserves.pure _
  refine Preserves.recovering ?_ fun fault => (builds_free m).bind fun _ => Preserves.fail _
  exact (e.builds_checkName name).bind fun _ => (e.builds_setName name).bind fun _ => e.builds_setDirection direction

theorem builds_create (name : String) (direction : Datum) (options : List ModelOption) :
    Preserves P (create name direction options) := by
  unfold create
  refine (Preserves.lift _).bind fun direction => (ModelDraft.loads_applyAll _ _).bind fun draft => ?_
  cases draft.engine with
  | some kind => exact builds_make name direction draft kind
  | none => exact loads_selectDefault.bind (builds_make name direction draft)

/-- Copying a model sets no hook. -/
theorem builds_clone : Preserves P (clone m) := by
  unfold clone
  refine (reads_openModel m).bind fun model => (Preserves.lift _).bind fun parameters => ?_
  refine model.engine.builds_copy.bind_of fun w e w' _ hcopy => Preserves.get.bind fun _ => ?_
  exact builds_add (Engine.abort_of_copy _ hcopy)

theorem builds_setDirection (direction : Datum) : Preserves P (setDirection m direction) :=
  (Preserves.lift _).bind fun _ => (reads_openModel m).bind fun model => model.engine.builds_setDirection _

theorem builds_assignParameters (entries : List (String × Datum)) :
    Preserves P (assignParameters m entries) := by
  induction entries with
  | nil => exact Preserves.pure _
  | cons entry rest ih =>
    exact (reads_model m).bind fun model => (Preserves.lift _).bind fun p =>
      Preserves.bind (builds_note m fun _ => rfl) fun _ => ih

theorem builds_setUpColumn (e : Engine) (j : Int) (name : String) (d : VariableDraft) :
    Preserves P (setUpColumn m e j name d) :=
  (e.builds_setColumnName j name).bind fun _ => (e.builds_setColumnKind j d.kind).bind fun _ =>
    (e.builds_setColumnBounds j _).bind fun _ => (e.builds_setObjective j d.coefficient).bind fun _ =>
      Preserves.bind (builds_note m fun _ => rfl) fun _ => Preserves.pure _

theorem builds_setUpColumns (e : Engine) (d : VariableDraft) (j : Int) (names : List String) :
    Preserves P (setUpColumns m e d j names) := by
  induction names generalizing j with
  | nil => exact Preserves.pure _
  | cons name rest ih =>
    exact (builds_setUpColumn m e j name d).bind fun _ => (ih (j + 1)).bind fun _ => Preserves.pure _

omit [BuildClosed P] in
theorem builds_pickNames (e : Engine) (taken : List String) (given : Nat → String) (count index : Nat) :
    Preserves P (pickNames e taken given count index) := by
  obtain ⟨r, hon, -⟩ := on_pickNames e taken given count index
  intro w hw
  rw [hon]
  exact hw

theorem builds_addColumns (count : Nat) (given : Nat → String) (d : VariableDraft) :
    Preserves P (addColumns m count given d) :=
  (reads_openModel m).bind fun model => model.engine.reads_columnCount.bind fun _ =>
    (builds_pickNames _ _ _ _ _).bind fun names => (model.engine.builds_addColumns count).bind fun first =>
      Preserves.bind (builds_note m fun _ => rfl) fun _ =>
        (builds_setUpColumns m _ d first names).bind fun _ =>
          Preserves.bind (builds_note m fun _ => rfl) fun _ => Preserves.pure _

theorem builds_addVariable (name : String) (kind : Datum) (coefficient lower upper : Number) :
    Preserves P (addVariable m name kind coefficient lower upper) :=
  (Preserves.lift _).bind fun d => (builds_addColumns m 1 _ d).bind fun _ => Preserves.pure _

theorem builds_addVariables (count : Int) (stem : String) (kind : Datum) (coefficient lower upper : Number) :
    Preserves P (addVariables m count stem kind coefficient lower upper) := by
  unfold addVariables
  split
  · exact Preserves.fail _
  · exact (Preserves.lift _).bind fun d => builds_addColumns m _ _ d

theorem builds_setObjectives (e : Engine) (terms : List (Variable × Float)) :
    Preserves P (setObjectives e terms) := by
  induction terms with
  | nil => exact Preserves.pure _
  | cons term rest ih => exact (e.builds_setObjective _ _).bind fun _ => ih

theorem builds_setObjective (coefficients : List Number) (vars : List VariableArgument) :
    Preserves P (setObjective m coefficients vars) :=
  (Preserves.lift _).bind fun _ => (Preserves.lift _).bind fun _ => (reads_openModel m).bind fun _ =>
    (reads_checkVariables m _ _).bind fun _ => builds_setObjectives _ _

theorem builds_appendRows (columns coefficients : List Number) (rows : List Int) :
    Preserves P (appendRows m columns coefficients rows) := by
  induction rows with
  | nil => exact Preserves.pure _
  | cons i rest ih =>
    unfold appendRows
    refine (reads_model m).bind fun model => ?_
    dsimp only
    refine Preserves.bind (builds_note m fun _ => rfl) fun _ => ?_
    -- a row that does not convert breaks off; its entries stay as far as they came
    split
    · exact Preserves.fail _
    · exact ih

/-- Adding a constraint sets no hook. -/
theorem builds_addConstraint (lower upper : Number) (vars : List VariableArgument)
    (coefficients : List Number) : Preserves P (addConstraint m lower upper vars coefficients) := by
  unfold addConstraint
  refine (Preserves.lift _).bind fun _ => (Preserves.lift _).bind fun bound => (Preserves.lift _).bind fun cs =>
    (reads_openModel m).bind fun model => (reads_checkVariables m _ _).bind fun vars =>
      (model.engine.builds_addRow bound).bind fun rows => (builds_appendRows m _ _ rows).bind fun _ => ?_
  split
  · exact (reads_debug _ _).bind fun _ => builds_note m fun _ => rfl
  · exact Preserves.bind (builds_note m fun _ => rfl) fun _ => builds_note m fun _ => rfl

end Model

namespace Variable

variable (v : Variable)

theorem builds_setKind (kind : Datum) : Preserves P (v.setKind kind) := by
  unfold setKind
  refine (Preserves.lift _).bind fun kind => (reads_openModel _).bind fun model =>
    (model.engine.builds_setColumnKind _ _).bind fun _ => ?_
  -- binary or not, and in the list of kinds or not
  split <;> split
  · exact (model.engine.builds_setColumnBounds _ _).bind fun _ => builds_note _ fun _ => rfl
  · exact builds_note _ fun _ => rfl
  · exact (model.engine.builds_setColumnBounds _ _).bind fun _ => Preserves.fail _
  · exact Preserves.fail _

theorem builds_setBounds (lower upper : Number) : Preserves P (v.setBounds lower upper) := by
  unfold setBounds
  refine (Preserves.lift _).bind fun bound => v.reads_kind.bind fun kind => ?_
  split
  · exact reads_debug _ _
  · exact (reads_openModel _).bind fun model => model.engine.builds_setColumnBounds _ _

theorem builds_setCoefficient (coefficient : Number) : Preserves P (v.setCoefficient coefficient) :=
  (Preserves.lift _).bind fun _ => (reads_openModel _).bind fun model => model.engine.builds_setObjective _ _

end Variable

end LinearProgram
