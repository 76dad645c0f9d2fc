import LinearProgram.Proofs.Session

/-!
# Reading through a result

A result is current when its model is open and has the revision that the result stands for. Then every
read through it is answered, but for reads that have no answer at any time: the reduced costs of an
integer search, and the value of something that is no variable of the model. `usable_iff_current` says
that a result is usable exactly when it is current.

A value is read at the place of its column. On lp_solve, that place is counted after the rows, whose
number is asked for at every read.
-/

namespace LinearProgram

open LinearProgram.Action

variable {w : World}

/-! ## §1 Values -/

/-- The value of a column that a problem shows for a method. -/
def Native.Problem.primal (q : Problem) (j : Int) (method : Method) : Float :=
  match q with
  | .glpk q => RunValues.element (if method = .branchCut then q.values.integerX else q.values.x) j
  | .lpsolve q => LpSolve.resultAt q.rows.size q.values.rowX q.values.x (q.rows.size + j)
  | .deleted => 0

namespace Engine

variable {e : Engine} {n : Nat} {q : Native.Problem}

/-- The calls that read the value of a column of a problem with `rows` rows. -/
def primalCalls (e : Engine) (rows : Nat) (j : Int) (method : Method) : List Native.Call :=
  match e.kind with
  | .glpk => [.glpk (.read e.number (if method = .branchCut then .integerPrimal j else .primal j))]
  | .lpsolve => [e.rowCountCall, .lpsolve (.read e.number (.primal (rows + j)))]

theorem native_afterAll_primalCalls (w : World) (e : Engine) (rows : Nat) (j : Int) (method : Method) :
    (w.afterAll (e.primalCalls rows j method)).native = w.native := by
  unfold primalCalls rowCountCall
  cases e.kind <;> rfl

/-- The value of a column is read from the problem. -/
theorem on_primal (h : w.Compliant) (ho : e.Owns w.native n q) (j : Int) (method : Method) :
    (e.primal j method).on w =
      (.ok (q.primal j method), w.afterAll (e.primalCalls q.rowCount j method)) := by
  have hcount := on_rowCount (h.grants _) ho
  unfold primal primalCalls
  -- GLPK keeps the values of its two methods apart; lp_solve numbers its columns behind its rows
  cases hk : e.kind with
  | glpk =>
    obtain ⟨q, rfl, hq⟩ := ho.glpk? hk
    dsimp only
    unfold Glpk.primal
    by_cases hm : method = .branchCut
    · rw [if_pos hm, if_pos hm, Glpk.on_ask (h.grants _), ho.number, hq]
      simp [Native.Problem.primal, hm]
    · rw [if_neg hm, if_neg hm, Glpk.on_ask (h.grants _), ho.number, hq]
      simp [Native.Problem.primal, hm]
  | lpsolve =>
    obtain ⟨q, rfl, hq⟩ := ho.lpsolve? hk
    unfold rowCount at hcount
    rw [hk] at hcount
    dsimp only at hcount ⊢
    have hnative : (w.after e.rowCountCall).native.lpsolve? n = some q := by
      unfold rowCountCall
      rw [hk]
      exact hq
    unfold LpSolve.primal
    rw [Action.on_bind_of_ok hcount, LpSolve.on_ask ((h.after _).grants _), ho.number, hnative]
    rfl

/-- The value of the objective can always be read. -/
theorem on_objectiveValue (h : w.Compliant) (e : Engine) (method : Method) :
    ∃ x w', (e.objectiveValue method).on w = (.ok x, w') ∧ w'.native = w.native ∧ w'.Compliant ∧
      w'.models = w.models := by
  unfold objectiveValue
  cases e.kind with
  | glpk =>
    dsimp only
    unfold Glpk.objectiveValue
    -- GLPK keeps the value of the search apart from that of the simplex method
    split
    · exact ⟨_, _, Glpk.on_ask (h.grants _) _ _, rfl, h, rfl⟩
    · exact ⟨_, _, Glpk.on_ask (h.grants _) _ _, rfl, h, rfl⟩
  | lpsolve => exact ⟨_, _, LpSolve.on_ask (h.grants _) _ _, rfl, h, rfl⟩

end Engine

/-- The values of columns are read one after the other. -/
theorem SolveResult.on_columnValues {e : Engine} {n : Nat} {q : Native.Problem} (h : w.Compliant)
    (ho : e.Owns w.native n q) (method : Method) (count : Nat) (j : Int) :
    ∃ w', (columnValues e method count j).on w =
        (.ok ((List.range count).map fun (i : Nat) => q.primal (j + i) method), w') ∧
      w'.native = w.native ∧ w'.Compliant ∧ w'.models = w.models := by
  induction count generalizing w j with
  | zero => exact ⟨w, rfl, rfl, h, rfl⟩
  | succ count ih =>
    have hfirst := Engine.on_primal h ho j method
    have hnative := Engine.native_afterAll_primalCalls w e q.rowCount j method
    have ho₁ : e.Owns (w.afterAll (e.primalCalls q.rowCount j method)).native n q := by
      rw [hnative]
      exact ho
    obtain ⟨w', hrest, hnative', hw', hmodels⟩ := ih (h.afterAll _) ho₁ (j + 1)
    refine ⟨w', ?_, hnative'.trans hnative, hw', hmodels.trans (World.afterAll_models w _)⟩
    -- the columns of the rest start one later
    have htail : (List.range count).map (fun (i : Nat) => q.primal (j + 1 + i) method) =
        (List.range count).map ((fun (i : Nat) => q.primal (j + i) method) ∘ Nat.succ) := by
      refine List.map_congr_left fun i _ => ?_
      rw [Function.comp_apply]
      congr 1
      omega
    unfold columnValues
    rw [on_bind_of_ok hfirst, on_bind_of_ok hrest, htail, List.range_succ_eq_map, List.map_cons,
      List.map_map]
    simp

/-! ## §2 Current results -/

namespace SolveResult

/-- The model of the result is open and has the revision that the result stands for. -/
def Current (r : SolveResult) (w : World) : Prop :=
  ∃ model, w.model? r.model = some model ∧ model.freed = false ∧ model.revision = r.revision

/-- A result calls itself valid exactly if it is current. -/
theorem isValid_iff (r : SolveResult) (w : World) : (r.isValid.on w).1 = .ok true ↔ r.Current w := by
  unfold isValid Current
  rw [on_bind, on_model]
  cases hm : w.model? r.model with
  | none => simp
  | some model => simp

variable {r : SolveResult} {model : Model}

/-- A current result reaches the engine of its model. -/
theorem on_engine (hm : w.model? r.model = some model) (hf : model.freed = false)
    (hr : model.revision = r.revision) : r.engine.on w = (.ok model.engine, w) := by
  unfold engine
  rw [on_bind_of_ok (on_openModel_of_open hm hf), if_pos hr]
  rfl

variable {n : Nat} {q : Native.Problem}

/-- The value of a variable of the model. -/
theorem on_primal (hw : w.Compliant) (hm : w.model? r.model = some model) (hf : model.freed = false)
    (hr : model.revision = r.revision) (ho : model.engine.Owns w.native n q) {v : Variable}
    (hv : v.model = r.model) :
    (r.primal (.variable v)).on w = (.ok (q.primal v.column r.method),
      w.afterAll (model.engine.primalCalls q.rowCount v.column r.method)) := by
  unfold primal
  rw [on_bind_of_ok (on_engine hm hf hr)]
  -- the variable is one of the model the result came from
  have hcolumn : (r.column (.variable v)).on w = (.ok v.column, w) := by
    unfold column
    dsimp only
    rw [if_pos hv]
    rfl
  rw [on_bind_of_ok hcolumn, Engine.on_primal hw ho]

/-- The values of all variables. -/
theorem on_values (hw : w.Compliant) (hm : w.model? r.model = some model) (hf : model.freed = false)
    (hr : model.revision = r.revision) (ho : model.engine.Owns w.native n q) :
    ∃ w', r.values.on w =
        (.ok ((List.range q.columnCount).map fun (i : Nat) => q.primal (1 + i) r.method), w') ∧
      w'.native = w.native ∧ w'.Compliant ∧ w'.models = w.models := by
  have hnative := Engine.native_after_columnCountCall model.engine w
  -- counting the columns does not change the problem
  have ho₁ : model.engine.Owns (w.after model.engine.columnCountCall).native n q := by
    rw [hnative]
    exact ho
  obtain ⟨w', hvalues, hnative', hw', hmodels⟩ :=
    on_columnValues (hw.after model.engine.columnCountCall) ho₁ r.method q.columnCount 1
  refine ⟨w', ?_, hnative'.trans hnative, hw', hmodels⟩
  unfold values
  rw [on_bind_of_ok (on_engine hm hf hr),
    on_bind_of_ok (Engine.on_columnCount (hw.grants _) ho), hvalues]

end SolveResult

/-! ## §3 Usable results -/

/-- What stands in a list of variables is known: a variable has a model. -/
def VariableArgument.Known (w : World) : VariableArgument → Prop
  | .plain _ => True
  | .variable v => v.model < w.models.size

/-- The question reads values through the result. -/
def Inquiry.Reads (r : SolveResult) (w : World) : Inquiry → Prop
  | value r' v | reducedCost r' v => r' = r ∧ v.Known w
  | objective r' | values r' | solution r' | resultText r' | report r' => r' = r
  | _ => False

/-- The result calls itself valid, and no read through it is refused because the result is stale or the
model closed. -/
structure SolveResult.Usable (r : SolveResult) (w : World) : Prop where
  valid : (r.isValid.on w).1 = .ok true
  reads : ∀ i : Inquiry, i.Reads r w →
    (i.run.on w).1 ≠ .error .stale ∧ (i.run.on w).1 ≠ .error .closed

/-- The action fails neither for a stale result nor for a closed model. -/
private def Unhindered {α : Type} (a : Action α) (w : World) : Prop :=
  (a.on w).1 ≠ .error .stale ∧ (a.on w).1 ≠ .error .closed

namespace Unhindered

variable {α β : Type}

private theorem of_ok {a : Action α} {x : α} {w' : World} (h : a.on w = (.ok x, w')) :
    Unhindered a w := by
  unfold Unhindered
  rw [h]
  exact ⟨nofun, nofun⟩

private theorem map {a : Action α} (h : Unhindered a w) (f : α → β) : Unhindered (f <$> a) w := by
  unfold Unhindered at *
  rw [on_map]
  cases hx : (a.on w).1 with
  | ok x => exact ⟨nofun, nofun⟩
  | error fault =>
    rw [hx] at h
    refine ⟨fun he => h.1 ?_, fun he => h.2 ?_⟩
    · cases he
      rfl
    · cases he
      rfl

/-- What is unhindered after a first answer is unhindered. -/
private theorem bind {a : Action α} {x : α} {w' : World} (h : a.on w = (.ok x, w')) {f : α → Action β}
    (hf : Unhindered (f x) w') : Unhindered (a >>= f) w := by
  unfold Unhindered
  rw [on_bind_of_ok h]
  exact hf

end Unhindered

/-- No reduced cost is refused because a result is stale or a model closed. -/
private theorem Engine.unhindered_dual {e : Engine} {n : Nat} {q : Native.Problem} (hw : w.Compliant)
    (ho : e.Owns w.native n q) (j : Int) (method : Method) : Unhindered (e.dual j method) w := by
  have hcount := Engine.on_rowCount (hw.grants _) ho
  unfold Engine.rowCount at hcount
  unfold Engine.dual
  cases hk : e.kind with
  | glpk =>
    dsimp only
    unfold Glpk.dual
    by_cases hmethod : method = .branchCut
    · -- an integer search has no reduced costs
      rw [if_pos hmethod]
      exact ⟨nofun, nofun⟩
    · rw [if_neg hmethod]
      exact Unhindered.of_ok (Glpk.on_ask (hw.grants _) _ _)
  | lpsolve =>
    rw [hk] at hcount
    have hw₁ : (w.after e.rowCountCall).Compliant := hw
    exact Unhindered.bind hcount (Unhindered.of_ok (LpSolve.on_ask (hw₁.grants _) _ _))

namespace SolveResult

variable {r : SolveResult}

/-- The column of a variable is found, unless the variable is none of the solved model. -/
private theorem unhindered_column (hs : w.Sound) {v : VariableArgument} (hv : v.Known w) :
    (∃ j, (r.column v).on w = (.ok j, w)) ∨
      ∃ text w', (r.column v).on w = (.error (.unsolvedVariable text), w') := by
  unfold column
  match v with
  | .plain d => exact Or.inr ⟨_, _, rfl⟩
  | .variable v =>
    dsimp only
    by_cases hmodel : v.model = r.model
    · rw [if_pos hmodel]
      exact Or.inl ⟨_, rfl⟩
    · -- a variable of another model is formatted for the message
      rw [if_neg hmodel]
      obtain ⟨text, hdisplay⟩ := Variable.on_display_of_known hs.compliant hv
      rw [on_bind_of_ok hdisplay]
      exact Or.inr ⟨text, _, rfl⟩

/-- What the reads through a current result rest on: its model and the problem that the model holds. -/
private structure Readable (r : SolveResult) (w : World) (model : Model) (n : Nat)
    (q : Native.Problem) : Prop where
  compliant : w.Compliant
  found : w.model? r.model = some model
  unfreed : model.freed = false
  revision : model.revision = r.revision
  owns : model.engine.Owns w.native n q

namespace Readable

variable {w' : World} {model : Model} {n : Nat} {q : Native.Problem}

private theorem of_current (hs : w.Sound) (h : r.Current w) : ∃ model n q, r.Readable w model n q := by
  obtain ⟨model, hm, hf, hr⟩ := h
  obtain ⟨n, q, -, ho⟩ := hs.holds_of_model? hm hf
  exact ⟨model, n, q, hs.compliant, hm, hf, hr, ho⟩

/-- A result stays readable while the models and the libraries stay as they are. -/
private theorem unmoved (h : r.Readable w model n q) (hw' : w'.Compliant) (hnative : w'.native = w.native)
    (hmodels : w'.models = w.models) : r.Readable w' model n q where
  compliant := hw'
  found := by
    rw [World.model?, hmodels]
    exact h.found
  unfreed := h.unfreed
  revision := h.revision
  owns := hnative ▸ h.owns

private theorem on_isValid (h : r.Readable w model n q) : r.isValid.on w = (.ok true, w) := by
  unfold isValid
  rw [on_bind_of_ok (on_model_of_some h.found)]
  simp [h.unfreed, h.revision]

/-- After the objective value was read, everything else can still be read. -/
private theorem on_objective (h : r.Readable w model n q) :
    ∃ x w', r.objective.on w = (.ok x, w') ∧ r.Readable w' model n q := by
  obtain ⟨x, w', hobjective, hnative, hw', hmodels⟩ :=
    Engine.on_objectiveValue h.compliant model.engine r.method
  refine ⟨x, w', ?_, h.unmoved hw' hnative hmodels⟩
  unfold objective
  rw [on_bind_of_ok (on_engine h.found h.unfreed h.revision), hobjective]

/-- After the values were read, everything else can still be read. -/
private theorem on_values (h : r.Readable w model n q) :
    ∃ xs w', r.values.on w = (.ok xs, w') ∧ r.Readable w' model n q := by
  obtain ⟨w', hvalues, hnative, hw', hmodels⟩ :=
    SolveResult.on_values h.compliant h.found h.unfreed h.revision h.owns
  exact ⟨_, w', hvalues, h.unmoved hw' hnative hmodels⟩

/-- The value or the reduced cost of a variable, which the engine is asked for at its column. -/
private theorem unhindered_at (h : r.Readable w model n q) (hs : w.Sound) {v : VariableArgument}
    (hv : v.Known w) (read : Engine → Int → Action Float)
    (hread : ∀ j, Unhindered (read model.engine j) w) :
    Unhindered (r.engine >>= fun e => r.column v >>= read e) w := by
  refine Unhindered.bind (on_engine h.found h.unfreed h.revision) ?_
  rcases unhindered_column hs hv with ⟨j, hcolumn⟩ | ⟨text, w', hcolumn⟩
  · exact Unhindered.bind hcolumn (hread j)
  · -- what is no variable of the model is refused as such
    unfold Unhindered
    rw [on_bind_of_error hcolumn]
    exact ⟨nofun, nofun⟩

private theorem unhindered_primal (h : r.Readable w model n q) (hs : w.Sound) {v : VariableArgument}
    (hv : v.Known w) : Unhindered (r.primal v) w :=
  h.unhindered_at hs hv (fun e j => e.primal j r.method) fun j =>
    Unhindered.of_ok (Engine.on_primal h.compliant h.owns j r.method)

private theorem unhindered_dual (h : r.Readable w model n q) (hs : w.Sound) {v : VariableArgument}
    (hv : v.Known w) : Unhindered (r.dual v) w :=
  h.unhindered_at hs hv (fun e j => e.dual j r.method) fun j =>
    Engine.unhindered_dual h.compliant h.owns j r.method

private theorem unhindered_solution (h : r.Readable w model n q) : Unhindered r.solution w := by
  obtain ⟨x, w₁, hobjective, h₁⟩ := h.on_objective
  obtain ⟨xs, w₂, hvalues, -⟩ := h₁.on_values
  exact Unhindered.bind hobjective (Unhindered.bind hvalues (Unhindered.of_ok rfl))

private theorem unhindered_report (h : r.Readable w model n q) : Unhindered r.report w := by
  obtain ⟨xs, w₁, hvalues, h₁⟩ := h.on_values
  obtain ⟨x, w₂, hobjective, -⟩ := h₁.on_objective
  refine Unhindered.bind h.on_isValid ?_
  rw [if_pos rfl]
  exact Unhindered.bind hvalues (Unhindered.bind hobjective (Unhindered.of_ok rfl))

end Readable

/-- **A result is usable exactly when it is current.** -/
theorem usable_iff_current (hs : w.Sound) (r : SolveResult) : r.Usable w ↔ r.Current w := by
  refine ⟨fun h => (isValid_iff r w).mp h.valid, fun hcurrent => ⟨(isValid_iff r w).mpr hcurrent, ?_⟩⟩
  obtain ⟨model, n, q, h⟩ := Readable.of_current hs hcurrent
  -- only the questions that ask the result itself are at issue
  intro i hi
  cases i with
  | modelValid | modelName | direction | variableCount | constraintCount | variableList | matrix
  | variableName | kind | bounds | coefficient | variableText | resultValid => exact hi.elim
  | value r' v =>
    obtain ⟨rfl, hv⟩ := hi
    exact (h.unhindered_primal hs hv).map _
  | reducedCost r' v =>
    obtain ⟨rfl, hv⟩ := hi
    exact (h.unhindered_dual hs hv).map _
  | objective r' =>
    subst hi
    obtain ⟨x, w', hobjective, -⟩ := h.on_objective
    exact (Unhindered.of_ok hobjective).map _
  | values r' =>
    subst hi
    obtain ⟨xs, w', hvalues, -⟩ := h.on_values
    exact (Unhindered.of_ok hvalues).map _
  | solution r' =>
    subst hi
    exact h.unhindered_solution.map _
  | resultText r' =>
    subst hi
    exact (Unhindered.bind h.on_isValid (Unhindered.of_ok rfl)).map _
  | report r' =>
    subst hi
    exact h.unhindered_report.map _

end SolveResult

end LinearProgram
