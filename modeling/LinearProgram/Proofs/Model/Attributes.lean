import LinearProgram.Proofs.Model.Building

/-!
# What changing a variable does

The attributes of a variable live in the engine, except for its kind, which the model keeps too. Each
change of an attribute is refused without a trace or is an edit. The bounds of a binary variable are not
changed, so setting them leaves everything undisturbed.

Showing a variable only reads: `displayCalls` are the calls that it takes.
-/

namespace LinearProgram

namespace Variable

variable {w : World} {v : Variable} {model : Model} {n : Nat} {q : Native.Problem}

/-! ## §1 The kind -/

def kindCalls (e : Engine) (j : Int) (kind : VariableKind) : List Native.Call :=
  e.kindCall j kind :: if kind = .binary then [e.boundsCall j Bound.binary] else []

/-- Changing the kind of a column concerns one problem. -/
theorem isAbout_kindCalls (e : Engine) (j : Int) (kind : VariableKind) :
    ∀ c ∈ kindCalls e j kind, c.IsAbout e.number := by
  intro c hc
  rcases List.mem_cons.mp hc with rfl | hc
  · exact Engine.isAbout_kindCall e j kind
  · -- binary variables get their bounds as well
    split at hc
    · rw [List.mem_singleton.mp hc]
      exact Engine.isAbout_boundsCall e j _
    · cases hc

/-- The model with another kind at a position; nothing changes at a position that is none. -/
def withKind (index : Int) (kind : VariableKind) (model : Model) : Model :=
  match place? model.kinds.length index with
  | some i => { model with kinds := model.kinds.set i kind }
  | none => model

/-- To note a kind commutes with taking the core. -/
theorem withKind_core (index : Int) (kind : VariableKind) (model : Model) :
    (withKind index kind model).core = withKind index kind model.core := by
  unfold withKind
  rw [Model.core_kinds]
  cases place? model.kinds.length index <;> rfl

theorem withKind_engine (index : Int) (kind : VariableKind) (model : Model) :
    (withKind index kind model).engine = model.engine := by
  unfold withKind
  cases place? model.kinds.length index <;> rfl

theorem withKind_freed (index : Int) (kind : VariableKind) (model : Model) :
    (withKind index kind model).freed = model.freed := by
  unfold withKind
  cases place? model.kinds.length index <;> rfl

/-- What follows once the engine knows the kind. -/
private theorem on_storeKind (hm : w.model? v.model = some model) (k : VariableKind) :
    (match place? model.kinds.length v.index with
      | some i => Action.updateModel v.model fun model => { model with kinds := model.kinds.set i k }
      -- out of range: the list of kinds stays, as `withKind` leaves it
      | none => Action.fail (.noItemToReplace v.index) : Action Unit).on w =
      (match place? model.kinds.length v.index with
        | some _ => .ok ()
        | none => .error (.noItemToReplace v.index),
        w.modifyModel v.model (withKind v.index k)) := by
  cases hp : place? model.kinds.length v.index with
  | some i =>
    dsimp only
    rw [Action.on_updateModel]
    refine congrArg (Prod.mk _) (World.modifyModel_congr hm ?_)
    simp [withKind, hp]
  | none =>
    dsimp only
    rw [Action.on_fail]
    refine congrArg (Prod.mk _) ((World.modifyModel_id w v.model).symm.trans ?_)
    refine World.modifyModel_congr hm ?_
    simp [withKind, hp]

/-- Changing a kind tells the engine first. It succeeds at every position of the model. -/
theorem on_setKind (h : w.Compliant) (hm : w.model? v.model = some model)
    (hf : model.freed = false) {kind : Datum} {k : VariableKind} (hk : Choice.read kind = .ok k) :
    (v.setKind kind).on w =
      (match place? model.kinds.length v.index with
        | some _ => .ok ()
        | none => .error (.noItemToReplace v.index),
        (w.afterAll (kindCalls model.engine v.column k)).modifyModel v.model (withKind v.index k)) := by
  have hm' : (w.afterAll (kindCalls model.engine v.column k)).model? v.model = some model := by
    rw [World.afterAll_model?]
    exact hm
  unfold setKind
  rw [hk, Action.on_bind_of_ok (Action.on_lift _ w),
    Action.on_bind_of_ok (Action.on_openModel_of_open hm hf),
    Action.on_bind_of_ok (Engine.on_setColumnKind h.lenient v.column k)]
  -- the kind is stored after the engine has been told
  rw [← on_storeKind hm' k]
  unfold kindCalls
  by_cases hb : k = .binary
  · rw [if_pos hb, if_pos hb, Action.on_bind_of_ok (Engine.on_setColumnBounds (h.after _).lenient _ _)]
    rfl
  · rw [if_neg hb, if_neg hb]
    rfl

/-! ## §2 Bounds and coefficients -/

/-- The kind of a variable is looked up without a trace. -/
theorem on_kind (hm : w.model? v.model = some model) (hf : model.freed = false) :
    v.kind.on w =
      (match (place? model.kinds.length v.index).bind fun i => model.kinds[i]? with
        | some kind => .ok kind
        | none => .error (.noItem v.index), w) := by
  unfold kind
  rw [Action.on_bind_of_ok (Action.on_openModel_of_open hm hf)]
  cases (place? model.kinds.length v.index).bind fun i => model.kinds[i]? <;> rfl

/-- Setting bounds is refused, or leaves a binary variable alone, or tells the engine. -/
theorem on_setBounds (h : w.Compliant) (hm : w.model? v.model = some model)
    (hf : model.freed = false) (lower upper : Number) :
    (∃ fault, (v.setBounds lower upper).on w = (.error fault, w)) ∨
      ∃ b i k, Bound.encodeNumbers lower upper = .ok b ∧ place? model.kinds.length v.index = some i ∧
        model.kinds[i]? = some k ∧
        ((k = .binary ∧ ∃ w', (v.setBounds lower upper).on w = (.ok (), w') ∧ Idling w w') ∨
          (k ≠ .binary ∧ (v.setBounds lower upper).on w =
            (.ok (), w.after (model.engine.boundsCall v.column b)))) := by
  unfold setBounds
  cases hb : Bound.encodeNumbers lower upper with
  | error fault => exact Or.inl ⟨fault, rfl⟩
  | ok b =>
    have hkind := on_kind hm hf
    rw [Action.on_bind_of_ok (Action.on_lift _ w)]
    cases hp : place? model.kinds.length v.index with
    | none =>
      rw [hp] at hkind
      exact Or.inl ⟨_, Action.on_bind_of_error hkind _⟩
    | some i =>
      cases hi : model.kinds[i]? with
      | none =>
        rw [hp, Option.bind_some, hi] at hkind
        exact Or.inl ⟨_, Action.on_bind_of_error hkind _⟩
      | some k =>
        rw [hp, Option.bind_some, hi] at hkind
        refine Or.inr ⟨b, i, k, rfl, rfl, hi, ?_⟩
        rw [Action.on_bind_of_ok hkind]
        -- bounds of a binary variable are fixed, so only a record is written
        by_cases hbinary : k = .binary
        · rw [if_pos hbinary, Action.on_debug]
          exact Or.inl ⟨hbinary, _, rfl, (Idling.kept w).writings (Idling.refl h)⟩
        · rw [if_neg hbinary, Action.on_bind_of_ok (Action.on_openModel_of_open hm hf),
            Engine.on_setColumnBounds h.lenient]
          exact Or.inr ⟨hbinary, rfl⟩

/-- Setting a coefficient is refused, or tells the engine. -/
theorem on_setCoefficient (h : w.Compliant) (hm : w.model? v.model = some model)
    (hf : model.freed = false) (coefficient : Number) :
    (v.setCoefficient coefficient).on w =
      match coefficient.toDouble with
      | .error fault => (.error fault, w)
      | .ok x => (.ok (), w.after (model.engine.objectiveCall v.column x)) := by
  unfold setCoefficient
  rw [Action.on_bind, Action.on_lift]
  cases coefficient.toDouble with
  | error fault => rfl
  | ok x =>
    dsimp only
    rw [Action.on_bind_of_ok (Action.on_openModel_of_open hm hf), Engine.on_setObjective h.lenient]

end Variable

/-! ## §3 Showing a variable -/

namespace Engine

def columnNameCall (e : Engine) (j : Int) : Native.Call :=
  match e.kind with
  | .glpk => .glpk (.read e.number (.columnName j))
  | .lpsolve => .lpsolve (.read e.number (.columnName j))

theorem isRead_columnNameCall (e : Engine) (j : Int) : (e.columnNameCall j).isRead = true := by
  unfold columnNameCall
  cases e.kind <;> rfl

/-- Reading the name of a column takes one call, whether there is such a column or not. -/
theorem on_columnName_eq {w : World} (hw : w.Compliant) (e : Engine) (j : Int) :
    ∃ name, (e.columnName j).on w = (.ok name, w.reading [e.columnNameCall j]) := by
  unfold columnName columnNameCall
  cases e.kind with
  | glpk => exact ⟨_, (Glpk.on_ask (hw.grants _) _ _).trans (by rw [World.after_eq_reading]; rfl)⟩
  | lpsolve => exact ⟨_, (LpSolve.on_ask (hw.grants _) _ _).trans (by rw [World.after_eq_reading]; rfl)⟩

end Engine

namespace Variable

variable {w : World} {v : Variable}

/-- The calls that it takes to show the variable: its name is read if its model is open. -/
def displayCalls (v : Variable) (w : World) : List Native.Call :=
  match w.model? v.model with
  | some model => if model.freed then [] else [model.engine.columnNameCall v.column]
  | none => []

/-- Showing a variable takes questions only. -/
theorem isRead_displayCalls (v : Variable) (w : World) : ∀ c ∈ v.displayCalls w, c.isRead = true := by
  intro c hc
  -- only the name of an open model's variable is asked for
  unfold displayCalls at hc
  split at hc
  · split at hc
    · cases hc
    · rw [List.mem_singleton.mp hc]
      exact Engine.isRead_columnNameCall _ _
  · cases hc

/-- Showing a variable only reads, and succeeds exactly if its model is known. -/
theorem on_display (hw : w.Compliant) (v : Variable) :
    ∃ r, v.display.on w = (r, w.reading (v.displayCalls w)) ∧ (r.isOk = true ↔ v.model < w.models.size) := by
  unfold display displayCalls Model.isValid
  cases hm : w.model? v.model with
  | none =>
    have hunknown := Action.on_model v.model w
    rw [hm] at hunknown
    refine ⟨_, (Action.on_bind_of_error (Action.on_bind_of_error hunknown _) _).trans (by rw [World.reading_nil]), ?_⟩
    exact iff_of_false Bool.false_ne_true (Nat.not_lt.mpr (Array.getElem?_eq_none_iff.mp hm))
  | some model =>
    have hknown : v.model < w.models.size := (Array.getElem?_eq_some_iff.mp hm).1
    have hvalid : (do let model ← Action.model v.model; return !model.freed : Action Bool).on w =
        (.ok !model.freed, w) := by
      rw [Action.on_bind_of_ok (Action.on_model_of_some hm)]
      rfl
    rw [Action.on_bind_of_ok hvalid]
    dsimp only
    cases hf : model.freed with
    | true => exact ⟨_, by rw [if_pos rfl, World.reading_nil]; rfl, iff_of_true rfl hknown⟩
    | false =>
      -- the name is read from the engine, whether it has the column or not
      obtain ⟨name, hname⟩ := Engine.on_columnName_eq hw model.engine v.column
      have hread : v.name.on w = (.ok name, w.reading [model.engine.columnNameCall v.column]) := by
        unfold Variable.name
        rw [Action.on_bind_of_ok (Action.on_openModel_of_open hm hf), hname]
      simp only [Bool.not_false, if_true, Bool.false_eq_true, if_false]
      rw [Action.on_bind_of_ok hread]
      exact ⟨_, rfl, iff_of_true rfl hknown⟩

/-- A variable of a model that exists can be shown, whether or not the model is open. -/
theorem on_display_of_known (hw : w.Compliant) (hv : v.model < w.models.size) :
    ∃ text, v.display.on w = (.ok text, w.reading (v.displayCalls w)) := by
  obtain ⟨r, hdisplay, hr⟩ := on_display hw v
  cases r with
  | ok text => exact ⟨text, hdisplay⟩
  | error fault => exact absurd (hr.mpr hv) Bool.false_ne_true

end Variable

end LinearProgram
