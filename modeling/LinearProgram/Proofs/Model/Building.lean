import LinearProgram.Proofs.Appending
import LinearProgram.Proofs.Ownership
import LinearProgram.Proofs.Reading
import LinearProgram.Proofs.VariableName

/-!
# What building a model does

Each operation that builds a model either is refused, and then nothing but reads has happened, or it is an
edit: calls about the problem of the model, and a change of the model itself. This module says for each
operation which calls and which change these are.

All of it is about an open model that owns its problem, on libraries that refuse nothing.
-/

namespace LinearProgram

namespace World

/-! ## §1 Changing a model -/

/-- Two changes to one model are one change. -/
theorem modifyModel_modifyModel (w : World) (m : ModelId) (f g : Model → Model) :
    (w.modifyModel m f).modifyModel m g = w.modifyModel m (g ∘ f) := by
  unfold modifyModel
  congr 1
  apply Array.ext_getElem?
  intro i
  simp only [Array.getElem?_modify]
  split <;> simp

theorem modifyModel_id (w : World) (m : ModelId) : w.modifyModel m id = w := by
  unfold modifyModel
  congr 1
  apply Array.ext_getElem?
  intro i
  rw [Array.getElem?_modify]
  split <;> simp

/-- Only the change of the model that is there matters. -/
theorem modifyModel_congr {w : World} {m : ModelId} {model : Model} (hm : w.model? m = some model)
    {f g : Model → Model} (hfg : f model = g model) : w.modifyModel m f = w.modifyModel m g := by
  unfold modifyModel
  congr 1
  apply Array.ext_getElem?
  intro i
  rw [Array.getElem?_modify, Array.getElem?_modify]
  -- only model `m` is changed, and there both change it alike
  by_cases hi : m = i
  · subst hi
    rw [if_pos rfl, if_pos rfl]
    rw [show w.models[m]? = some model from hm]
    exact congrArg some hfg
  · rw [if_neg hi, if_neg hi]

theorem modifyModel_after (w : World) (m : ModelId) (f : Model → Model) (c : Native.Call) :
    (w.modifyModel m f).after c = (w.after c).modifyModel m f := rfl

/-- Calls and changes to models do not meet. -/
theorem modifyModel_afterAll (w : World) (m : ModelId) (f : Model → Model)
    (cs : List Native.Call) : (w.modifyModel m f).afterAll cs = (w.afterAll cs).modifyModel m f := by
  induction cs generalizing w with
  | nil => rfl
  | cons c cs ih => rw [afterAll_cons, modifyModel_after, ih, ← afterAll_cons]

theorem Compliant.modifyModel {w : World} (h : w.Compliant) (m : ModelId) (f : Model → Model) :
    (w.modifyModel m f).Compliant := h

end World

namespace Model

variable {w : World} {m : ModelId} {model : Model} {n : Nat} {q : Native.Problem}

/-! ## §2 New columns -/

/-- The variables of a model from position `index` on. -/
def newVariables (m : ModelId) (index : Int) (count : Nat) : List Variable :=
  (List.range count).map fun (i : Nat) => ⟨m, index + i⟩

theorem newVariables_succ (m : ModelId) (index : Int) (count : Nat) :
    newVariables m index (count + 1) = ⟨m, index⟩ :: newVariables m (index + 1) count := by
  unfold newVariables
  rw [List.range_succ_eq_map, List.map_cons, List.map_map, List.cons.injEq]
  refine ⟨by simp, List.map_congr_left fun i _ => ?_⟩
  simp only [Function.comp_apply, Variable.mk.injEq, true_and]
  omega

/-- Variables are made one after the other. -/
theorem newVariables_add (m : ModelId) (index : Int) (count count' : Nat) :
    newVariables m index (count + count') = newVariables m index count ++ newVariables m (index + count) count' := by
  unfold newVariables
  rw [List.range_add, List.map_append, List.map_map]
  refine congrArg _ (List.map_congr_left fun i _ => ?_)
  simp only [Function.comp_apply, Variable.mk.injEq, true_and]
  omega

@[simp] theorem newVariables_zero (m : ModelId) (index : Int) : newVariables m index 0 = [] := rfl

@[simp] theorem newVariables_one (m : ModelId) (index : Int) : newVariables m index 1 = [⟨m, index⟩] := by
  simp [newVariables]

def withColumns (m : ModelId) (index : Int) (kind : VariableKind) (count : Nat) (model : Model) :
    Model :=
  { model with
    kinds := model.kinds ++ List.replicate count kind
    vars := model.vars ++ newVariables m index count }

/-- The model with further names, further columns of one kind, and a new revision. -/
def grown (m : ModelId) (index : Nat) (names : List String) (kind : VariableKind) (model : Model) :
    Model :=
  let model := withColumns m index kind names.length { model with names := model.names ++ names }
  { model with revision := model.revision + 1 }

/-- The variables of a model that has grown are those that it had, and new ones of its own. -/
theorem mem_vars_grown {m : ModelId} {index : Nat} {names : List String} {kind : VariableKind} {model : Model}
    {v : Variable} (h : v ∈ (grown m index names kind model).vars) :
    v ∈ model.vars ∨ v.model = m ∧ 0 ≤ v.index := by
  rcases List.mem_append.mp h with h | h
  · exact .inl h
  · obtain ⟨i, -, rfl⟩ := List.mem_map.mp h
    exact .inr ⟨rfl, Int.add_nonneg (Int.natCast_nonneg _) (Int.natCast_nonneg _)⟩

/-- A single column adds its kind and its variable. -/
private theorem withColumns_one (m : ModelId) (index : Int) (kind : VariableKind) :
    withColumns m index kind 1 =
      fun model => { model with kinds := model.kinds ++ [kind], vars := model.vars ++ [⟨m, index⟩] } := by
  funext model
  simp [withColumns]

/-- A column is set up with these calls, and its variable is noted. -/
theorem on_setUpColumn (h : w.Lenient) {e : Engine} {name : String}
    (hname : e.kind = .glpk → Glpk.checkName name = .ok ()) (m : ModelId) (j : Int)
    (d : VariableDraft) :
    (setUpColumn m e j name d).on w =
      (.ok ⟨m, j - 1⟩, (w.afterAll (e.setUpCalls j name d)).modifyModel m (withColumns m (j - 1) d.kind 1)) := by
  unfold setUpColumn
  rw [Action.on_bind_of_ok (Engine.on_setColumnName h hname j),
    Action.on_bind_of_ok (Engine.on_setColumnKind (h.after _) j d.kind),
    Action.on_bind_of_ok (Engine.on_setColumnBounds ((h.after _).after _) j _),
    Action.on_bind_of_ok (Engine.on_setObjective (((h.after _).after _).after _) j d.coefficient)]
  rw [Action.on_bind, Action.on_updateModel, withColumns_one]
  rfl

/-- Columns are set up one after the other, which nothing stops. -/
theorem on_setUpColumns (h : w.Lenient) {e : Engine} {names : List String}
    (hnames : ∀ name ∈ names, e.kind = .glpk → Glpk.checkName name = .ok ()) (m : ModelId) (j : Int)
    (d : VariableDraft) :
    (setUpColumns m e d j names).on w =
      (.ok (newVariables m (j - 1) names.length),
        (w.afterAll (e.setUpAllCalls d j names)).modifyModel m
          (withColumns m (j - 1) d.kind names.length)) := by
  induction names generalizing w j with
  | nil =>
    have hid : withColumns m (j - 1) d.kind 0 = id := by
      funext model
      simp [withColumns]
    simp [setUpColumns, Engine.setUpAllCalls, hid, World.modifyModel_id]
  | cons name rest ih =>
    have hfirst := on_setUpColumn h (hnames name (List.mem_cons_self ..)) m j d
    have hrest := ih (w := (w.afterAll (e.setUpCalls j name d)).modifyModel m
      (withColumns m (j - 1) d.kind 1)) (h.afterAll _) (fun x hx => hnames x (List.mem_cons_of_mem _ hx)) (j + 1)
    -- entering one column and then the rest is entering them all
    have hcomp : withColumns m (j + 1 - 1) d.kind rest.length ∘ withColumns m (j - 1) d.kind 1 =
        withColumns m (j - 1) d.kind (rest.length + 1) := by
      funext model
      have hj : j + 1 - 1 = j - 1 + 1 := by omega
      simp [withColumns, newVariables_succ, hj, List.replicate_succ]
    unfold setUpColumns
    rw [Action.on_bind_of_ok hfirst, Action.on_bind_of_ok hrest, World.modifyModel_afterAll,
      World.modifyModel_modifyModel, hcomp]
    have hj : j + 1 - 1 = j - 1 + 1 := by omega
    simp [Engine.setUpAllCalls, newVariables_succ, hj]

/-- Choosing names changes nothing. Names that were chosen are as many as asked for, the library can store
them, and each was picked for its position. -/
theorem on_pickNames (e : Engine) (taken : List String) (given : Nat → String) (count index : Nat) :
    ∃ r : Except Fault (List String), (∀ w, (pickNames e taken given count index).on w = (r, w)) ∧
      ∀ names, r = .ok names → names.length = count ∧
        (∀ name ∈ names, e.kind = .glpk → Glpk.checkName name = .ok ()) ∧
          VariableName.Chosen given taken index names := by
  induction count generalizing taken index with
  | zero => exact ⟨.ok [], fun w => rfl, by rintro names ⟨⟩; exact ⟨rfl, by simp, .done⟩⟩
  | succ count ih =>
    cases hpick : VariableName.pick taken (given index) index with
    | error fault =>
      refine ⟨.error fault, fun w => ?_, by rintro names ⟨⟩⟩
      unfold pickNames
      rw [hpick]
      rfl
    | ok name =>
      -- whether the engine takes a name does not depend on the state
      have hcheck : ∃ r, (∀ w, (e.checkName name).on w = (r, w)) ∧
          (r = .ok () → e.kind = .glpk → Glpk.checkName name = .ok ()) := by
        unfold Engine.checkName
        cases e.kind with
        | glpk => exact ⟨_, fun w => Action.on_lift _ w, fun hr _ => hr⟩
        | lpsolve => exact ⟨.ok (), fun w => rfl, fun _ hk => nomatch hk⟩
      obtain ⟨rc, hcheck, hname⟩ := hcheck
      obtain ⟨rest, hrest, hprops⟩ := ih (taken ++ [name]) (index + 1)
      cases rc with
      | error fault =>
        refine ⟨.error fault, fun w => ?_, by rintro names ⟨⟩⟩
        unfold pickNames
        rw [hpick, Action.on_bind_of_ok (Action.on_lift _ w), Action.on_bind_of_error (hcheck w)]
      | ok =>
        refine ⟨rest.map (name :: ·), fun w => ?_, ?_⟩
        · unfold pickNames
          rw [hpick, Action.on_bind_of_ok (Action.on_lift _ w), Action.on_bind_of_ok (hcheck w),
            Action.on_bind, hrest]
          cases rest <;> rfl
        · intro names hnames
          cases rest with
          | error fault => cases hnames
          | ok others =>
            cases hnames
            obtain ⟨hlen, hothers, hchosen⟩ := hprops others rfl
            refine ⟨by simp [hlen], fun x hx => ?_, .next hpick hchosen⟩
            rcases List.mem_cons.mp hx with rfl | hx
            · exact hname rfl
            · exact hothers x hx

/-- The calls that add columns for names. -/
def newVariablesCalls (e : Engine) (d : VariableDraft) (columns : Nat) (names : List String) :
    List Native.Call :=
  e.columnCountCall ::
    (e.newColumnsCalls names.length ++ e.setUpAllCalls d (Int.ofNat (columns + 1)) names)

/-- Adding variables concerns one problem. -/
theorem isAbout_newVariablesCalls (e : Engine) (d : VariableDraft) (columns : Nat)
    (names : List String) : ∀ c ∈ newVariablesCalls e d columns names, c.IsAbout e.number := by
  intro c hc
  rcases List.mem_cons.mp hc with rfl | hc
  · exact Engine.isAbout_columnCountCall e
  rcases List.mem_append.mp hc with hc | hc
  · exact Engine.isAbout_newColumnsCalls e _ c hc
  · exact Engine.isAbout_setUpAllCalls e d _ names c hc

/-- What follows once the columns for new variables are there. -/
def enterColumns (m : ModelId) (e : Engine) (d : VariableDraft) (first : Int) (names : List String) :
    Action (List Variable) := do
  Action.updateModel m fun model => { model with names := model.names ++ names }
  let vars ← setUpColumns m e d first names
  touch m
  pure vars

/-- The columns of new variables are set up, and the model grows by them. -/
theorem on_enterColumns (h : w.Lenient) {e : Engine} {names : List String}
    (hnames : ∀ name ∈ names, e.kind = .glpk → Glpk.checkName name = .ok ()) (m : ModelId)
    (d : VariableDraft) (index : Nat) :
    (enterColumns m e d (index + 1) names).on w =
      (.ok (newVariables m index names.length),
        (w.afterAll (e.setUpAllCalls d (index + 1) names)).modifyModel m (grown m index names d.kind)) := by
  have hnamed : (w.modifyModel m fun model => { model with names := model.names ++ names }).Lenient :=
    h.of_allowance rfl
  have hset := on_setUpColumns hnamed hnames m (index + 1 : Int) d
  -- the first new column has the number behind the old ones, counted from one
  have hindex : (index + 1 : Int) - 1 = index := by omega
  unfold enterColumns touch
  rw [Action.on_bind_of_ok (Action.on_updateModel _ _ _), Action.on_bind_of_ok hset,
    Action.on_bind_of_ok (Action.on_updateModel _ _ _), World.modifyModel_afterAll,
    World.modifyModel_modifyModel, World.modifyModel_modifyModel, hindex]
  rfl

/-- Adding columns is an edit once the names have been chosen. -/
theorem on_addColumns_of_picked (h : w.Compliant) (hm : w.model? m = some model) (hf : model.freed = false)
    (ho : model.engine.Owns w.native n q) {count : Nat} {given : Nat → String} {names : List String}
    (hpick : ∀ w, (pickNames model.engine model.names given count q.columnCount).on w = (.ok names, w))
    (d : VariableDraft) :
    names.length = count ∧ VariableName.Chosen given model.names q.columnCount names ∧
      (addColumns m count given d).on w =
        (.ok (newVariables m q.columnCount count),
          (w.afterAll (newVariablesCalls model.engine d q.columnCount names)).modifyModel m
            (grown m q.columnCount names d.kind)) := by
  -- the names are the same ones in every state, so what is known of them in one holds here
  have hread := Engine.on_columnCount (h.grants _) ho
  have ho₁ : model.engine.Owns (w.after model.engine.columnCountCall).native n q := by
    rw [Engine.native_after_columnCountCall]
    exact ho
  obtain ⟨r, hpicked, hprops⟩ := on_pickNames model.engine model.names given count q.columnCount
  have hr : r = .ok names := congrArg Prod.fst ((hpicked w).symm.trans (hpick w))
  obtain ⟨hlen, hnames, hchosen⟩ := hprops names hr
  subst hlen
  refine ⟨rfl, hchosen, ?_⟩
  have hadd := Engine.on_addColumns (h.after model.engine.columnCountCall) ho₁ names.length
  have hlenient := ((h.after model.engine.columnCountCall).afterAll
    (model.engine.newColumnsCalls names.length)).lenient
  unfold addColumns
  rw [Action.on_bind_of_ok (Action.on_openModel_of_open hm hf), Action.on_bind_of_ok hread,
    Action.on_bind_of_ok (hpick _), Action.on_bind_of_ok hadd]
  refine (on_enterColumns hlenient hnames m d q.columnCount).trans ?_
  simp only [newVariablesCalls, World.afterAll_cons, World.afterAll_append]
  rfl

/-- Adding columns is refused with the fault of a name, after a look at the number of columns. -/
theorem on_addColumns_of_refused (h : w.Compliant) (hm : w.model? m = some model) (hf : model.freed = false)
    (ho : model.engine.Owns w.native n q) {count : Nat} {given : Nat → String} {fault : Fault}
    (hpick : ∀ w, (pickNames model.engine model.names given count q.columnCount).on w = (.error fault, w))
    (d : VariableDraft) :
    (addColumns m count given d).on w = (.error fault, w.after model.engine.columnCountCall) := by
  unfold addColumns
  rw [Action.on_bind_of_ok (Action.on_openModel_of_open hm hf),
    Action.on_bind_of_ok (Engine.on_columnCount (h.grants _) ho)]
  exact Action.on_bind_of_error (hpick _) _

/-- Adding columns is refused, or it is an edit. -/
theorem on_addColumns (h : w.Compliant) (hm : w.model? m = some model) (hf : model.freed = false)
    (ho : model.engine.Owns w.native n q) (count : Nat) (given : Nat → String) (d : VariableDraft) :
    (∃ fault, (addColumns m count given d).on w =
        (.error fault, w.after model.engine.columnCountCall)) ∨
      ∃ names, names.length = count ∧ VariableName.Chosen given model.names q.columnCount names ∧
        (addColumns m count given d).on w =
          (.ok (newVariables m q.columnCount count),
            (w.afterAll (newVariablesCalls model.engine d q.columnCount names)).modifyModel m
              (grown m q.columnCount names d.kind)) := by
  obtain ⟨r, hpick, -⟩ := on_pickNames model.engine model.names given count q.columnCount
  -- names are picked before the engine gets any column
  cases r with
  | error fault => exact Or.inl ⟨fault, on_addColumns_of_refused h hm hf ho hpick d⟩
  | ok names => exact Or.inr ⟨names, on_addColumns_of_picked h hm hf ho hpick d⟩

/-! ## §3 The objective -/

/-- Checking variables succeeds without a trace, and then all are variables of the model. -/
theorem on_checkVariables_ok {count : Nat} {arguments : List VariableArgument} {vars : List Variable}
    {w' : World} (h : (checkVariables m count arguments).on w = (.ok vars, w')) :
    w' = w ∧ arguments = vars.map .variable ∧
      ∀ v ∈ vars, v.model = m ∧ 0 ≤ v.index ∧ v.index < count := by
  induction arguments generalizing vars w' with
  | nil =>
    cases h
    simp
  | cons argument rest ih =>
    match argument with
    | .plain d => cases h
    | .variable v =>
      unfold checkVariables at h
      by_cases hv : v.model = m ∧ 0 ≤ v.index ∧ v.index < count
      · rw [if_pos hv] at h
        obtain ⟨others, w₁, hothers, hlast⟩ := Action.on_bind_eq_ok.mp h
        obtain ⟨hw, hsame, hall⟩ := ih hothers
        cases hlast
        refine ⟨hw, by rw [hsame]; rfl, fun x hx => ?_⟩
        rcases List.mem_cons.mp hx with rfl | hx
        · exact hv
        · exact hall x hx
      · rw [if_neg hv] at h
        -- a foreign argument is shown, and then the check fails
        obtain ⟨text, w₁, -, hlast⟩ := Action.on_bind_eq_ok.mp h
        cases hlast

/-- Arguments are checked without a change. -/
theorem reads_checkVariables {P : World → Prop} [ReadClosed P] (m : ModelId) (count : Nat)
    (arguments : List VariableArgument) : Action.Preserves P (checkVariables m count arguments) := by
  induction arguments with
  | nil => exact Action.Preserves.pure _
  | cons argument rest ih =>
    match argument with
    | .plain d => exact Action.Preserves.fail _
    | .variable v =>
      unfold checkVariables
      split
      · exact Action.Preserves.bind ih fun _ => Action.Preserves.pure _
      · -- a foreign variable is formatted for the message, which reads its name
        exact Action.Preserves.bind v.reads_display fun _ => Action.Preserves.fail _

def objectiveCalls (e : Engine) (terms : List (Variable × Float)) : List Native.Call :=
  terms.map fun t => e.objectiveCall t.1.column t.2

theorem isAbout_objectiveCalls (e : Engine) (terms : List (Variable × Float)) :
    ∀ c ∈ objectiveCalls e terms, c.IsAbout e.number := by
  intro c hc
  obtain ⟨t, -, rfl⟩ := List.mem_map.mp hc
  exact Engine.isAbout_objectiveCall e _ _

/-- The coefficients are set one after the other. -/
theorem on_setObjectives (h : w.Compliant) (e : Engine) (terms : List (Variable × Float)) :
    (setObjectives e terms).on w = (.ok (), w.afterAll (objectiveCalls e terms)) := by
  induction terms generalizing w with
  | nil => rfl
  | cons t rest ih =>
    unfold setObjectives
    rw [Action.on_bind_of_ok (Engine.on_setObjective h.lenient t.1.column t.2), ih (h.after _)]
    rfl

/-- Setting the objective is refused, or it sets the coefficients of variables of the model. -/
theorem on_setObjective (h : w.Compliant) (hm : w.model? m = some model) (hf : model.freed = false)
    (coefficients : List Number) (arguments : List VariableArgument) :
    (∃ fault w', (setObjective m coefficients arguments).on w = (.error fault, w') ∧ Idling w w') ∨
      ∃ cs vars w₁, coefficients.mapM Number.toDouble = .ok cs ∧
        (checkVariables m model.kinds.length arguments).on w = (.ok vars, w₁) ∧
        (setObjective m coefficients arguments).on w =
          (.ok (), w.afterAll (objectiveCalls model.engine (vars.zip cs))) := by
  unfold setObjective
  cases checkLengths arguments coefficients with
  | error fault => exact Or.inl ⟨fault, w, rfl, Idling.refl h⟩
  | ok =>
    rw [Action.on_bind_of_ok (Action.on_lift _ w)]
    cases hcs : coefficients.mapM Number.toDouble with
    | error fault => exact Or.inl ⟨fault, w, rfl, Idling.refl h⟩
    | ok cs =>
      rw [Action.on_bind_of_ok (Action.on_lift _ w),
        Action.on_bind_of_ok (Action.on_openModel_of_open hm hf)]
      -- the check may read names and change nothing else
      have hidle := reads_checkVariables m model.kinds.length arguments w (Idling.refl h)
      rcases hc : (checkVariables m model.kinds.length arguments).on w with ⟨fault | vars, w₁⟩
      · rw [hc] at hidle
        exact Or.inl ⟨fault, w₁, Action.on_bind_of_error hc _, hidle⟩
      · obtain ⟨rfl, -, -⟩ := on_checkVariables_ok hc
        refine Or.inr ⟨cs, vars, w₁, rfl, rfl, ?_⟩
        rw [Action.on_bind_of_ok hc, on_setObjectives h]

/-- Setting the direction is refused, or it tells the engine. -/
theorem on_setDirection (h : w.Compliant) (hm : w.model? m = some model) (hf : model.freed = false)
    (direction : Datum) :
    (setDirection m direction).on w =
      match (Choice.read direction : Except Fault Direction) with
      | .error fault => (.error fault, w)
      | .ok d => (.ok (), w.after (model.engine.directionCall d)) := by
  unfold setDirection
  rw [Action.on_bind, Action.on_lift]
  cases (Choice.read direction : Except Fault Direction) with
  | error fault => rfl
  | ok d =>
    dsimp only
    rw [Action.on_bind_of_ok (Action.on_openModel_of_open hm hf), Engine.on_setDirection h]

/-! ## §4 Constraints -/

/-- The entries with further ones in row `i`. -/
def addTerms (terms : List (Int × Float)) (es : Entries) (i : Int) : Entries :=
  { rows := es.rows ++ List.replicate terms.length i
    columns := es.columns ++ terms.map (·.1)
    values := es.values ++ terms.map (·.2) }

/-- The model with further entries in rows. -/
def withTerms (terms : List (Int × Float)) (rows : List Int) (model : Model) : Model :=
  { model with entries := rows.foldl (addTerms terms) model.entries }

/-- The model with a further constraint, in these rows, and a new revision. -/
def constrained (terms : List (Int × Float)) (rows : List Int) (model : Model) : Model :=
  { model with
    entries := rows.foldl (addTerms terms) model.entries
    constraintCount := if rows.isEmpty then model.constraintCount else model.constraintCount + 1
    revision := model.revision + 1 }

/-- Integers are converted as they are. -/
private theorem convert_int (columns : List Int) :
    Entries.convert Number.toInteger (columns.map Number.int) = (columns, none) := by
  induction columns with
  | nil => rfl
  | cons c rest ih =>
    rw [List.map_cons, Entries.convert, ih]
    rfl

private theorem convert_float (values : List Float) :
    Entries.convert Number.toDouble (values.map Number.float) = (values, none) := by
  induction values with
  | nil => rfl
  | cons x rest ih =>
    rw [List.map_cons, Entries.convert, ih]
    rfl

/-- Numbers that are integers and doubles already are appended as they are. -/
theorem append_eq (es : Entries) (i : Int) (terms : List (Int × Float)) :
    es.append i (terms.map fun t => .int t.1) (terms.map fun t => .float t.2) =
      (addTerms terms es i, none) := by
  -- numbers that are ints and doubles already convert to themselves
  have hc : Entries.convert Number.toInteger (terms.map fun t => Number.int t.1) =
      (terms.map (·.1), none) := by
    rw [← convert_int, List.map_map]
    rfl
  have hv : Entries.convert Number.toDouble (terms.map fun t => Number.float t.2) =
      (terms.map (·.2), none) := by
    rw [← convert_float, List.map_map]
    rfl
  unfold Entries.append
  rw [if_neg (by simp), hc, hv]
  simp [addTerms]

/-- Terms that are numbers already are appended to all rows of a constraint. -/
theorem on_appendRows {terms : List (Int × Float)} (rows : List Int) (hm : w.model? m = some model) :
    (appendRows m (terms.map fun t => .int t.1) (terms.map fun t => .float t.2) rows).on w =
      (.ok (), w.modifyModel m (withTerms terms rows)) := by
  -- row by row; the model read back is the one just changed
  induction rows generalizing w model with
  | nil =>
    have hid : withTerms terms [] = id := rfl
    rw [hid, World.modifyModel_id]
    rfl
  | cons i rest ih =>
    have happend := append_eq model.entries i terms
    have hm' : (w.modifyModel m fun model' =>
        { model' with entries := addTerms terms model.entries i }).model? m =
          some { model with entries := addTerms terms model.entries i } := by
      unfold World.model? at *
      simp [World.modifyModel, Array.getElem?_modify, hm]
    unfold appendRows
    rw [Action.on_bind_of_ok (Action.on_model_of_some hm), happend]
    rw [Action.on_bind_of_ok (Action.on_updateModel _ _ _)]
    rw [ih hm', World.modifyModel_modifyModel]
    exact congrArg (Prod.mk _) (World.modifyModel_congr hm rfl)

/-- Lists that pass the check have one length. -/
private theorem length_of_checkLengths {arguments : List VariableArgument} {coefficients : List Number}
    (h : checkLengths arguments coefficients = .ok ()) : arguments.length = coefficients.length := by
  unfold checkLengths at h
  split at h
  · assumption
  · cases h

/-- What follows once the rows of a constraint are there. -/
def enterRows (m : ModelId) (model : Model) (terms : List (Int × Float)) (rows : List Int) :
    Action Unit := do
  appendRows m (terms.map fun t => .int t.1) (terms.map fun t => .float t.2) rows
  if rows.isEmpty then
    Action.debug source ("dropped unconstrained row on " ++ model.engine.kind.name)
  else
    Action.updateModel m fun model => { model with constraintCount := model.constraintCount + 1 }
  touch m

/-- The entries of a constraint are entered, with a record perhaps. -/
theorem on_enterRows (hm : w.model? m = some model) (terms : List (Int × Float)) (rows : List Int) :
    ∃ l, (enterRows m model terms rows).on w =
      (.ok (), { w.modifyModel m (constrained terms rows) with writings := l }) := by
  unfold enterRows
  rw [Action.on_bind_of_ok (on_appendRows rows hm)]
  unfold touch
  -- a constraint without rows is not counted, but the revision is renewed
  by_cases hrows : rows.isEmpty = true
  · rw [if_pos hrows, Action.on_bind_of_ok (Action.on_debug _ _ _), Action.on_updateModel]
    have hf : constrained terms rows =
        (fun model => { model with revision := model.revision + 1 }) ∘ withTerms terms rows := by
      funext model
      simp [constrained, withTerms, hrows]
    rw [hf, ← World.modifyModel_modifyModel]
    exact ⟨_, rfl⟩
  · rw [if_neg hrows, Action.on_bind_of_ok (Action.on_updateModel _ _ _), Action.on_updateModel]
    rw [World.modifyModel_modifyModel, World.modifyModel_modifyModel]
    have hf : constrained terms rows =
        ((fun model => { model with revision := model.revision + 1 }) ∘
          fun model => { model with constraintCount := model.constraintCount + 1 }) ∘
            withTerms terms rows := by
      funext model
      simp [constrained, withTerms, hrows]
    rw [hf]
    exact ⟨_, rfl⟩

/-- Once its arguments have been checked, a constraint adds rows and enters their coefficients. -/
theorem on_addConstraint_of_checked (hm : w.model? m = some model) (hf : model.freed = false)
    {lower upper : Number} {arguments : List VariableArgument} {coefficients : List Number}
    (hlen : checkLengths arguments coefficients = .ok ()) {b : Bound}
    (hb : Bound.encodeNumbers lower upper = .ok b) {cs : List Float}
    (hcs : coefficients.mapM Number.toDouble = .ok cs) {vars : List Variable}
    (hc : (checkVariables m model.kinds.length arguments).on w = (.ok vars, w)) :
    vars.length = cs.length ∧
      (addConstraint m lower upper arguments coefficients).on w = (do
        let rows ← model.engine.addRow b
        enterRows m model ((vars.map Variable.column).zip cs) rows : Action Unit).on w := by
  obtain ⟨-, hvars, -⟩ := on_checkVariables_ok hc
  have hsame : vars.length = cs.length := by
    rw [Entries.length_of_mapM hcs, ← length_of_checkLengths hlen, hvars, List.length_map]
  refine ⟨hsame, ?_⟩
  -- rows are appended with numbers of any kind, and are handed columns and values here
  have hcolumns : ((vars.map Variable.column).zip cs).map (fun t => Number.int t.1) =
      vars.map fun v => Number.int v.column := by
    calc ((vars.map Variable.column).zip cs).map (fun t => Number.int t.1)
        = (((vars.map Variable.column).zip cs).map Prod.fst).map Number.int := by
          rw [List.map_map]
          rfl
      _ = vars.map fun v => Number.int v.column := by
          rw [List.map_fst_zip (by simp [hsame]), List.map_map]
          rfl
  have hvalues : ((vars.map Variable.column).zip cs).map (fun t => Number.float t.2) =
      cs.map Number.float := by
    calc ((vars.map Variable.column).zip cs).map (fun t => Number.float t.2)
        = (((vars.map Variable.column).zip cs).map Prod.snd).map Number.float := by
          rw [List.map_map]
          rfl
      _ = cs.map Number.float := by rw [List.map_snd_zip (by simp [hsame])]
  unfold addConstraint
  rw [hlen, hb, hcs, Action.on_bind_of_ok (Action.on_lift _ w), Action.on_bind_of_ok (Action.on_lift _ w),
    Action.on_bind_of_ok (Action.on_lift _ w), Action.on_bind_of_ok (Action.on_openModel_of_open hm hf),
    Action.on_bind_of_ok hc]
  unfold enterRows
  rw [hcolumns, hvalues]

/-- Adding a constraint is refused by a check, or it adds rows and enters their coefficients. -/
theorem addConstraint_cases (hm : w.model? m = some model) (hf : model.freed = false)
    (lower upper : Number) (arguments : List VariableArgument) (coefficients : List Number) :
    (∃ fault w', (addConstraint m lower upper arguments coefficients).on w = (.error fault, w') ∧
        (w' = w ∨ w' = ((checkVariables m model.kinds.length arguments).on w).2)) ∨
      ∃ b cs vars, Bound.encodeNumbers lower upper = .ok b ∧
        coefficients.mapM Number.toDouble = .ok cs ∧
        (checkVariables m model.kinds.length arguments).on w = (.ok vars, w) ∧
        vars.length = cs.length ∧
        (addConstraint m lower upper arguments coefficients).on w = (do
          let rows ← model.engine.addRow b
          enterRows m model ((vars.map Variable.column).zip cs) rows : Action Unit).on w := by
  -- the checks are made one after the other: lengths, bounds, coefficients, variables
  cases hlen : checkLengths arguments coefficients with
  | error fault =>
    refine Or.inl ⟨fault, w, ?_, Or.inl rfl⟩
    unfold addConstraint
    rw [hlen]
    rfl
  | ok =>
  cases hb : Bound.encodeNumbers lower upper with
  | error fault =>
    refine Or.inl ⟨fault, w, ?_, Or.inl rfl⟩
    unfold addConstraint
    rw [hlen, hb]
    rfl
  | ok b =>
  cases hcs : coefficients.mapM Number.toDouble with
  | error fault =>
    refine Or.inl ⟨fault, w, ?_, Or.inl rfl⟩
    unfold addConstraint
    rw [hlen, hb, hcs]
    rfl
  | ok cs =>
  rcases hc : (checkVariables m model.kinds.length arguments).on w with ⟨fault | vars, w₁⟩
  · refine Or.inl ⟨fault, w₁, ?_, Or.inr rfl⟩
    unfold addConstraint
    rw [hlen, hb, hcs, Action.on_bind_of_ok (Action.on_lift _ w), Action.on_bind_of_ok (Action.on_lift _ w),
      Action.on_bind_of_ok (Action.on_lift _ w), Action.on_bind_of_ok (Action.on_openModel_of_open hm hf)]
    exact Action.on_bind_of_error hc _
  · obtain ⟨rfl, -, -⟩ := on_checkVariables_ok hc
    obtain ⟨hsame, hon⟩ := on_addConstraint_of_checked hm hf hlen hb hcs hc
    exact Or.inr ⟨b, cs, vars, rfl, rfl, rfl, hsame, hon⟩

/-- Adding a constraint is refused, and then nothing but reads has happened, or it is an edit that adds
rows and their entries. -/
theorem on_addConstraint (h : w.Compliant) (hm : w.model? m = some model) (hf : model.freed = false)
    (ho : model.engine.Owns w.native n q) (lower upper : Number) (arguments : List VariableArgument)
    (coefficients : List Number) :
    (∃ fault w', (addConstraint m lower upper arguments coefficients).on w = (.error fault, w') ∧
        Idling w w') ∨
      ∃ b cs vars w', Bound.encodeNumbers lower upper = .ok b ∧
        coefficients.mapM Number.toDouble = .ok cs ∧
        (checkVariables m model.kinds.length arguments).on w = (.ok vars, w) ∧
        vars.length = cs.length ∧
        (addConstraint m lower upper arguments coefficients).on w = (.ok (), w') ∧
        let terms := (vars.map Variable.column).zip cs
        let bounds := Engine.rowBounds model.engine.kind b
        Idling ((w.afterAll (model.engine.rowsCalls q.rowCount bounds)).modifyModel m
          (constrained terms (Engine.rowNumbers q.rowCount bounds.length))) w' := by
  rcases addConstraint_cases hm hf lower upper arguments coefficients with
    ⟨fault, w', hon, hw'⟩ | ⟨b, cs, vars, hb, hcs, hc, hsame, hon⟩
  · refine Or.inl ⟨fault, w', hon, ?_⟩
    rcases hw' with rfl | rfl
    · exact Idling.refl h
    · exact reads_checkVariables m model.kinds.length arguments w (Idling.refl h)
  · -- the rows are the engine's, the model is as it was until the terms are stored
    have hm₁ : (w.afterAll (model.engine.rowsCalls q.rowCount
        (Engine.rowBounds model.engine.kind b))).model? m = some model := by
      rw [World.afterAll_model?]
      exact hm
    obtain ⟨l, hlast⟩ := on_enterRows hm₁ ((vars.map Variable.column).zip cs)
      (Engine.rowNumbers q.rowCount (Engine.rowBounds model.engine.kind b).length)
    rw [Action.on_bind_of_ok (Engine.on_addRow h ho b), hlast] at hon
    exact Or.inr ⟨b, cs, vars, _, hb, hcs, hc, hsame, hon,
      Idling.of_eq (h.afterAll _) rfl rfl rfl rfl rfl rfl rfl⟩

end Model

end LinearProgram
