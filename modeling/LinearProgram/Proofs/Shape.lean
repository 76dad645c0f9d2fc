import LinearProgram.Proofs.Engine.Contents
import LinearProgram.Proofs.Performed

/-!
# Rows and columns

The columns of a problem are counted by the model that holds it: `Model.Aligned` says that the model has
one kind and one variable for each column, the variables in order. Every session keeps this.

The other half says which calls change the number of rows or columns. Only the four that add some do, so
that a change of an attribute, a load of the matrix and a run leave both numbers alone.
-/

namespace LinearProgram

/-! ## §1 Calls that add rows or columns -/

namespace Native

def Call.isShaping : Call → Bool
  | glpk (.addRows ..) | glpk (.addColumns ..) | lpsolve (.addColumn _) | lpsolve (.addRow ..) => true
  | _ => false

/-- Whether a call sets an attribute: the kind, the bounds or the objective coefficient of a column, or the
name or the direction of the problem. -/
def Call.isAttribute : Call → Bool
  | glpk (.setName ..) | glpk (.setDirection ..) | glpk (.setColumnKind ..) | glpk (.setColumnBounds ..)
  | glpk (.setObjective ..) => true
  | lpsolve (.setName ..) | lpsolve (.setMaximize ..) | lpsolve (.setInteger ..) | lpsolve (.setBinary ..)
  | lpsolve (.setUnbounded ..) | lpsolve (.setBounds ..) | lpsolve (.setObjective ..) => true
  | _ => false

theorem Call.isShaping_of_isAttribute {c : Call} (h : c.isAttribute = true) : c.isShaping = false := by
  rcases c with c | c <;> cases c <;> first | rfl | cases h

namespace Problem

@[simp] theorem columnCount_core (q : Problem) : q.core.columnCount = q.columnCount := by
  cases q <;> rfl

@[simp] theorem rowCount_core (q : Problem) : q.core.rowCount = q.rowCount := by cases q <;> rfl

/-- Rows and columns are added by shaping calls only. -/
theorem counts_apply {c : Call} (h : c.isShaping = false) (q : Problem) :
    (q.apply c).columnCount = q.columnCount ∧ (q.apply c).rowCount = q.rowCount := by
  rcases q with q | q | _ <;> rcases c with c | c <;> cases c <;>
    simp only [Call.isShaping, Bool.true_eq_false] at h <;>
    simp only [apply, Glpk.Problem.apply, LpSolve.Problem.apply, Glpk.Problem.modifyColumn,
      Glpk.Problem.modifyRow, LpSolve.Problem.modifyColumn, LpSolve.Problem.modifyRow] <;>
    (try split) <;> simp [columnCount, rowCount]

/-- Calls that add nothing keep both counts. -/
theorem counts_applyAll {cs : List Call} (h : ∀ c ∈ cs, c.isShaping = false) (q : Problem) :
    (q.applyAll cs).columnCount = q.columnCount ∧ (q.applyAll cs).rowCount = q.rowCount := by
  induction cs generalizing q with
  | nil => exact ⟨rfl, rfl⟩
  | cons c rest ih =>
    obtain ⟨hcolumns, hrows⟩ := counts_apply (h c (List.mem_cons_self ..)) q
    obtain ⟨hcolumns', hrows'⟩ := ih (fun d hd => h d (List.mem_cons_of_mem _ hd)) (q.apply c)
    exact ⟨hcolumns'.trans hcolumns, hrows'.trans hrows⟩

end Problem

end Native

namespace Engine

theorem isAttribute_kindCall (e : Engine) (j : Int) (kind : VariableKind) :
    (e.kindCall j kind).isAttribute = true := by
  unfold kindCall
  cases e.kind <;> cases kind <;> rfl

theorem isAttribute_boundsCall (e : Engine) (j : Int) (b : Bound) :
    (e.boundsCall j b).isAttribute = true := by
  unfold boundsCall
  cases e.kind <;> cases b.kind <;> rfl

theorem isAttribute_objectiveCall (e : Engine) (j : Int) (x : Float) :
    (e.objectiveCall j x).isAttribute = true := by
  unfold objectiveCall
  cases e.kind <;> rfl

theorem isAttribute_directionCall (e : Engine) (d : Direction) :
    (e.directionCall d).isAttribute = true := by
  unfold directionCall
  cases e.kind <;> rfl

/-- Changing the kind of a column concerns its attributes only. -/
theorem isAttribute_kindCalls (e : Engine) (j : Int) (kind : VariableKind) :
    ∀ c ∈ Variable.kindCalls e j kind, c.isAttribute = true := by
  intro c hc
  rcases List.mem_cons.mp hc with rfl | hc
  · exact isAttribute_kindCall e j kind
  · split at hc
    · rw [List.mem_singleton.mp hc]
      exact isAttribute_boundsCall e j _
    · cases hc

/-- Setting the objective concerns attributes only. -/
theorem isAttribute_objectiveCalls (e : Engine) (terms : List (Variable × Float)) :
    ∀ c ∈ Model.objectiveCalls e terms, c.isAttribute = true := by
  intro c hc
  obtain ⟨t, -, rfl⟩ := List.mem_map.mp hc
  exact isAttribute_objectiveCall e _ _

/-- Naming a problem and saying its sense concern attributes only. -/
theorem isAttribute_namingCalls (e : Engine) (name : String) (d : Direction) :
    ∀ c ∈ Model.namingCalls e name d, c.isAttribute = true := by
  intro c hc
  rcases List.mem_cons.mp hc with rfl | hc
  · cases e.kind <;> rfl
  · rw [List.mem_singleton.mp hc]
    exact isAttribute_directionCall e d

/-- What is said of new columns names them or sets an attribute. -/
theorem setUpAllCalls_cases (e : Engine) (d : Model.VariableDraft) (j : Int) (names : List String)
    {c : Native.Call} (hc : c ∈ e.setUpAllCalls d j names) :
    (∃ k name, c = e.nameCall k name) ∨ c.isAttribute = true := by
  induction names generalizing j with
  | nil => cases hc
  | cons name rest ih =>
    rcases List.mem_append.mp hc with hc | hc
    · simp only [setUpCalls, List.mem_cons, List.not_mem_nil, or_false] at hc
      -- name, kind, bounds and coefficient of the first column
      rcases hc with rfl | rfl | rfl | rfl
      · exact .inl ⟨j, name, rfl⟩
      · exact .inr (isAttribute_kindCall e j _)
      · exact .inr (isAttribute_boundsCall e j _)
      · exact .inr (isAttribute_objectiveCall e j _)
    · exact ih (j + 1) hc

theorem isShaping_loadCalls (e : Engine) (t : Triplets) :
    ∀ c ∈ e.loadCalls t, c.isShaping = false := by
  intro c hc
  rcases loadCalls_cases hc with rfl | ⟨i, j, x, rfl⟩ <;> rfl

end Engine

/-! ## §2 Aligned models -/

/-- Model `m` has one kind and one variable for each column of its problem, in order. -/
structure Model.Aligned (m : ModelId) (model : Model) (q : Native.Problem) : Prop where
  kinds : model.kinds.length = q.columnCount
  vars : model.vars = Model.newVariables m 0 q.columnCount

namespace Model.Aligned

variable {m : ModelId} {model : Model} {q : Native.Problem}

/-- A change of neither kinds, in number, nor variables, by calls that add no column. -/
theorem edit (h : Aligned m model q) {model' : Model} {cs : List Native.Call}
    (hkinds : model'.kinds.length = model.kinds.length) (hvars : model'.vars = model.vars)
    (hcs : (q.applyAll cs).columnCount = q.columnCount) : Aligned m model' (q.applyAll cs).core where
  kinds := by rw [hkinds, h.kinds, Native.Problem.columnCount_core, hcs]
  vars := by rw [hvars, h.vars, Native.Problem.columnCount_core, hcs]

/-- Making so many variables and then more is making all of them. -/
private theorem newVariables_add (m : ModelId) (a b : Nat) :
    newVariables m 0 (a + b) = newVariables m 0 a ++ newVariables m a b := by
  unfold newVariables
  rw [List.range_add, List.map_append, List.map_map]
  congr 1
  refine List.map_congr_left fun i _ => ?_
  simp only [Function.comp_apply, Variable.mk.injEq, true_and]
  omega

/-- A model that grows by some columns stays aligned with its problem. -/
theorem grow (h : Aligned m model q) (hq : q.kind? = some model.engine.kind) (d : VariableDraft)
    (names : List String) : Aligned m (grown m q.columnCount names d.kind model)
      (q.applyAll (newVariablesCalls model.engine d q.columnCount names)).core := by
  -- as many columns are added as names were chosen
  have hcolumns := Native.Problem.columnCount_extended hq d names
  rw [Native.Problem.applyAll_newVariablesCalls hq]
  refine ⟨?_, ?_⟩
  · rw [Native.Problem.columnCount_core, hcolumns]
    simp [grown, withColumns, h.kinds]
  · rw [Native.Problem.columnCount_core, hcolumns, newVariables_add, ← h.vars]
    rfl

end Model.Aligned

/-- The models agree but for kinds, of which they have as many. -/
structure Model.Retyped (model model' : Model) : Prop where
  freed : model'.freed = model.freed
  engine : model'.engine = model.engine
  kinds : model'.kinds.length = model.kinds.length
  vars : model'.vars = model.vars
  names : model'.names = model.names
  entries : model'.entries = model.entries
  constraintCount : model'.constraintCount = model.constraintCount
  revision : model'.revision = model.revision

theorem Model.Retyped.refl (model : Model) : model.Retyped model := ⟨rfl, rfl, rfl, rfl, rfl, rfl, rfl, rfl⟩

/-- A variable of another kind leaves the model as it is, but for the kinds. -/
theorem Variable.retyped_withKind (index : Int) (kind : VariableKind) (model : Model) :
    model.Retyped (Variable.withKind index kind model) := by
  unfold withKind
  cases place? model.kinds.length index with
  | none => exact .refl model
  | some i => exact ⟨rfl, rfl, List.length_set, rfl, rfl, rfl, rfl, rfl⟩

namespace World

variable {w w' : World}

def Aligned (w : World) : Prop :=
  ∀ ⦃m model n q⦄, w.Holds m model n q → model.Aligned m q

/-- Editing one model keeps all models aligned, if it stays so itself. -/
private theorem Aligned.edits (ha : w.Aligned) (hs : w.Sound) {m : ModelId} {model : Model} {n : Nat}
    {q : Native.Problem} {f : Model → Model} {cs : List Native.Call} (hh : w.Holds m model n q)
    (h : Edits w w' m f n cs) (hf : (f model).freed = model.freed)
    (he : (f model).engine = model.engine) (hal : (f model).Aligned m (q.applyAll cs).core) :
    w'.Aligned := by
  intro m₁ model₁ n₁ q₁ hh₁
  rcases h.holds_cases hs hh hf he hh₁ with ⟨rfl, rfl, rfl, rfl⟩ | ⟨-, hold⟩
  · exact hal
  · exact ha hold

/-- Setting attributes keeps models aligned. -/
private theorem Aligned.tune (ha : w.Aligned) (hs : w.Sound) {m : ModelId} {model : Model} {n : Nat}
    {q : Native.Problem} {f : Model → Model} {cs : List Native.Call} (hh : w.Holds m model n q)
    (h : Edits w w' m f n cs) (hf : model.Retyped (f model)) (hcs : ∀ c ∈ cs, c.isAttribute = true) :
    w'.Aligned := by
  have hcounts := Native.Problem.counts_applyAll (fun c hc => Native.Call.isShaping_of_isAttribute (hcs c hc)) q
  exact ha.edits hs hh h hf.freed hf.engine ((ha hh).edit hf.kinds hf.vars hcounts.1)

/-- **Each operation keeps models aligned** with their problems, however it ends. -/
private theorem aligned_of_performed (ha : w.Aligned) (hs : w.Sound) {o : Operation}
    {a : Except Fault Answer} (h : Performed w o a w') : w'.Aligned := by
  cases h with
  | refused h => exact fun _ _ _ _ hh => ha ((Undisturbed.of_idling h).holds_iff.mp hh)
  | asked h => exact fun _ _ _ _ hh => ha ((Undisturbed.of_idling h).holds_iff.mp hh)
  | @elapsed i => exact fun _ _ _ _ hh => ha ((holds_interlude i).mp hh)
  | configured h => exact fun _ _ _ _ hh => ha (h.holds_iff.mp hh)
  | @created name _ _ d kind n w₁ _ hd h₁ h₂ =>
    have hmade : (Model.made kind n).Aligned w.models.size (Engine.fresh kind) := by
      cases kind <;> exact ⟨rfl, rfl⟩
    have hcounts := Native.Problem.counts_applyAll (fun c hc => Native.Call.isShaping_of_isAttribute
      (Engine.isAttribute_namingCalls ⟨kind, some n, none⟩ name d c hc)) (Engine.fresh kind)
    intro m₁ model₁ n₁ q₁ hh₁
    rcases h₁.holds_cases_of_edits hs rfl h₂ rfl rfl hh₁ with ⟨rfl, rfl, rfl⟩ | ⟨-, hold⟩
    · exact hmade.edit rfl rfl hcounts.1
    · exact ha hold
  | undone h₁ h₂ => exact fun _ _ _ _ hh₁ => ha ((h₁.holds_iff_of_frees hs rfl h₂).mp hh₁)
  | cloned hh h =>
    intro m₁ model₁ n₁ q₁ hh₁
    rcases h.holds_cases hs hh₁ with ⟨rfl, rfl, rfl, rfl⟩ | ⟨-, hold⟩
    · have hal := ha hh
      refine ⟨hal.kinds, ?_⟩
      simp only [Model.copied, Model.newVariables, hal.kinds]
      refine List.map_congr_left fun i _ => ?_
      simp
    · exact ha hold
  | freed hh h => exact fun _ _ _ _ hh₁ => ha ((h.holds_iff hs hh).mp hh₁).2
  | freedBefore => exact ha
  | grew ho hh hn h => exact ha.edits hs hh h rfl rfl ((ha hh).grow hh.kind _ _)
  | constrained hh hc h =>
    refine ha.edits hs hh h rfl rfl ((ha hh).edit rfl rfl ?_)
    rw [Native.Problem.applyAll_rowsCalls hh.kind, Native.Problem.columnCount_lengthened]
  | kindSet hk hh hok h =>
    exact ha.tune hs hh h (Variable.retyped_withKind ..) (Engine.isAttribute_kindCalls _ _ _)
  | boundsSet hb hh hp hi hk h =>
    exact ha.tune hs hh h (.refl _) (List.forall_mem_singleton.mpr (Engine.isAttribute_boundsCall _ _ _))
  | boundsIgnored hb hh hp hi h => exact fun _ _ _ _ hh => ha ((Undisturbed.of_idling h).holds_iff.mp hh)
  | coefficientSet hx hh h =>
    exact ha.tune hs hh h (.refl _) (List.forall_mem_singleton.mpr (Engine.isAttribute_objectiveCall _ _ _))
  | objectiveSet hh hargs hv hc h => exact ha.tune hs hh h (.refl _) (Engine.isAttribute_objectiveCalls _ _)
  | directionSet hd hh h =>
    exact ha.tune hs hh h (.refl _) (List.forall_mem_singleton.mpr (Engine.isAttribute_directionCall _ _))
  | @solved _ m model n q _ _ ho hh h =>
    rcases h with ⟨hran, -⟩ | ⟨t, touched, -, hran⟩
    · exact ha.edits hs hh hran.edits rfl rfl ((ha hh).edit rfl rfl rfl)
    · -- loading the matrix changes neither the number of columns nor that of rows
      have hload := (Native.Problem.counts_applyAll (Engine.isShaping_loadCalls model.engine t) q).1
      cases touched <;> exact ha.edits hs hh hran.edits rfl rfl ((ha hh).edit rfl rfl hload)

theorem aligned_initial : initial.Aligned := by
  intro m model n q hh
  have hfound := hh.found
  simp [modelCore?, model?, initial] at hfound

theorem aligned_next (ha : w.Aligned) (hs : w.Sound) (o : Operation) : (w.next o).Aligned :=
  aligned_of_performed ha hs (performed hs o)

/-- **In every session, models are aligned with their problems.** -/
theorem aligned_nextAll (ha : w.Aligned) (hs : w.Sound) (os : List Operation) :
    (w.nextAll os).Aligned := by
  induction os generalizing w with
  | nil => exact ha
  | cons o rest ih => exact ih (aligned_next ha hs o) (sound_next hs o)

/-- No model has more kinds than its problem has columns. -/
def Covered (w : World) : Prop := ∀ ⦃m model n q⦄, w.Holds m model n q → model.kinds.length ≤ q.columnCount

theorem Aligned.covered (h : w.Aligned) : w.Covered := fun _ _ _ _ hh => Nat.le_of_eq (h hh).kinds

/-! ## §3 Owned variables -/

/-- The variables of every model, be it freed or not, are its own, at positions counted from the first. -/
def Owned (w : World) : Prop :=
  ∀ a vars, (w.modelCore? a).map Model.vars = some vars → ∀ v ∈ vars, v.model = a ∧ 0 ≤ v.index

theorem Owned.of_models (ho : w.Owned)
    (h : ∀ k, (w'.modelCore? k).map Model.vars = (w.modelCore? k).map Model.vars) : w'.Owned :=
  fun a vars ha => ho a vars ((h a).symm.trans ha)

/-- Edits that only add variables of the model itself leave each variable with its model. -/
theorem Owned.edits (ho : w.Owned) {m : ModelId} {n : Nat} {f : Model → Model} {cs : List Native.Call}
    (h : Edits w w' m f n cs)
    (hf : ∀ model, ∀ v ∈ (f model).vars, v ∈ model.vars ∨ v.model = m ∧ 0 ≤ v.index) : w'.Owned := by
  intro a vars ha
  rw [h.models a] at ha
  -- the model edited; variables it gained are its own
  split at ha
  · next ham =>
    subst ham
    obtain ⟨model', hmodel', rfl⟩ := Option.map_eq_some_iff.mp ha
    obtain ⟨model, hmodel, rfl⟩ := Option.map_eq_some_iff.mp hmodel'
    exact fun v hv => (hf model v hv).elim (ho a _ (by rw [hmodel]; rfl) v) id
  · exact ho a vars ha

/-- A model that is made with variables of its own leaves each variable with its model. -/
private theorem Owned.makes (ho : w.Owned) {model : Model} {q : Native.Problem} (h : Makes w w' model q)
    (hvars : ∀ v ∈ model.vars, v.model = w.models.size ∧ 0 ≤ v.index) : w'.Owned := by
  intro a vars ha
  rw [h.models a] at ha
  split at ha
  · next hsize =>
    -- the new model, last in the list
    cases ha
    rw [hsize]
    exact hvars
  · exact ho a vars ha

/-- **Each operation leaves each variable with its model.** -/
private theorem owned_of_performed (ho : w.Owned) {o : Operation} {a : Except Fault Answer}
    (h : Performed w o a w') : w'.Owned := by
  have of_frees {w₁ : World} (ho₁ : w₁.Owned) {m : ModelId} {n : Nat} (hfrees : Frees w₁ w' m n) : w'.Owned := by
    refine ho₁.of_models fun k => ?_
    by_cases hk : k = m
    · rw [hk]
      exact hfrees.vars
    · rw [hfrees.models k hk]
  have of_idling (hidle : Idling w w') : w'.Owned :=
    ho.of_models fun k => congrArg _ ((Undisturbed.of_idling hidle).models k)
  -- only making, copying and growing a model write its list of variables
  cases h with
  | refused h => exact of_idling h
  | asked h => exact of_idling h
  | elapsed => exact ho
  | configured h => exact ho.of_models fun k => congrArg _ (h.models k)
  | created hd h₁ h₂ => exact (ho.makes h₁ (fun _ hv => nomatch hv)).edits h₂ fun _ _ => .inl
  | undone h₁ h₂ => exact of_frees (ho.makes h₁ (fun _ hv => nomatch hv)) h₂
  | cloned hh h =>
    refine ho.makes h fun v hv => ?_
    obtain ⟨i, -, rfl⟩ := List.mem_map.mp hv
    exact ⟨rfl, Int.natCast_nonneg _⟩
  | freed hh h => exact of_frees ho h
  | freedBefore => exact ho
  | grew _ hh hn h => exact ho.edits h fun _ _ => Model.mem_vars_grown
  | constrained hh hc h => exact ho.edits h fun _ _ => .inl
  | kindSet hk hh hok h =>
    exact ho.edits h fun model v hv => .inl ((Variable.retyped_withKind _ _ model).vars ▸ hv)
  | boundsSet hb hh hp hi hk h => exact ho.edits h fun _ _ => .inl
  | boundsIgnored hb hh hp hi h => exact of_idling h
  | coefficientSet hx hh h => exact ho.edits h fun _ _ => .inl
  | objectiveSet hh hargs hv hc h => exact ho.edits h fun _ _ => .inl
  | directionSet hd hh h => exact ho.edits h fun _ _ => .inl
  | solved _ hh h =>
    obtain ⟨load, touched, hran⟩ := h.ran
    exact ho.edits hran.edits fun _ _ hv => .inl (by cases touched <;> exact hv)

/-- **In every session, the variables of a model are its own.** -/
theorem owned_nextAll (ho : w.Owned) (hs : w.Sound) (os : List Operation) : (w.nextAll os).Owned := by
  induction os generalizing w with
  | nil => exact ho
  | cons o rest ih => exact ih (owned_of_performed ho (performed hs o)) (sound_next hs o)

theorem owned_initial : initial.Owned := by
  intro a vars ha
  simp [modelCore?, model?, initial] at ha

end World

end LinearProgram
