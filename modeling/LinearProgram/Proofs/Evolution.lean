import LinearProgram.Proofs.Validity

/-!
# How models come about

What an operation may have made of a model that holds a problem: `World.Evolves` looks back from the state
after the operation to the state before it. The model was there and is as it was; or something about it
was adjusted that concerns neither rows nor coefficients; or it got further columns, or a further
constraint; or it is new, made from nothing or copied from another one.

An invariant of models and their problems has to be shown for these cases only, and a record of what
callers have done can be kept beside it, since each case says which operation it is.
-/

namespace LinearProgram

/-! ## §1 Calls that concern rows -/

namespace Native

def Call.isRow : Call → Bool
  | glpk (.addRows ..) | glpk (.setRowBounds ..) | lpsolve (.addRow ..) | lpsolve (.setRowType ..)
  | lpsolve (.setRowSide ..) => true
  | _ => false

/-- Whether a call leaves rows alone, and how many columns there are. -/
def Call.Adjusts (c : Call) : Prop := c.isShaping = false ∧ c.isRow = false

theorem Call.adjusts_of_isAttribute {c : Call} (h : c.isAttribute = true) : c.Adjusts := by
  refine ⟨isShaping_of_isAttribute h, ?_⟩
  rcases c with c | c <;> cases c <;> first | rfl | cases h

end Native

namespace Engine

theorem adjusts_loadCalls (e : Engine) (t : Triplets) : ∀ c ∈ e.loadCalls t, c.Adjusts := by
  intro c hc
  rcases loadCalls_cases hc with rfl | ⟨i, j, x, rfl⟩ <;> exact ⟨rfl, rfl⟩

end Engine

/-! ## §2 What becomes of models -/

/-- The models have the same columns, in number, and the same rows and coefficients. -/
structure Model.SameShape (model model' : Model) : Prop where
  engine : model'.engine = model.engine
  kinds : model'.kinds.length = model.kinds.length
  entries : model'.entries = model.entries
  constraintCount : model'.constraintCount = model.constraintCount

/-- The operation with this answer gave no constraint to model `m`. -/
def Operation.Spares (m : ModelId) (o : Operation) (a : Except Fault Answer) : Prop :=
  o.Constrains m → ∃ fault, a = .error fault

/-- How a model and its problem came about in an operation. -/
inductive World.Evolves (w : World) : Operation → Except Fault Answer → ModelId → Model → Native.Problem → Prop
  | kept {o a m model n q} (hh : w.Holds m model n q) (ho : o.Spares m a) : Evolves w o a m model q
  | adjusted {o a m model n q model' cs} (hh : w.Holds m model n q) (ho : o.Spares m a)
      (hm : model.SameShape model') (hcs : ∀ c ∈ cs, Native.Call.Adjusts c) :
    Evolves w o a m model' (q.applyAll cs).core
  | grew {o a m model n q d names} (hh : w.Holds m model n q) (ho : o.Spares m a) :
    Evolves w o a m (Model.grown m q.columnCount names d.kind model)
      (q.applyAll (Model.newVariablesCalls model.engine d q.columnCount names)).core
  | constrained {m lower upper arguments coefficients model n q} {c : Constraint} (hh : w.Holds m model n q)
      (hc : c.Describes m model.kinds.length lower upper arguments coefficients) :
    Evolves w (.addConstraint m lower upper arguments coefficients) (.ok .done) m
      (Model.constrained c.terms (Engine.rowNumbers q.rowCount (c.rowBounds model.engine).length) model)
      (q.applyAll (model.engine.rowsCalls q.rowCount (c.rowBounds model.engine))).core
  | made {name direction options kind n cs} (hcs : ∀ c ∈ cs, Native.Call.Adjusts c) :
    Evolves w (.create name direction options) (.ok (.model w.models.size)) w.models.size
      (Model.made kind n) ((Engine.fresh kind).applyAll cs).core
  | copied {m model n q} (hh : w.Holds m model n q) :
    Evolves w (.clone m) (.ok (.model w.models.size)) w.models.size
      (Model.copied model w.models.size w.native.next) q

namespace World

variable {w w' : World}

/-- Editing one model is a way to evolve. -/
private theorem evolves_of_edits (hs : w.Sound) {o : Operation} {a : Except Fault Answer} {m : ModelId}
    {model : Model} {n : Nat} {q : Native.Problem} {f : Model → Model} {cs : List Native.Call}
    (hh : w.Holds m model n q) (h : Edits w w' m f n cs) (hf : (f model).freed = model.freed)
    (he : (f model).engine = model.engine) (ho : ∀ m₁, m₁ ≠ m → o.Spares m₁ a)
    (hedit : w.Evolves o a m (f model) (q.applyAll cs).core) {m₁ : ModelId} {model₁ : Model} {n₁ : Nat}
    {q₁ : Native.Problem} (hh₁ : w'.Holds m₁ model₁ n₁ q₁) : w.Evolves o a m₁ model₁ q₁ := by
  rcases h.holds_cases hs hh hf he hh₁ with ⟨rfl, rfl, rfl, rfl⟩ | ⟨hne, hold⟩
  · exact hedit
  · -- any other model was there before, with the same problem
    exact .kept hold (ho m₁ hne)

/-- Setting attributes of a model adjusts it. -/
private theorem evolves_of_tune {o : Operation} {a : Except Fault Answer} {m m₁ : ModelId}
    {model model₁ : Model} {n n₁ : Nat} {q q₁ : Native.Problem} {f : Model → Model} {cs : List Native.Call}
    (hs : w.Sound) (hh : w.Holds m model n q) (h : Edits w w' m f n cs) (hf : model.Retyped (f model))
    (hcs : ∀ c ∈ cs, c.isAttribute = true) (ho : ∀ m₁, o.Spares m₁ a) (hh₁ : w'.Holds m₁ model₁ n₁ q₁) :
    w.Evolves o a m₁ model₁ q₁ :=
  evolves_of_edits hs hh h hf.freed hf.engine (fun m₁ _ => ho m₁)
    (.adjusted hh (ho m) ⟨hf.engine, hf.kinds, hf.entries, hf.constraintCount⟩ fun c hc =>
      Native.Call.adjusts_of_isAttribute (hcs c hc)) hh₁

/-- A solve loads the matrix at most. -/
private theorem evolves_of_solves (hs : w.Sound) {o : Operation} {m : ModelId} {model : Model} {n : Nat}
    {q : Native.Problem} {a : Except Fault SolveResult} (ho : o.SolvesModel m) (hh : w.Holds m model n q)
    (h : Model.Solves w m model n (a, w')) {m₁ : ModelId} {model₁ : Model} {n₁ : Nat} {q₁ : Native.Problem}
    (hh₁ : w'.Holds m₁ model₁ n₁ q₁) : w.Evolves o (a.map .result) m₁ model₁ q₁ := by
  have hspares : ∀ m₁, o.Spares m₁ (a.map Answer.result) := by
    intro m₁ hc
    cases o with
    | addConstraint => exact ho.elim
    | _ => exact hc.elim
  -- the matrix is loaded, or the solve ends before that
  obtain ⟨load, touched, hload, hran⟩ : ∃ load touched, (∀ c ∈ load, Native.Call.Adjusts c) ∧
      Model.Ran w m model n load touched (a, w') := by
    rcases h with ⟨hran, -⟩ | ⟨t, touched, -, hran⟩
    · exact ⟨_, _, List.forall_mem_nil _, hran⟩
    · exact ⟨_, _, Engine.adjusts_loadCalls _ t, hran⟩
  -- a renewed revision does not change the shape of a model
  have hadjusted (hm : model.SameShape ((if touched then Model.renewed else id) model)) :=
    Evolves.adjusted hh (hspares m) hm hload
  cases touched <;>
    exact evolves_of_edits hs hh hran.edits rfl rfl (fun m₁ _ => hspares m₁) (hadjusted ⟨rfl, rfl, rfl, rfl⟩) hh₁

/-- **Whatever holds a problem after an operation came about in one of these ways.** -/
theorem evolves_of_performed (hs : w.Sound) {o : Operation} {a : Except Fault Answer} (h : Performed w o a w')
    {m₁ : ModelId} {model₁ : Model} {n₁ : Nat} {q₁ : Native.Problem} (hh₁ : w'.Holds m₁ model₁ n₁ q₁) :
    w.Evolves o a m₁ model₁ q₁ := by
  -- one case for each way in which an operation is performed
  cases h with
  | refused h => exact .kept ((Undisturbed.of_idling h).holds_iff.mp hh₁) fun _ => ⟨_, rfl⟩
  | asked h => exact .kept ((Undisturbed.of_idling h).holds_iff.mp hh₁) False.elim
  | elapsed => exact .kept ((holds_interlude _).mp hh₁) False.elim
  | configured h => exact .kept (h.holds_iff.mp hh₁) False.elim
  | @created name direction options d kind n w₁ _ hd h₁ h₂ =>
    rcases h₁.holds_cases_of_edits hs rfl h₂ rfl rfl hh₁ with ⟨rfl, rfl, rfl⟩ | ⟨-, hold⟩
    · exact .made fun c hc => Native.Call.adjusts_of_isAttribute (Engine.isAttribute_namingCalls _ _ _ c hc)
    · exact .kept hold False.elim
  | undone h₁ h₂ => exact .kept ((h₁.holds_iff_of_frees hs rfl h₂).mp hh₁) False.elim
  | cloned hh h =>
    rcases h.holds_cases hs hh₁ with ⟨rfl, rfl, rfl, rfl⟩ | ⟨-, hold⟩
    · exact .copied hh
    · exact .kept hold False.elim
  | freed hh h => exact .kept ((h.holds_iff hs hh).mp hh₁).2 False.elim
  | freedBefore => exact .kept hh₁ False.elim
  | @grew o m count d names model n q _ ho hh hn h =>
    have hspares : ∀ m₁, o.Spares m₁ (.ok (.variables (Model.newVariables m q.columnCount count))) := by
      intro m₁ hc
      cases o with
      | addConstraint => exact ho.elim
      | _ => exact hc.elim
    exact evolves_of_edits hs hh h rfl rfl (fun m₁ _ => hspares m₁) (.grew hh (hspares m)) hh₁
  | @constrained m lower upper arguments coefficients model n q _ c hh hc h =>
    have hothers : ∀ m₁, m₁ ≠ m →
        (Operation.addConstraint m lower upper arguments coefficients).Spares m₁ (.ok .done) := by
      intro m₁ hne hm
      have hsame : m = m₁ := hm
      exact absurd hsame.symm hne
    exact evolves_of_edits hs hh h rfl rfl hothers (.constrained hh hc) hh₁
  | kindSet hk hh ha h =>
    exact evolves_of_tune hs hh h (Variable.retyped_withKind ..) (Engine.isAttribute_kindCalls _ _ _)
      (fun _ => False.elim) hh₁
  | boundsSet hb hh hp hi hk h =>
    exact evolves_of_tune hs hh h (.refl _) (List.forall_mem_singleton.mpr (Engine.isAttribute_boundsCall _ _ _))
      (fun _ => False.elim) hh₁
  | boundsIgnored hb hh hp hi h => exact .kept ((Undisturbed.of_idling h).holds_iff.mp hh₁) False.elim
  | coefficientSet hx hh h =>
    exact evolves_of_tune hs hh h (.refl _)
      (List.forall_mem_singleton.mpr (Engine.isAttribute_objectiveCall _ _ _)) (fun _ => False.elim) hh₁
  | objectiveSet hh hargs hv hc h =>
    exact evolves_of_tune hs hh h (.refl _) (Engine.isAttribute_objectiveCalls _ _) (fun _ => False.elim) hh₁
  | directionSet hd hh h =>
    exact evolves_of_tune hs hh h (.refl _)
      (List.forall_mem_singleton.mpr (Engine.isAttribute_directionCall _ _)) (fun _ => False.elim) hh₁
  | solved ho hh h => exact evolves_of_solves hs ho hh h hh₁

end World

end LinearProgram
