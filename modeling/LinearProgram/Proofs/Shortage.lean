import LinearProgram.Proofs.Evolution
import LinearProgram.Proofs.Loading
import LinearProgram.Proofs.Refusal

/-!
# Sessions in which memory runs out

What models and their problems keep even if lp_solve refuses to add columns or rows now and then. An
addition that succeeds although additions are limited is one of the things in the list of what operations
do, `World.performed_limited`, and one that fails leaves columns or rows behind that no model knows of. So
a problem may have more columns than its model has variables, but never fewer, and the coefficients of a
model always stand at rows and columns of its problem: `World.Reachable.filled`.
-/

namespace LinearProgram

open LinearProgram.Action

namespace World

variable {w w' : World} {m : ModelId} {model : Model} {n : Nat} {q : LpSolve.Problem} {columns rows : Nat}

/-! ## §1 Additions that succeed -/

/-- Columns that were added within limits would have been added without them, with the same result. -/
private theorem unlimited_addColumns (hw : w.Compliant) (hm : w.model? m = some model)
    (hf : model.freed = false) (hk : model.engine.kind = .lpsolve)
    (ho : model.engine.Owns w.native n (.lpsolve q)) {count : Nat} {given : Nat → String}
    {d : Model.VariableDraft} {vars : List Variable}
    (hon : (Model.addColumns m count given d).on (w.allowing columns rows) = (.ok vars, w')) :
    ∃ names, names.length = count ∧ VariableName.Chosen given model.names q.columns.size names ∧
      vars = Model.newVariables m q.columns.size count ∧ w'.unlimited =
        (w.afterAll (Model.newVariablesCalls model.engine d q.columns.size names)).modifyModel m
          (Model.grown m q.columns.size names d.kind) := by
  rcases Model.on_addColumns_allowing hm hf hk ho count given d with
    ⟨fault, h⟩ | ⟨names, hlen, hchosen, h⟩ | ⟨-, h⟩
  · -- it answered, so no column was refused
    cases (Prod.mk.inj (hon.symm.trans h)).1
  · obtain ⟨hvars, rfl⟩ := Prod.mk.inj (hon.symm.trans h)
    cases hvars
    exact ⟨names, hlen, hchosen, rfl, ((hw.afterAll _).modifyModel m _).unlimited_allowing _ _⟩
  · cases (Prod.mk.inj (hon.symm.trans h)).1

private theorem performed_addColumns (hs : w.Sound) (hm : w.model? m = some model) (hf : model.freed = false)
    (hk : model.engine.kind = .lpsolve) (ho : model.engine.Owns w.native n (.lpsolve q)) {o : Operation}
    {count : Nat} {d : Model.VariableDraft} (hgrows : o.Grows m count d) {vars : List Variable}
    (hon : (Model.addColumns m count o.given d).on (w.allowing columns rows) = (.ok vars, w')) :
    Performed w o (.ok (.variables vars)) w'.unlimited := by
  obtain ⟨names, rfl, hchosen, rfl, hafter⟩ := unlimited_addColumns hs.compliant hm hf hk ho hon
  rw [hafter]
  exact performed_of_grown hs (Holds.of_owns hm hf ho) hgrows hchosen

/-- A constraint that was added within limits is one that was performed. -/
private theorem performed_addConstraint (hs : w.Sound) (hm : w.model? m = some model) (hf : model.freed = false)
    (hk : model.engine.kind = .lpsolve) (ho : model.engine.Owns w.native n (.lpsolve q)) {l u : Number}
    {arguments : List VariableArgument} {cs : List Number} {answer : Unit}
    (hon : (Model.addConstraint m l u arguments cs).on (w.allowing columns rows) = (.ok answer, w')) :
    Performed w (.addConstraint m l u arguments cs) (.ok .done) w'.unlimited := by
  rcases Model.on_addConstraint_allowing hm hf hk ho l u arguments cs with
    ⟨fault, w₁, h, -⟩ | ⟨c, written, hc, h | ⟨-, h⟩⟩
  · cases (Prod.mk.inj (hon.symm.trans h)).1
  · obtain ⟨-, rfl⟩ := Prod.mk.inj (hon.symm.trans h)
    refine performed_of_constrained hs (Holds.of_owns hm hf ho) hc ?_
    -- but for the log, the state is the one after the calls
    let v := (w.afterAll (model.engine.rowsCalls q.rows.size (c.rowBounds model.engine))).modifyModel m
      (Model.constrained c.terms (Engine.rowNumbers q.rows.size (c.rowBounds model.engine).length))
    have hv : v.Compliant := (hs.compliant.afterAll _).modifyModel m _
    have hidle : Idling v { v with writings := written } := (Idling.kept v).writings (Idling.refl hv)
    have hstate : ({ v with writings := written } : World) =
        { v.allowing columns (rows - (c.rowBounds model.engine).length) with writings := written }.unlimited := by
      unfold unlimited allowing
      rw [← show v.allowance = [] from hv]
    exact hstate ▸ hidle
  · cases (Prod.mk.inj (hon.symm.trans h)).1

private theorem performed_addVariable (hs : w.Sound) (hm : w.model? m = some model) (hf : model.freed = false)
    (hk : model.engine.kind = .lpsolve) (hq : model.engine.Owns w.native n (.lpsolve q)) {name : String}
    {kind : Datum} {c l u : Number} {a : Answer}
    (hok : ((Operation.addVariable m name kind c l u).run.on (w.allowing columns rows)).1 = .ok a) :
    Performed w (.addVariable m name kind c l u) (.ok a)
      (w.limited columns rows (.addVariable m name kind c l u)) := by
  unfold limited next
  unfold Operation.run Model.addVariable at hok ⊢
  rw [on_map] at hok ⊢
  cases hd : Model.VariableDraft.read kind c l u with
  | error fault =>
    rw [hd] at hok
    cases hok
  | ok d =>
    rw [hd, on_bind_of_ok (on_lift _ _), on_bind] at hok
    rw [on_bind_of_ok (on_lift _ _), on_bind]
    -- the column was added within the limit, as it would have been without one
    rcases hon : (Model.addColumns m 1 (fun _ => name) d).on (w.allowing columns rows) with ⟨r, w'⟩
    rw [hon] at hok
    cases r with
    | error fault => cases hok
    | ok vars =>
      obtain ⟨names, -, -, rfl, -⟩ := unlimited_addColumns hs.compliant hm hf hk hq hon
      cases hok
      exact performed_addColumns hs hm hf hk hq (o := .addVariable m name kind c l u) ⟨rfl, rfl, hd⟩ hon

private theorem performed_addVariables (hs : w.Sound) (hm : w.model? m = some model) (hf : model.freed = false)
    (hk : model.engine.kind = .lpsolve) (hq : model.engine.Owns w.native n (.lpsolve q)) {count : Int}
    {stem : String} {kind : Datum} {c l u : Number} {a : Answer}
    (hok : ((Operation.addVariables m count stem kind c l u).run.on (w.allowing columns rows)).1 = .ok a) :
    Performed w (.addVariables m count stem kind c l u) (.ok a)
      (w.limited columns rows (.addVariables m count stem kind c l u)) := by
  unfold limited next
  unfold Operation.run Model.addVariables at hok ⊢
  rw [on_map] at hok ⊢
  by_cases hneg : count < 0
  · rw [if_pos hneg] at hok
    cases hok
  rw [if_neg hneg] at hok ⊢
  cases hd : Model.VariableDraft.read kind c l u with
  | error fault =>
    rw [hd] at hok
    cases hok
  | ok d =>
    rw [hd, on_bind_of_ok (on_lift _ _)] at hok
    rw [on_bind_of_ok (on_lift _ _)]
    -- all columns of the batch were granted
    rcases hon : (Model.addColumns m count.toNat _ d).on (w.allowing columns rows) with ⟨r, w'⟩
    rw [hon] at hok
    cases r with
    | error fault => cases hok
    | ok vars =>
      cases hok
      exact performed_addColumns hs hm hf hk hq (o := .addVariables m count stem kind c l u)
        ⟨rfl, by omega, hd⟩ hon

/-- An addition that succeeds although additions are limited does what it does without a limit. -/
theorem performed_limited (hs : w.Sound) (hm : w.model? m = some model) (hf : model.freed = false)
    (hk : model.engine.kind = .lpsolve) (hq : model.engine.Owns w.native n (.lpsolve q)) {o : Operation}
    (ho : o.Adds m) {a : Answer} (hok : (o.run.on (w.allowing columns rows)).1 = .ok a) :
    Performed w o (.ok a) (w.limited columns rows o) := by
  cases o with
  | addVariable m' name kind c l u =>
    obtain rfl : m' = m := ho
    exact performed_addVariable hs hm hf hk hq hok
  | addVariables m' count stem kind c l u =>
    obtain rfl : m' = m := ho
    exact performed_addVariables hs hm hf hk hq hok
  | addConstraint m' l u arguments cs =>
    obtain rfl : m' = m := ho
    unfold limited next
    unfold Operation.run at hok ⊢
    rw [on_map] at hok ⊢
    rcases hon : (Model.addConstraint m' l u arguments cs).on (w.allowing columns rows) with ⟨r, w'⟩
    rw [hon] at hok
    cases r with
    | error fault => cases hok
    | ok answer =>
      cases hok
      exact performed_addConstraint hs hm hf hk hq hon
  | _ => exact ho.elim

/-! ## §2 What every reachable state keeps -/

/-- However a model evolves, there is a column for each of its kinds. -/
private theorem covered_of_evolves (hw : w.Covered) {o : Operation} {a : Except Fault Answer} {q : Native.Problem}
    (h : w.Evolves o a m model q) : model.kinds.length ≤ q.columnCount := by
  cases h with
  | kept hh => exact hw hh
  | adjusted hh _ hm hcs =>
    rw [hm.kinds, Native.Problem.columnCount_core,
      (Native.Problem.counts_applyAll (fun c hc => (hcs c hc).1) _).1]
    exact hw hh
  -- kinds and columns grow by the same number
  | @grew _ _ _ model n q d names hh =>
    have hcovered := hw hh
    rw [Native.Problem.columnCount_core, Native.Problem.applyAll_newVariablesCalls hh.kind,
      Native.Problem.columnCount_extended hh.kind]
    simp only [Model.grown, Model.withColumns, List.length_append, List.length_replicate]
    omega
  -- rows are added, and columns stay
  | constrained hh =>
    have hcovered := hw hh
    rwa [Native.Problem.columnCount_core, Native.Problem.applyAll_rowsCalls hh.kind,
      Native.Problem.columnCount_lengthened]
  | made => exact Nat.zero_le _
  | copied hh =>
    have hcovered := hw hh
    exact hcovered

theorem covered_of_performed (hw : w.Covered) (hs : w.Sound) {o : Operation} {a : Except Fault Answer}
    (h : Performed w o a w') : w'.Covered := fun _ _ _ _ hh => covered_of_evolves hw (evolves_of_performed hs h hh)

/-- After an addition was abandoned, problems have what they had, and maybe more columns and rows. -/
theorem Abandoned.holds {k : Nat} {left : List LpSolve.Row} (h : Abandoned w w' n q k left)
    (hq : w.native.problem? n = some (.lpsolve q)) {m₁ : ModelId} {model₁ : Model} {n₁ : Nat} {q₁ : Native.Problem}
    (hh : w'.Holds m₁ model₁ n₁ q₁) : ∃ q₀, w.Holds m₁ model₁ n₁ q₀ ∧ q₀.columnCount ≤ q₁.columnCount ∧
      q₀.rowCount ≤ q₁.rowCount ∧ q₁.told = q₀.told := by
  have hfound : w.modelCore? m₁ = some model₁ := by
    rw [modelCore?, model?, ← h.models]
    exact hh.found
  -- the abandoned problem has only gained columns and rows
  by_cases hn : n₁ = n
  · subst hn
    have hproblem := hh.problem
    unfold Native.Store.core? at hproblem
    rw [h.problem] at hproblem
    obtain rfl := Option.some.inj hproblem
    refine ⟨(Native.Problem.lpsolve q).core, ⟨hfound, hh.unfreed, hh.number,
      Native.Store.core?_of_problem? hq, hh.kind⟩, ?_, ?_, rfl⟩
    · rw [Native.Problem.columnCount_core, Native.Problem.columnCount_core]
      simp [Native.Problem.columnCount]
    · rw [Native.Problem.rowCount_core, Native.Problem.rowCount_core]
      simp [Native.Problem.rowCount]
  · refine ⟨q₁, ⟨hfound, hh.unfreed, hh.number, ?_, hh.kind⟩, Nat.le_refl _, Nat.le_refl _, rfl⟩
    rw [← hh.problem]
    unfold Native.Store.core?
    rw [h.others n₁ hn]

/-- **In every reachable state, models have filled their problems**, and no model has more kinds than its
problem has columns. -/
theorem Reachable.filled (h : w.Reachable) : w.Covered ∧ w.Filled := by
  induction h with
  | initial => exact ⟨aligned_initial.covered, filled_initial⟩
  | @next w h o ih =>
    have hperformed := performed h.sound o
    exact ⟨covered_of_performed ih.1 h.sound hperformed, filled_of_performed ih.2 ih.1 h.sound hperformed⟩
  | @limited w m model o h hm hf hk ho columns rows ih =>
    obtain ⟨n, q, hq⟩ := h.sound.owns_lpsolve hm hf hk
    have hsettled := settled_limited h.sound.compliant hm hf hk hq ho columns rows
    cases ha : (o.run.on (w.allowing columns rows)).1 with
    | ok a =>
      have hperformed := performed_limited h.sound hm hf hk hq ho ha
      exact ⟨covered_of_performed ih.1 h.sound hperformed, filled_of_performed ih.2 ih.1 h.sound hperformed⟩
    -- what was added before the shortage stays, so the problem has more than the model, never less
    | error fault =>
      rw [ha] at hsettled
      obtain ⟨k, left, -, -, habandoned⟩ := hsettled
      refine ⟨fun m₁ model₁ n₁ q₁ hh => ?_, fun m₁ model₁ n₁ q₁ hh => ?_⟩
      · obtain ⟨q₀, hold, hcolumns, -⟩ := habandoned.holds hq.found hh
        exact (ih.1 hold).trans hcolumns
      · obtain ⟨q₀, hold, hcolumns, hrows, htold⟩ := habandoned.holds hq.found hh
        have hfilled := ih.2 hold
        refine ⟨hfilled.even, fun x hx => ?_, fun x hx => ?_, htold ▸ hfilled.told⟩
        · have hrow := hfilled.rows x hx
          omega
        · have hcolumn := hfilled.columns x hx
          omega

end World

end LinearProgram
