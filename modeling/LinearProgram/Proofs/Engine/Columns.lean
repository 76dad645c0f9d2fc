import LinearProgram.Proofs.Shape

/-!
# The names of columns

A library keeps a name for each column. Only the calls that add columns or name one change the list of these
names: setting up new columns appends their names, and no other operation of an engine touches the list.

What an engine is asked about a column, it reads from the column at that place.
-/

namespace LinearProgram

open Native

/-! ## §1 Calls that name columns -/

namespace Native

def Problem.columnNames : Problem → List String
  | .glpk q => q.columns.toList.map (·.name)
  | .lpsolve q => q.columns.toList.map (·.name)
  | .deleted => []

def Call.isNaming : Call → Bool
  | glpk (.addColumns ..) | glpk (.setColumnName ..) | lpsolve (.addColumn _) | lpsolve (.setColumnName ..) => true
  | _ => false

theorem Call.isNaming_of_isAttribute {c : Call} (h : c.isAttribute = true) : c.isNaming = false := by
  rcases c with c | c <;> cases c <;> first | rfl | cases h

namespace Problem

@[simp] theorem columnNames_core (q : Problem) : q.core.columnNames = q.columnNames := by cases q <;> rfl

theorem length_columnNames (q : Problem) : q.columnNames.length = q.columnCount := by
  cases q <;> simp [columnNames, columnCount]

/-- New columns bring their names along. -/
theorem columnNames_extended {q : Problem} {kind : EngineKind} (hq : q.kind? = some kind) (d : Model.VariableDraft)
    (names : List String) : (q.extended d names).columnNames = q.columnNames ++ names := by
  cases q with
  | deleted => cases hq
  | glpk q => simp [extended, columnNames, Function.comp_def, Glpk.columnOf]
  | lpsolve q => simp [extended, columnNames, Function.comp_def, LpSolve.columnOf]

/-- A change of columns that keeps each name. -/
private theorem map_name_modify {α : Type} (xs : Array α) (i : Nat) (f : α → α) (name : α → String)
    (hf : ∀ x, name (f x) = name x) : (xs.modify i f).toList.map name = xs.toList.map name := by
  apply List.ext_getElem?
  intro k
  rw [Array.toList_modify, List.getElem?_map, List.getElem?_map, List.getElem?_modify]
  cases xs.toList[k]? with
  | none => rfl
  | some x =>
    -- the changed place keeps its name
    by_cases hk : i = k
    · simp [hk, hf]
    · simp [hk]

/-- Only calls that add or name columns change the names. -/
theorem columnNames_apply {c : Call} (h : c.isNaming = false) (q : Problem) :
    (q.apply c).columnNames = q.columnNames := by
  rcases q with q | q | _ <;> rcases c with c | c <;> cases c <;>
    simp only [Call.isNaming, Bool.true_eq_false] at h <;>
    simp only [apply, Glpk.Problem.apply, LpSolve.Problem.apply, Glpk.Problem.modifyColumn,
      Glpk.Problem.modifyRow, LpSolve.Problem.modifyColumn, LpSolve.Problem.modifyRow] <;>
    (try split) <;> simp only [columnNames]
  all_goals exact map_name_modify _ _ _ _ fun c => by first | rfl | split <;> rfl

/-- Calls that neither add nor name columns keep the names. -/
theorem columnNames_applyAll {cs : List Call} (h : ∀ c ∈ cs, c.isNaming = false) (q : Problem) :
    (q.applyAll cs).columnNames = q.columnNames := by
  induction cs generalizing q with
  | nil => rfl
  | cons c rest ih =>
    rw [applyAll_cons, ih (fun d hd => h d (List.mem_cons_of_mem _ hd)),
      columnNames_apply (h c (List.mem_cons_self ..))]

end Problem

end Native

namespace Engine

theorem isNaming_loadCalls (e : Engine) (t : Triplets) : ∀ c ∈ e.loadCalls t, c.isNaming = false := by
  intro c hc
  rcases loadCalls_cases hc with rfl | ⟨i, j, x, rfl⟩ <;> rfl

/-- Adding rows changes no names. -/
theorem isNaming_rowsCalls (e : Engine) (rows : Nat) (bs : List Bound) :
    ∀ c ∈ e.rowsCalls rows bs, c.isNaming = false := by
  intro c hc
  cases rowCall_of_rowsCalls hc with
  | count =>
    unfold rowCountCall
    cases e.kind <;> rfl
  | _ => rfl

variable {e : Engine} {q : Native.Problem}

/-- New columns get their names, behind the names that are there. -/
theorem columnNames_newVariablesCalls (hq : q.kind? = some e.kind) (d : Model.VariableDraft)
    (names : List String) :
    (q.applyAll (Model.newVariablesCalls e d q.columnCount names)).columnNames = q.columnNames ++ names := by
  rw [Problem.applyAll_newVariablesCalls hq]
  cases q with
  | glpk q => simp [Problem.extended, Problem.columnNames, Function.comp_def, Glpk.columnOf]
  | lpsolve q => simp [Problem.extended, Problem.columnNames, Function.comp_def, LpSolve.columnOf]
  | deleted => cases hq

/-! ## §2 Asking -/

variable {w : World} {n : Nat}

/-- An engine tells the name of a column that is there. -/
theorem on_columnName (h : w.Compliant) (ho : e.Owns w.native n q) {i : Nat} {name : String}
    (hi : q.columnNames[i]? = some name) : ((e.columnName (i + 1)).on w).1 = .ok name := by
  -- column numbers of both engines start at one
  have hfirst : 1 ≤ (i : Int) + 1 := by omega
  unfold columnName
  cases hk : e.kind with
  | glpk =>
    obtain ⟨q, rfl, hq⟩ := ho.glpk? hk
    obtain ⟨c, hc, rfl⟩ : ∃ c, q.columns[i]? = some c ∧ c.name = name := by
      simpa [Problem.columnNames] using hi
    dsimp only
    unfold Glpk.columnName
    rw [Glpk.on_ask (h.grants _), ho.number, hq]
    simp [Glpk.Problem.column?, hfirst, hc]
  | lpsolve =>
    obtain ⟨q, rfl, hq⟩ := ho.lpsolve? hk
    obtain ⟨c, hc, rfl⟩ : ∃ c, q.columns[i]? = some c ∧ c.name = name := by
      simpa [Problem.columnNames] using hi
    dsimp only
    unfold LpSolve.columnName
    rw [LpSolve.on_ask (h.grants _), ho.number, hq]
    simp [LpSolve.Problem.column?, hfirst, hc]

end Engine

end LinearProgram
