import LinearProgram.Proofs.Engine.Effects
import LinearProgram.Proofs.Model.Building

/-!
# What building leaves in a problem

The call lists of an engine, applied to a problem of its library. Rows and columns are only ever added at
the end, and each row is stored as one bound says: on GLPK as the bound itself, on lp_solve as a type with
a right-hand side. New variables extend a problem by one column each, all of one description, and by nothing
else; new constraints lengthen it by rows alone.
-/

namespace LinearProgram

open Native

/-! ## §1 Rows -/

/-- The last element of an array is modified where it was pushed. -/
private theorem modify_push {α : Type} (xs : Array α) (x : α) (f : α → α) :
    (xs.push x).modify xs.size f = xs.push (f x) := by
  apply Array.ext_getElem?
  intro i
  rw [Array.getElem?_modify, Array.getElem?_push, Array.getElem?_push]
  -- the place behind the old last one is the pushed one
  by_cases hi : i = xs.size
  · subst hi
    simp
  · rw [if_neg (Ne.symm hi), if_neg hi, if_neg hi]

namespace Glpk

/-- A row of GLPK stores a bound as it is. -/
def rowOf (b : Bound) : Row := ⟨boundCode b.kind, b.lower, b.upper⟩

end Glpk

namespace LpSolve

/-- A row of lp_solve stores one side of a bound. -/
def rowOf (b : Bound) : Row :=
  match rowSide? b with
  | some (type, side) => ⟨type, side⟩
  | none => ⟨atLeast, -infinity⟩

end LpSolve

namespace Engine

variable {e : Engine}

/-- On GLPK, the calls for a bound add one row with this bound. -/
theorem applyAll_rowCalls_glpk (hk : e.kind = .glpk) (q : Glpk.Problem) (b : Bound) :
    (Problem.glpk q).applyAll (e.rowCalls q.rows.size b) =
      .glpk { q with rows := q.rows.push (Glpk.rowOf b) } := by
  have hi : 1 ≤ (q.rows.size : Int) + 1 := by omega
  -- GLPK adds a fresh row, which the second call bounds
  have hadd : q.rows ++ Array.replicate (1 : Int).toNat Glpk.Row.fresh = q.rows.push Glpk.Row.fresh := by
    simp
  unfold rowCalls
  simp only [hk, Problem.applyAll_cons, Problem.applyAll_nil, Problem.apply, Glpk.Problem.apply,
    Glpk.Problem.modifyRow, if_pos hi, hadd]
  rw [show ((q.rows.size : Int) + 1 - 1).toNat = q.rows.size by omega, modify_push]
  rfl

/-- On lp_solve, the calls for a bound add one row with the kind of constraint that it is. -/
theorem applyAll_rowCalls_lpsolve (hk : e.kind = .lpsolve) (q : LpSolve.Problem) (b : Bound) :
    (Problem.lpsolve q).applyAll (e.rowCalls q.rows.size b) =
      .lpsolve { q with rows := q.rows.push (LpSolve.rowOf b) } := by
  have hi : 1 ≤ (q.rows.size : Int) + 1 := by omega
  unfold rowCalls rowCountCall LpSolve.rowOf
  cases LpSolve.rowSide? b with
  -- a double bound has no one side to set
  | none => simp only [hk]; rfl
  | some side =>
    simp only [hk, List.cons_append, List.nil_append, Problem.applyAll_cons, Problem.applyAll_nil,
      Problem.apply, LpSolve.Problem.apply, LpSolve.Problem.modifyRow, if_pos hi]
    rw [show ((q.rows.size : Int) + 1 - 1).toNat = q.rows.size by omega, modify_push, modify_push]

/-- GLPK stores one row for each bound. -/
theorem applyAll_rowsCalls_glpk (hk : e.kind = .glpk) (q : Glpk.Problem) (bs : List Bound) :
    (Problem.glpk q).applyAll (e.rowsCalls q.rows.size bs) =
      .glpk { q with rows := q.rows ++ (bs.map Glpk.rowOf).toArray } := by
  induction bs generalizing q with
  | nil => simp [rowsCalls]
  | cons b rest ih =>
    -- the next row is numbered by the rows there are
    have hsize : q.rows.size + 1 = (q.rows.push (Glpk.rowOf b)).size := by simp
    unfold rowsCalls
    rw [Problem.applyAll_append, applyAll_rowCalls_glpk hk, hsize,
      ih { q with rows := q.rows.push (Glpk.rowOf b) }]
    simp

/-- lp_solve stores one row for each bound. -/
theorem applyAll_rowsCalls_lpsolve (hk : e.kind = .lpsolve) (q : LpSolve.Problem) (bs : List Bound) :
    (Problem.lpsolve q).applyAll (e.rowsCalls q.rows.size bs) =
      .lpsolve { q with rows := q.rows ++ (bs.map LpSolve.rowOf).toArray } := by
  induction bs generalizing q with
  | nil => simp [rowsCalls]
  | cons b rest ih =>
    have hsize : q.rows.size + 1 = (q.rows.push (LpSolve.rowOf b)).size := by simp
    unfold rowsCalls
    rw [Problem.applyAll_append, applyAll_rowCalls_lpsolve hk, hsize,
      ih { q with rows := q.rows.push (LpSolve.rowOf b) }]
    simp

/-! ## §2 New columns -/

/-- Asking for the number of columns changes no problem. -/
theorem apply_columnCountCall (e : Engine) (q : Problem) : q.apply e.columnCountCall = q := by
  unfold columnCountCall
  rcases q with q | q | _ <;> cases e.kind <;> rfl

/-- lp_solve adds columns one by one. -/
theorem applyAll_addColumn (q : LpSolve.Problem) (p count : Nat) :
    (Problem.lpsolve q).applyAll (List.replicate count (.lpsolve (.addColumn p))) =
      .lpsolve { q with columns := q.columns ++ Array.replicate count LpSolve.Column.fresh } := by
  -- column by column: `add_columnex` adds one at a time
  induction count generalizing q with
  | zero => simp
  | succ count ih =>
    rw [List.replicate_succ, Problem.applyAll_cons]
    show (Problem.lpsolve { q with columns := q.columns.push LpSolve.Column.fresh }).applyAll _ = _
    rw [ih]
    congr 2
    apply Array.toList_inj.mp
    simp [List.replicate_succ]

/-- On GLPK, new columns are fresh ones. -/
theorem applyAll_newColumnsCalls_glpk (hk : e.kind = .glpk) (q : Glpk.Problem) (count : Nat) :
    (Problem.glpk q).applyAll (e.newColumnsCalls count) =
      .glpk { q with columns := q.columns ++ Array.replicate count Glpk.Column.fresh } := by
  unfold newColumnsCalls columnCountCall
  simp only [hk]
  -- `glp_add_cols` is not called for no columns
  by_cases hc : count = 0
  · subst hc
    simp [Problem.apply, Glpk.Problem.apply]
  · rw [if_neg hc]
    rfl

theorem applyAll_newColumnsCalls_lpsolve (hk : e.kind = .lpsolve) (q : LpSolve.Problem) (count : Nat) :
    (Problem.lpsolve q).applyAll (e.newColumnsCalls count) =
      .lpsolve { q with columns := q.columns ++ Array.replicate count LpSolve.Column.fresh } := by
  unfold newColumnsCalls columnCountCall
  simp only [hk]
  exact applyAll_addColumn q e.number count

end Engine

/-! ## §3 Setting columns up -/

namespace Glpk

/-- A column of GLPK stores a kind and a bound by their codes. -/
def columnOf (name : String) (kind : VariableKind) (b : Bound) (coefficient : Float) : Column :=
  ⟨name, kindCode kind, boundCode b.kind, b.lower, b.upper, coefficient⟩

end Glpk

namespace LpSolve

/-- The two sides of a bound of a column, with the library's infinity on a side that has none. -/
def sides (b : Bound) : Float × Float :=
  match b.kind with
  | .free => (-infinity, infinity)
  | .upper => (-infinity, b.upper)
  | .lower => (b.lower, infinity)
  | .double | .fixed => (b.lower, b.upper)

/-- A column of lp_solve stores whether it is integer, and two sides. -/
def columnOf (name : String) (kind : VariableKind) (b : Bound) (coefficient : Float) : Column :=
  ⟨name, kind != .continuous, (sides b).1, (sides b).2, coefficient⟩

end LpSolve

namespace Engine

variable {e : Engine}

/-- What a call about a column makes of it, on GLPK. -/
theorem apply_columnCall_glpk (hk : e.kind = .glpk) (q : Glpk.Problem) (j : Int) :
    (∀ name, (Problem.glpk q).apply (e.nameCall j name) =
        .glpk (q.modifyColumn j fun c => { c with name := name })) ∧
      (∀ kind, (Problem.glpk q).apply (e.kindCall j kind) =
        .glpk (q.modifyColumn j fun c => if kind = .binary then
          { c with kind := Glpk.kindCode kind, bound := 4, lower := 0, upper := 1 }
        else { c with kind := Glpk.kindCode kind })) ∧
      (∀ b, (Problem.glpk q).apply (e.boundsCall j b) =
        .glpk (q.modifyColumn j fun c =>
          { c with bound := Glpk.boundCode b.kind, lower := b.lower, upper := b.upper })) ∧
      ∀ x, (Problem.glpk q).apply (e.objectiveCall j x) =
        .glpk (q.modifyColumn j fun c => { c with objective := x }) := by
  unfold nameCall kindCall boundsCall objectiveCall
  simp only [hk]
  exact ⟨fun _ => rfl, fun kind => by cases kind <;> rfl, fun _ => rfl, fun _ => rfl⟩

/-- What a call about a column makes of it, on lp_solve. -/
theorem apply_columnCall_lpsolve (hk : e.kind = .lpsolve) (q : LpSolve.Problem) (j : Int) :
    (∀ name, (Problem.lpsolve q).apply (e.nameCall j name) =
        .lpsolve (q.modifyColumn j fun c => { c with name := name })) ∧
      (∀ kind, (Problem.lpsolve q).apply (e.kindCall j kind) =
        .lpsolve (q.modifyColumn j fun c => if kind = .binary then
          { c with integer := true, lower := 0, upper := 1 }
        else { c with integer := kind != .continuous })) ∧
      (∀ b, (Problem.lpsolve q).apply (e.boundsCall j b) =
        .lpsolve (q.modifyColumn j fun c =>
          { c with lower := (LpSolve.sides b).1, upper := (LpSolve.sides b).2 })) ∧
      ∀ x, (Problem.lpsolve q).apply (e.objectiveCall j x) =
        .lpsolve (q.modifyColumn j fun c => { c with objective := x }) := by
  unfold nameCall kindCall boundsCall objectiveCall LpSolve.sides
  simp only [hk]
  exact ⟨fun _ => rfl, fun kind => by cases kind <;> rfl,
    fun b => by cases b.kind <;> rfl, fun _ => rfl⟩

/-- Modifications of one element are one modification. -/
private theorem modify_comp {α : Type} (xs : Array α) (i : Nat) (f g : α → α) :
    (xs.modify i f).modify i g = xs.modify i (g ∘ f) := by
  apply Array.ext_getElem?
  intro k
  simp only [Array.getElem?_modify]
  split <;> simp

/-- Two changes to one column are one change. -/
private theorem glpk_modifyColumn_comp (q : Glpk.Problem) (j : Int) (f g : Glpk.Column → Glpk.Column) :
    (q.modifyColumn j f).modifyColumn j g = q.modifyColumn j (g ∘ f) := by
  unfold Glpk.Problem.modifyColumn
  split
  · simp only [modify_comp]
  · rfl

private theorem lpsolve_modifyColumn_comp (q : LpSolve.Problem) (j : Int)
    (f g : LpSolve.Column → LpSolve.Column) :
    (q.modifyColumn j f).modifyColumn j g = q.modifyColumn j (g ∘ f) := by
  unfold LpSolve.Problem.modifyColumn
  split
  · simp only [modify_comp]
  · rfl

/-- Setting a column of GLPK up leaves nothing of what stood there. -/
theorem applyAll_setUpCalls_glpk (hk : e.kind = .glpk) (q : Glpk.Problem) (j : Int) (name : String)
    (d : Model.VariableDraft) :
    (Problem.glpk q).applyAll (e.setUpCalls j name d) =
      .glpk (q.modifyColumn j fun _ => Glpk.columnOf name d.kind
        (if d.kind = .binary then Bound.binary else d.bound) d.coefficient) := by
  have hcalls (q : Glpk.Problem) := apply_columnCall_glpk hk q j
  unfold setUpCalls
  rw [Problem.applyAll_cons, (hcalls _).1, Problem.applyAll_cons, (hcalls _).2.1, Problem.applyAll_cons,
    (hcalls _).2.2.1, Problem.applyAll_cons, (hcalls _).2.2.2, Problem.applyAll_nil]
  simp only [glpk_modifyColumn_comp]
  congr 2
  funext c
  -- a binary column gets its bounds with its kind, whatever bounds were given before
  cases d.kind <;> rfl

/-- Setting a column of lp_solve up leaves nothing of what stood there. -/
theorem applyAll_setUpCalls_lpsolve (hk : e.kind = .lpsolve) (q : LpSolve.Problem) (j : Int)
    (name : String) (d : Model.VariableDraft) :
    (Problem.lpsolve q).applyAll (e.setUpCalls j name d) =
      .lpsolve (q.modifyColumn j fun _ => LpSolve.columnOf name d.kind
        (if d.kind = .binary then Bound.binary else d.bound) d.coefficient) := by
  have hcalls (q : LpSolve.Problem) := apply_columnCall_lpsolve hk q j
  unfold setUpCalls
  rw [Problem.applyAll_cons, (hcalls _).1, Problem.applyAll_cons, (hcalls _).2.1, Problem.applyAll_cons,
    (hcalls _).2.2.1, Problem.applyAll_cons, (hcalls _).2.2.2, Problem.applyAll_nil]
  simp only [lpsolve_modifyColumn_comp]
  congr 2
  funext c
  -- as above: binary columns are bounded by their kind
  cases d.kind <;> rfl

/-- What stands where the first of the new elements is replaced, and the others stay. -/
private theorem modify_append_replicate {α : Type} (xs : Array α) (x y : α) (count : Nat) :
    (xs ++ Array.replicate (count + 1) x).modify xs.size (fun _ => y) =
      xs.push y ++ Array.replicate count x := by
  apply Array.ext_getElem?
  intro i
  rw [Array.getElem?_modify, Array.getElem?_append, Array.getElem?_append, Array.size_push,
    Array.getElem?_push, Array.getElem?_replicate, Array.getElem?_replicate]
  -- before the first fresh column, at it, and behind it
  rcases Nat.lt_trichotomy i xs.size with hi | rfl | hi
  · rw [if_neg (by omega), if_pos hi, if_pos (by omega), if_neg (by omega)]
  · simp
  · have hfirst : ¬ xs.size = i := by omega
    have hold : ¬ i < xs.size := by omega
    have hpushed : ¬ i < xs.size + 1 := by omega
    have hcount : i - xs.size < count + 1 ↔ i - (xs.size + 1) < count := by omega
    simp only [hfirst, hold, hpushed, hcount, if_false]

/-- On GLPK, columns that are set up have the names, kinds, bounds and coefficients that were asked for. -/
theorem applyAll_setUpAllCalls_glpk (hk : e.kind = .glpk) (q : Glpk.Problem) (d : Model.VariableDraft)
    (names : List String) :
    (Problem.glpk { q with
        columns := q.columns ++ Array.replicate names.length Glpk.Column.fresh }).applyAll
      (e.setUpAllCalls d (q.columns.size + 1) names) =
    .glpk { q with
      columns := q.columns ++ (names.map fun name => Glpk.columnOf name d.kind
        (if d.kind = .binary then Bound.binary else d.bound) d.coefficient).toArray } := by
  induction names generalizing q with
  | nil => simp [setUpAllCalls]
  | cons name rest ih =>
    let column := Glpk.columnOf name d.kind (if d.kind = .binary then Bound.binary else d.bound) d.coefficient
    have hj : 1 ≤ (q.columns.size + 1 : Int) := by omega
    have hplace : ((q.columns.size + 1 : Int) - 1).toNat = q.columns.size := by omega
    -- the hypothesis for the problem whose first fresh column is set up
    have hnext := ih { q with columns := q.columns.push column }
    have hsize : ((q.columns.push column).size + 1 : Int) = q.columns.size + 1 + 1 := by simp
    rw [hsize] at hnext
    unfold setUpAllCalls
    rw [Problem.applyAll_append, applyAll_setUpCalls_glpk hk]
    unfold Glpk.Problem.modifyColumn
    rw [if_pos hj, hplace, List.length_cons, modify_append_replicate]
    refine hnext.trans ?_
    simp [column]

/-- Likewise on lp_solve. -/
theorem applyAll_setUpAllCalls_lpsolve (hk : e.kind = .lpsolve) (q : LpSolve.Problem)
    (d : Model.VariableDraft) (names : List String) :
    (Problem.lpsolve { q with
        columns := q.columns ++ Array.replicate names.length LpSolve.Column.fresh }).applyAll
      (e.setUpAllCalls d (q.columns.size + 1) names) =
    .lpsolve { q with
      columns := q.columns ++ (names.map fun name => LpSolve.columnOf name d.kind
        (if d.kind = .binary then Bound.binary else d.bound) d.coefficient).toArray } := by
  induction names generalizing q with
  | nil => simp [setUpAllCalls]
  | cons name rest ih =>
    let column := LpSolve.columnOf name d.kind (if d.kind = .binary then Bound.binary else d.bound) d.coefficient
    have hj : 1 ≤ (q.columns.size + 1 : Int) := by omega
    have hplace : ((q.columns.size + 1 : Int) - 1).toNat = q.columns.size := by omega
    -- the hypothesis for the problem whose first fresh column is set up
    have hnext := ih { q with columns := q.columns.push column }
    have hsize : ((q.columns.push column).size + 1 : Int) = q.columns.size + 1 + 1 := by simp
    rw [hsize] at hnext
    unfold setUpAllCalls
    rw [Problem.applyAll_append, applyAll_setUpCalls_lpsolve hk]
    unfold LpSolve.Problem.modifyColumn
    rw [if_pos hj, hplace, List.length_cons, modify_append_replicate]
    refine hnext.trans ?_
    simp [column]

/-! ## §4 The matrix -/

/-- lp_solve keeps every entry that it is handed. -/
theorem applyAll_loadCalls_lpsolve (hk : e.kind = .lpsolve) (q : LpSolve.Problem) (t : Triplets) :
    (Problem.lpsolve q).applyAll (e.loadCalls t) =
      .lpsolve { q with entries := q.entries ++ t.toList.toArray } := by
  unfold loadCalls
  rw [hk]
  dsimp only
  generalize t.toList = es
  induction es generalizing q with
  | nil => simp
  | cons x rest ih =>
    refine (ih { q with entries := q.entries.push x }).trans ?_
    simp

end Engine

/-! ## §5 Problems that have grown -/

namespace Model.VariableDraft

/-- The bound of a column of this description. -/
def columnBound (d : VariableDraft) : Bound := if d.kind = .binary then Bound.binary else d.bound

end Model.VariableDraft

namespace Native.Problem

/-- The problem with one more column for each name, all of one description. -/
def extended (d : Model.VariableDraft) (names : List String) : Problem → Problem
  | .glpk q => .glpk { q with
      columns := q.columns ++
        (names.map fun name => Glpk.columnOf name d.kind d.columnBound d.coefficient).toArray }
  | .lpsolve q => .lpsolve { q with
      columns := q.columns ++
        (names.map fun name => LpSolve.columnOf name d.kind d.columnBound d.coefficient).toArray }
  | .deleted => .deleted

theorem extended_nil (d : Model.VariableDraft) (q : Problem) : q.extended d [] = q := by
  cases q <;> simp [extended]

theorem extended_extended (d : Model.VariableDraft) (xs ys : List String) (q : Problem) :
    (q.extended d xs).extended d ys = q.extended d (xs ++ ys) := by
  cases q <;> simp [extended]

/-- There are as many more columns as names. -/
theorem columnCount_extended {q : Problem} {kind : EngineKind} (hq : q.kind? = some kind) (d : Model.VariableDraft)
    (names : List String) : (q.extended d names).columnCount = q.columnCount + names.length := by
  cases q with
  | deleted => cases hq
  | _ => simp [extended, columnCount]

/-- The calls that add variables extend the problem by their columns. -/
theorem applyAll_newVariablesCalls {e : Engine} {q : Problem} (hq : q.kind? = some e.kind)
    (d : Model.VariableDraft) (names : List String) :
    q.applyAll (Model.newVariablesCalls e d q.columnCount names) = q.extended d names := by
  unfold Model.newVariablesCalls
  rw [applyAll_cons, Engine.apply_columnCountCall, applyAll_append]
  cases hk : e.kind with
  | glpk =>
    obtain ⟨q, rfl⟩ := eq_glpk_of_kind? (hq.trans (by rw [hk]))
    rw [Engine.applyAll_newColumnsCalls_glpk hk]
    exact Engine.applyAll_setUpAllCalls_glpk hk q d names
  | lpsolve =>
    obtain ⟨q, rfl⟩ := eq_lpsolve_of_kind? (hq.trans (by rw [hk]))
    rw [Engine.applyAll_newColumnsCalls_lpsolve hk]
    exact Engine.applyAll_setUpAllCalls_lpsolve hk q d names

def lengthened (bs : List Bound) : Problem → Problem
  | .glpk q => .glpk { q with rows := q.rows ++ (bs.map Glpk.rowOf).toArray }
  | .lpsolve q => .lpsolve { q with rows := q.rows ++ (bs.map LpSolve.rowOf).toArray }
  | .deleted => .deleted

theorem columnCount_lengthened (bs : List Bound) (q : Problem) : (q.lengthened bs).columnCount = q.columnCount := by
  cases q <;> rfl

/-- There are as many more rows as bounds. -/
theorem rowCount_lengthened {q : Problem} {kind : EngineKind} (hq : q.kind? = some kind) (bs : List Bound) :
    (q.lengthened bs).rowCount = q.rowCount + bs.length := by
  cases q with
  | deleted => cases hq
  | _ => simp [lengthened, rowCount]

/-- The calls that add rows lengthen the problem by these rows. -/
theorem applyAll_rowsCalls {e : Engine} {q : Problem} (hq : q.kind? = some e.kind) (bs : List Bound) :
    q.applyAll (e.rowsCalls q.rowCount bs) = q.lengthened bs := by
  cases hk : e.kind with
  | glpk =>
    obtain ⟨q, rfl⟩ := eq_glpk_of_kind? (hq.trans (by rw [hk]))
    exact Engine.applyAll_rowsCalls_glpk hk q bs
  | lpsolve =>
    obtain ⟨q, rfl⟩ := eq_lpsolve_of_kind? (hq.trans (by rw [hk]))
    exact Engine.applyAll_rowsCalls_lpsolve hk q bs

end Native.Problem

end LinearProgram
