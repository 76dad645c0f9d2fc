import LinearProgram.Proofs.Engine.Contents
import LinearProgram.Proofs.Performed

/-!
# Additions that lp_solve refuses

lp_solve adds columns and rows one by one, and may refuse any of them for want of memory. This module runs
the three operations that add something while lp_solve adds only so many columns and rows:
`World.limited` is the state after such an operation, and `World.Reachable` says which states a session
leads to in which this may happen at any time.

`World.refused_addition` is the account of an addition that fails. The models are as they were, and so are
all problems but one: the problem of the model keeps what had been added to it before the refusal. So the
state is as it was exactly if lp_solve refused the very first column or row. Otherwise the columns of the
problem are no longer those of the variables of the model.
-/

namespace LinearProgram

open LinearProgram.Action

/-! ## §1 Libraries that refuse to add -/

namespace World

/-- lp_solve adds so many columns and so many rows. -/
def limits (columns rows : Nat) : List (String × Nat) :=
  [("add_columnex", columns), ("add_constraintex", rows)]

/-- The state in which lp_solve only adds so many columns and rows from now on. -/
def allowing (w : World) (columns rows : Nat) : World := { w with allowance := limits columns rows }

variable {w : World} {columns rows : Nat}

theorem allowing_after (c : Native.Call) :
    (w.allowing columns rows).after c = (w.after c).allowing columns rows := rfl

/-- What lp_solve may still do is no part of what calls do. -/
theorem allowing_afterAll (cs : List Native.Call) :
    (w.allowing columns rows).afterAll cs = (w.afterAll cs).allowing columns rows := by
  induction cs generalizing w with
  | nil => rfl
  | cons c cs ih => rw [afterAll_cons, allowing_after, ih, afterAll_cons]

/-- Only additions are limited. -/
theorem lenient_allowing : (w.allowing columns rows).Lenient := by
  intro c hc
  -- the two functions that are limited are none that sets up a column or a row
  have hne : ("add_columnex" == c.function) = false ∧ ("add_constraintex" == c.function) = false := by
    rcases c with c | c <;> cases c
    case glpk.read query => cases query <;> exact ⟨rfl, rfl⟩
    case lpsolve.read query => cases query <;> exact ⟨rfl, rfl⟩
    case lpsolve.addColumn => cases hc
    case lpsolve.addRow => cases hc
    all_goals exact ⟨rfl, rfl⟩
  unfold Grants allowing limits
  rw [List.lookup_cons, BEq.comm, hne.1, List.lookup_cons, BEq.comm, hne.2]
  rfl

/-- The state in which the libraries refuse nothing from now on. -/
def unlimited (w : World) : World := { w with allowance := [] }

theorem Compliant.unlimited_allowing (h : w.Compliant) (columns rows : Nat) :
    (w.allowing columns rows).unlimited = w := by
  unfold allowing unlimited
  rw [← h]

/-- The state after an operation during which lp_solve only adds so many columns and rows. -/
def limited (w : World) (columns rows : Nat) (o : Operation) : World :=
  ((w.allowing columns rows).next o).unlimited

end World

namespace Action

variable {w : World} {p : Nat} {type : Int} {side : Float} {columns rows : Nat}

/-- While columns may be added, adding one uses up one permission. -/
theorem on_addColumn_succ :
    (call (.lpsolve (.addColumn p))).on (w.allowing (columns + 1) rows) =
      (.ok true, (w.after (.lpsolve (.addColumn p))).allowing columns rows) := by
  rw [on_call]
  rfl

theorem on_addColumn_zero :
    (call (.lpsolve (.addColumn p))).on (w.allowing 0 rows) = (.ok false, w.allowing 0 rows) := by
  rw [on_call]
  rfl

/-- While rows may be added, adding one uses up one permission. -/
theorem on_addRow_succ :
    (call (.lpsolve (.addRow p type side))).on (w.allowing columns (rows + 1)) =
      (.ok true, (w.after (.lpsolve (.addRow p type side))).allowing columns rows) := by
  rw [on_call]
  rfl

theorem on_addRow_zero :
    (call (.lpsolve (.addRow p type side))).on (w.allowing columns 0) =
      (.ok false, w.allowing columns 0) := by
  rw [on_call]
  rfl

end Action

/-! ## §2 Engines -/

namespace Engine

variable {w : World} {e : Engine} {n : Nat} {q : LpSolve.Problem} {columns rows : Nat}

/-- As many columns as may be added are added. -/
theorem on_pushColumns_of_le {count : Nat} (h : count ≤ columns) (p : Nat) :
    (LpSolve.pushColumns p count).on (w.allowing columns rows) =
      (.ok (), (w.afterAll (List.replicate count (.lpsolve (.addColumn p)))).allowing
        (columns - count) rows) := by
  -- each column uses up one of the calls allowed
  induction count generalizing w columns with
  | zero => rfl
  | succ count ih =>
    obtain ⟨columns, rfl⟩ := Nat.exists_eq_add_of_le' h
    rw [LpSolve.pushColumns, ← Nat.add_assoc, on_bind_of_ok on_addColumn_succ, if_pos rfl,
      ih (Nat.le_add_left ..)]
    simp [List.replicate_succ]

/-- What lp_solve does not add any more is refused, after it has added what it still does. -/
theorem on_pushColumns_of_lt {count : Nat} (h : columns < count) (p : Nat) :
    (LpSolve.pushColumns p count).on (w.allowing columns rows) =
      (.error (.noMemory .column),
        (w.afterAll (List.replicate columns (.lpsolve (.addColumn p)))).allowing 0 rows) := by
  -- on the calls allowed: when they are used up, the next column is refused
  induction columns generalizing w count with
  | zero =>
    obtain ⟨count, rfl⟩ := Nat.exists_eq_add_of_lt h
    rw [LpSolve.pushColumns, on_bind_of_ok on_addColumn_zero]
    rfl
  | succ columns ih =>
    obtain ⟨count, rfl⟩ := Nat.exists_eq_add_of_lt h
    rw [LpSolve.pushColumns, on_bind_of_ok on_addColumn_succ, if_pos rfl, ih (by omega)]
    rfl

/-- Counting columns is not limited. -/
theorem on_columnCount_allowing (ho : e.Owns w.native n (.lpsolve q)) :
    e.columnCount.on (w.allowing columns rows) =
      (.ok q.columns.size, (w.after e.columnCountCall).allowing columns rows) := by
  refine on_columnCount (w := w.allowing columns rows) (World.lenient_allowing _ ?_) ho
  unfold columnCountCall
  cases e.kind <;> rfl

theorem on_rowCount_allowing (ho : e.Owns w.native n (.lpsolve q)) :
    e.rowCount.on (w.allowing columns rows) =
      (.ok q.rows.size, (w.after e.rowCountCall).allowing columns rows) := by
  refine on_rowCount (w := w.allowing columns rows) (World.lenient_allowing _ ?_) ho
  unfold rowCountCall
  cases e.kind <;> rfl

/-- Columns that may all be added are added, and the first of them is the next in line. -/
theorem on_addColumns_of_le (hk : e.kind = .lpsolve) (ho : e.Owns w.native n (.lpsolve q))
    {count : Nat} (h : count ≤ columns) :
    (e.addColumns count).on (w.allowing columns rows) =
      (.ok (q.columns.size + 1 : Int), (w.afterAll (e.newColumnsCalls count)).allowing
        (columns - count) rows) := by
  -- reading the count is not limited
  have hread : e.columnCount.on (w.allowing columns rows) = _ := on_columnCount_allowing ho
  unfold columnCount at hread
  unfold addColumns newColumnsCalls
  rw [if_neg (by omega)]
  simp only [hk, ho.number] at hread ⊢
  rw [Int.toNat_natCast]
  unfold LpSolve.addColumns
  rw [on_bind_of_ok hread, on_bind_of_ok (on_pushColumns_of_le h n)]
  rfl

/-- If too many columns are asked for, those that may be added stay, and then the fault is raised. -/
theorem on_addColumns_of_lt (hk : e.kind = .lpsolve) (ho : e.Owns w.native n (.lpsolve q))
    {count : Nat} (h : columns < count) :
    (e.addColumns count).on (w.allowing columns rows) =
      (.error (.noMemory .column), (w.afterAll (e.newColumnsCalls columns)).allowing 0 rows) := by
  have hread : e.columnCount.on (w.allowing columns rows) = _ := on_columnCount_allowing ho
  unfold columnCount at hread
  unfold addColumns newColumnsCalls
  rw [if_neg (by omega)]
  simp only [hk, ho.number] at hread ⊢
  rw [Int.toNat_natCast]
  unfold LpSolve.addColumns
  rw [on_bind_of_ok hread, on_bind_of_error (on_pushColumns_of_lt h n)]
  rfl

/-- A row that lp_solve still adds gets its bounds. -/
theorem on_addBoundedRow_succ (hk : e.kind = .lpsolve) (ho : e.Owns w.native n (.lpsolve q)) {b : Bound}
    (hb : b.kind ≠ .double) :
    (e.addBoundedRow b).on (w.allowing columns (rows + 1)) =
      (.ok (q.rows.size + 1 : Int), (w.afterAll (e.rowCalls q.rows.size b)).allowing columns rows) := by
  obtain ⟨type, side, hside⟩ : ∃ type side, LpSolve.rowSide? b = some (type, side) := by
    unfold LpSolve.rowSide?
    cases hbk : b.kind with
    | double => exact absurd hbk hb
    | _ => exact ⟨_, _, rfl⟩
  have hread : e.rowCount.on (w.allowing columns (rows + 1)) = _ := on_rowCount_allowing ho
  have hlenient (v : World) : (v.allowing columns rows).Lenient := World.lenient_allowing
  unfold rowCount at hread
  unfold addBoundedRow addRows setRowBounds rowCalls
  rw [if_neg (by decide)]
  simp only [hk, ho.number] at hread ⊢
  -- the row is added without a bound, and then gets its type and its side
  let added := (w.after e.rowCountCall).after (.lpsolve (.addRow n LpSolve.atLeast (-LpSolve.infinity)))
  have hadd : (LpSolve.addRows n 1).on (w.allowing columns (rows + 1)) =
      (.ok (q.rows.size + 1 : Int), added.allowing columns rows) := by
    unfold LpSolve.addRows LpSolve.pushRows LpSolve.pushRows
    simp only [on_bind, hread, on_addRow_succ, if_true, on_pure]
    rfl
  unfold LpSolve.setRowBounds
  rw [Int.toNat_one, on_bind_of_ok hadd]
  simp only [on_bind, hside]
  rw [LpSolve.on_tell ((hlenient _).lpsolve rfl)]
  dsimp only
  rw [LpSolve.on_tell (((hlenient _).after _).lpsolve rfl)]
  rfl

/-- Where no row may be added any more, adding one with its bound fails after the rows have been counted. -/
theorem on_addBoundedRow_zero (hk : e.kind = .lpsolve) (ho : e.Owns w.native n (.lpsolve q))
    (b : Bound) : (e.addBoundedRow b).on (w.allowing columns 0) =
      (.error (.noMemory .row), (w.after e.rowCountCall).allowing columns 0) := by
  have hread : e.rowCount.on (w.allowing columns 0) = _ := on_rowCount_allowing ho
  unfold rowCount at hread
  unfold addBoundedRow addRows
  rw [if_neg (by decide)]
  simp only [hk, ho.number] at hread ⊢
  unfold LpSolve.addRows
  -- the fault is raised before the row could be bounded
  refine on_bind_of_error ?_ _
  rw [on_bind_of_ok hread]
  refine on_bind_of_error ?_ _
  rw [Int.toNat_one, LpSolve.pushRows, on_bind_of_ok on_addRow_zero]
  rfl

/-- On lp_solve, the rows of a constraint are the two sides of an interval, or none, or one. -/
private theorem rowBounds_cases (b : Bound) :
    (b.kind = .double ∧ rowBounds .lpsolve b = [⟨.upper, 0, b.upper⟩, ⟨.lower, b.lower, 0⟩]) ∨
      (b.kind = .free ∧ rowBounds .lpsolve b = []) ∨
      (b.kind ≠ .double ∧ b.kind ≠ .free ∧ rowBounds .lpsolve b = [b]) := by
  unfold rowBounds
  cases hb : b.kind <;> simp [EngineKind.storesFreeRows]

/-- The rows that follow the first one are added to the problem that has it. -/
private theorem owns_after_row (ho : e.Owns w.native n (.lpsolve q)) (hk : e.kind = .lpsolve) (b : Bound) :
    e.Owns (w.afterAll (e.rowCalls q.rows.size b)).native n
      (.lpsolve { q with rows := q.rows.push (LpSolve.rowOf b) }) := by
  have h := ho.applyAll (ho.number ▸ isAbout_rowCalls e q.rows.size b)
  rwa [applyAll_rowCalls_lpsolve hk, ← World.afterAll_native] at h

/-- Where all rows of a bound may be added, they are added. -/
theorem on_addRow_of_le (hk : e.kind = .lpsolve) (ho : e.Owns w.native n (.lpsolve q)) {b : Bound}
    (h : (rowBounds e.kind b).length ≤ rows) :
    (e.addRow b).on (w.allowing columns rows) =
      (.ok (rowNumbers q.rows.size (rowBounds e.kind b).length),
        (w.afterAll (e.rowsCalls q.rows.size (rowBounds e.kind b))).allowing columns
          (rows - (rowBounds e.kind b).length)) := by
  rw [hk] at h ⊢
  unfold addRow
  -- two rows for two different sides, none for a bound that is free, one otherwise
  rcases rowBounds_cases b with ⟨hb, hbs⟩ | ⟨hb, hbs⟩ | ⟨hdouble, hfree, hbs⟩
  · rw [hbs] at h ⊢
    obtain ⟨rows, rfl⟩ : ∃ k, rows = k + 1 + 1 := ⟨rows - 2, by simp at h; omega⟩
    let upper : Bound := ⟨.upper, 0, b.upper⟩
    have hfirst : (e.addBoundedRow upper).on (w.allowing columns (rows + 1 + 1)) = _ :=
      on_addBoundedRow_succ hk ho (by simp [upper])
    have hsecond : (e.addBoundedRow ⟨.lower, b.lower, 0⟩).on
        ((w.afterAll (e.rowCalls q.rows.size upper)).allowing columns (rows + 1)) = _ :=
      on_addBoundedRow_succ hk (owns_after_row ho hk upper) (by simp)
    rw [if_pos ⟨hk, hb⟩, on_bind_of_ok hfirst, on_bind_of_ok hsecond]
    simp [upper, rowsCalls, rowNumbers, List.range_succ]
  · rw [hbs, if_neg (by simp [hb]), if_pos (by simp [hb, hk, EngineKind.storesFreeRows])]
    rfl
  · rw [hbs] at h ⊢
    obtain ⟨rows, rfl⟩ : ∃ k, rows = k + 1 := ⟨rows - 1, by simp at h; omega⟩
    rw [if_neg (by simp [hdouble]), if_neg (by simp [hfree]),
      on_bind_of_ok (on_addBoundedRow_succ hk ho hdouble)]
    simp [rowsCalls, rowNumbers]

/-- A row that lp_solve does not add is refused, after the rows before it have been completed. -/
theorem on_addRow_of_lt (hk : e.kind = .lpsolve) (ho : e.Owns w.native n (.lpsolve q)) {b : Bound}
    (h : rows < (rowBounds e.kind b).length) :
    (e.addRow b).on (w.allowing columns rows) =
      (.error (.noMemory .row), (w.afterAll (e.rowsCalls q.rows.size ((rowBounds e.kind b).take rows) ++
        [e.rowCountCall])).allowing columns 0) := by
  rw [hk] at h ⊢
  unfold addRow
  rcases rowBounds_cases b with ⟨hb, hbs⟩ | ⟨hb, hbs⟩ | ⟨hdouble, hfree, hbs⟩
  · rw [hbs] at h ⊢
    rw [if_pos ⟨hk, hb⟩]
    -- with room for one of the two rows, the first one has been completed
    match rows with
    | 0 =>
      rw [on_bind_of_error (on_addBoundedRow_zero hk ho _)]
      rfl
    | 1 =>
      have hsecond : (e.addBoundedRow ⟨.lower, b.lower, 0⟩).on
          ((w.afterAll (e.rowCalls q.rows.size ⟨.upper, 0, b.upper⟩)).allowing columns 0) = _ :=
        on_addBoundedRow_zero hk (owns_after_row ho hk ⟨.upper, 0, b.upper⟩) _
      rw [on_bind_of_ok (on_addBoundedRow_succ hk ho (by simp)), on_bind_of_error hsecond]
      simp [rowsCalls]
    | rows + 2 =>
      have htwo : rows + 2 < 2 := h
      omega
  · rw [hbs] at h
    simp at h
  · rw [hbs] at h ⊢
    obtain rfl : rows = 0 := by simpa using h
    rw [if_neg (by simp [hdouble]), if_neg (by simp [hfree]),
      on_bind_of_error (on_addBoundedRow_zero hk ho b)]
    rfl

/-- Each new column is one addition. -/
theorem countP_newColumnsCalls (hk : e.kind = .lpsolve) (count : Nat) :
    (e.newColumnsCalls count).countP (·.isAddition) = count := by
  have hadd : ∀ c ∈ List.replicate count (Native.Call.lpsolve (.addColumn e.number)),
      c.isAddition = true := by
    intro c hc
    rw [List.eq_of_mem_replicate hc]
    rfl
  unfold newColumnsCalls columnCountCall
  simp only [hk]
  rw [List.countP_cons_of_neg Bool.false_ne_true, List.countP_eq_length.mpr hadd, List.length_replicate]

/-- Each new row is one addition. -/
theorem countP_rowsCalls (hk : e.kind = .lpsolve) (count : Nat) (bs : List Bound) :
    (e.rowsCalls count bs).countP (·.isAddition) = bs.length := by
  induction bs generalizing count with
  | nil => rfl
  | cons b rest ih =>
    -- one addition for each row; the type and the side are set by other calls
    have hone : (e.rowCalls count b).countP (·.isAddition) = 1 := by
      unfold rowCalls rowCountCall
      simp only [hk]
      cases LpSolve.rowSide? b <;> rfl
    rw [rowsCalls, List.countP_append, hone, ih, List.length_cons, Nat.add_comm]

end Engine

/-! ## §3 What is left behind -/

namespace World

variable {w w' : World} {n : Nat} {q : LpSolve.Problem} {columns : Nat} {rows : List LpSolve.Row}

/-- Nothing came of an addition but these columns and rows at the end of problem `n`. -/
structure Abandoned (w w' : World) (n : Nat) (q : LpSolve.Problem) (columns : Nat)
    (rows : List LpSolve.Row) : Prop where
  compliant : w'.Compliant
  models : w'.models = w.models
  problem : w'.native.problem? n = some (.lpsolve
    { q with
      columns := q.columns ++ Array.replicate columns LpSolve.Column.fresh
      rows := q.rows ++ rows.toArray })
  others : ∀ k, k ≠ n → w'.native.problem? k = w.native.problem? k
  additions : (w.callsSince w').countP (·.isAddition) = columns + rows.length

/-- Calls that add columns and rows, and nothing else, leave a problem that was given up half-way. -/
theorem Abandoned.of_calls (hw : w.Compliant) (hq : w.native.problem? n = some (.lpsolve q))
    {cs : List Native.Call} (hcs : ∀ c ∈ cs, c.IsAbout n)
    (happly : (Native.Problem.lpsolve q).applyAll cs = .lpsolve
      { q with
        columns := q.columns ++ Array.replicate columns LpSolve.Column.fresh
        rows := q.rows ++ rows.toArray })
    (hcount : cs.countP (·.isAddition) = columns + rows.length) :
    Abandoned w (w.afterAll cs) n q columns rows where
  compliant := hw.afterAll cs
  models := afterAll_models w cs
  problem := by
    rw [afterAll_native, Native.Store.problem?_applyAll hcs, if_pos rfl, hq, Option.map_some, happly]
  others k hk := by rw [afterAll_native, Native.Store.problem?_applyAll hcs, if_neg hk]
  additions := by rw [callsSince_afterAll, hcount]

/-- All problems are as they were exactly if nothing is left. -/
theorem Abandoned.unchanged_iff (h : Abandoned w w' n q columns rows)
    (hq : w.native.problem? n = some (.lpsolve q)) :
    (∀ k, w'.native.problem? k = w.native.problem? k) ↔ columns = 0 ∧ rows = [] := by
  constructor
  · intro hsame
    have hproblem := h.problem
    rw [hsame n, hq] at hproblem
    have hq' := LpSolve.Problem.mk.inj (Native.Problem.lpsolve.inj (Option.some.inj hproblem))
    obtain ⟨-, -, hcolumns, hrows, -⟩ := hq'
    -- the sizes alone tell: nothing can have been appended
    have hcolumnsSize := congrArg Array.size hcolumns
    have hrowsSize := congrArg Array.size hrows
    simp only [Array.size_append, Array.size_replicate, List.size_toArray] at hcolumnsSize hrowsSize
    exact ⟨by omega, List.eq_nil_of_length_eq_zero (by omega)⟩
  · rintro ⟨rfl, rfl⟩ k
    by_cases hk : k = n
    · subst hk
      rw [h.problem, hq]
      simp
    · exact h.others k hk

/-- What an addition leaves behind changes the kind of no problem. -/
theorem Abandoned.kind?_eq (h : Abandoned w w' n q columns rows)
    (hq : w.native.problem? n = some (.lpsolve q)) (k : Nat) :
    (w'.native.core? k).map (·.kind?) = (w.native.core? k).map (·.kind?) := by
  unfold Native.Store.core?
  by_cases hk : k = n
  · subst hk
    rw [h.problem, hq]
    rfl
  · rw [h.others k hk]

/-- An addition that is refused keeps a state sound. -/
theorem Abandoned.sound (h : Abandoned w w' n q columns rows)
    (hq : w.native.problem? n = some (.lpsolve q)) (hs : w.Sound) : w'.Sound := by
  have hmodels (k : ModelId) : w'.modelCore? k = w.modelCore? k := by
    rw [modelCore?, model?, h.models]
    rfl
  -- the problem is of the same kind, so whoever holds it now held it before
  have hback {m₁ model₁ n₁ q₁} (hh : w'.Holds m₁ model₁ n₁ q₁) : ∃ q₂, w.Holds m₁ model₁ n₁ q₂ := by
    have hkind := h.kind?_eq hq n₁
    rw [hh.problem, Option.map_some] at hkind
    obtain ⟨q₂, hq₂, hsame⟩ := Option.map_eq_some_iff.mp hkind.symm
    exact ⟨q₂, hmodels m₁ ▸ hh.found, hh.unfreed, hh.number, hq₂, hsame.trans hh.kind⟩
  refine ⟨h.compliant, fun {m₁ model₁} hm hf => ?_, fun h₁ h₂ => ?_⟩
  · obtain ⟨n₁, q₁, hh⟩ := hs.holds (hmodels m₁ ▸ hm) hf
    have hkind := h.kind?_eq hq n₁
    rw [hh.problem, Option.map_some] at hkind
    obtain ⟨q₂, hq₂, hsame⟩ := Option.map_eq_some_iff.mp hkind
    exact ⟨n₁, q₂, hm, hf, hh.number, hq₂, hsame.trans hh.kind⟩
  · obtain ⟨q₁, hh₁⟩ := hback h₁
    obtain ⟨q₂, hh₂⟩ := hback h₂
    exact hs.apart hh₁ hh₂

/-! ## §4 Looking at a model while additions are limited -/

/-- Nothing happened but reads, some of which may have been refused. -/
structure Looked (w w' : World) : Prop where
  models : w'.models = w.models
  native : w'.native = w.native
  calls : ∃ cs : List Native.Call, w'.calls = w.calls ++ cs.toArray ∧ ∀ c ∈ cs, c.isRead = true

instance (w : World) : ReadClosed (Looked w) where
  call {c} hc w₁ h := by
    have hnative : w₁.native.apply c = w₁.native := by
      rcases c with c | c <;> cases c <;> first | rfl | cases hc
    rw [on_call]
    cases spend c.function w₁.allowance with
    | none => exact h
    | some allowance =>
      obtain ⟨cs, hcs, hreads⟩ := h.calls
      refine ⟨h.models, hnative.trans h.native, cs ++ [c], ?_, ?_⟩
      · show w₁.calls.push c = _
        simp [hcs]
      · intro d hd
        rcases List.mem_append.mp hd with hd | hd
        · exact hreads d hd
        · exact List.mem_singleton.mp hd ▸ hc
  writings h := ⟨h.models, h.native, h.calls⟩

theorem Looked.of_allowing (w : World) (columns rows : Nat) : Looked w (w.allowing columns rows) :=
  ⟨rfl, rfl, [], by simp [allowing], by simp⟩

/-- Who only looked has left nothing behind. -/
theorem Looked.abandoned (h : Looked w w') (hq : w.native.problem? n = some (.lpsolve q)) :
    Abandoned w w'.unlimited n q 0 [] where
  compliant := rfl
  models := h.models
  problem := by
    show w'.native.problem? n = _
    rw [h.native, hq]
    simp
  others k _ := by
    show w'.native.problem? k = _
    rw [h.native]
  additions := by
    obtain ⟨cs, hcs, hreads⟩ := h.calls
    rw [show w.callsSince w'.unlimited = cs from callsSince_of_calls cs hcs]
    refine List.countP_eq_zero.mpr fun c hc => ?_
    have hread := hreads c hc
    -- a query adds neither a column nor a row
    rcases c with c | c <;> cases c <;> first | exact Bool.false_ne_true | cases hread

end World

/-! ## §5 Operations while additions are limited -/

/-- The operation adds something to model `m`. -/
def Operation.Adds (m : ModelId) : Operation → Prop
  | addVariable m' .. | addVariables m' .. | addConstraint m' .. => m' = m
  | _ => False

namespace Model

variable {w : World} {m : ModelId} {model : Model} {n : Nat} {q : LpSolve.Problem} {columns rows : Nat}

/-- Adding columns is refused before lp_solve is asked for one, or it adds all of them, or as many as
lp_solve still adds. -/
theorem on_addColumns_allowing (hm : w.model? m = some model) (hf : model.freed = false)
    (hk : model.engine.kind = .lpsolve) (ho : model.engine.Owns w.native n (.lpsolve q)) (count : Nat)
    (given : Nat → String) (d : VariableDraft) :
    (∃ fault, (addColumns m count given d).on (w.allowing columns rows) =
        (.error fault, (w.after model.engine.columnCountCall).allowing columns rows)) ∨
      (∃ names, names.length = count ∧ VariableName.Chosen given model.names q.columns.size names ∧
        (addColumns m count given d).on (w.allowing columns rows) = (.ok (newVariables m q.columns.size count),
          ((w.afterAll (newVariablesCalls model.engine d q.columns.size names)).modifyModel m
            (grown m q.columns.size names d.kind)).allowing (columns - count) rows)) ∨
      (columns < count ∧ (addColumns m count given d).on (w.allowing columns rows) =
        (.error (.noMemory .column), (w.afterAll (model.engine.columnCountCall ::
          model.engine.newColumnsCalls columns)).allowing 0 rows)) := by
  have ho₁ : model.engine.Owns (w.after model.engine.columnCountCall).native n (.lpsolve q) := by
    rw [Engine.native_after_columnCountCall]
    exact ho
  obtain ⟨r, hpick, hprops⟩ := on_pickNames model.engine model.names given count q.columns.size
  have hopen := Action.on_openModel_of_open (w := w.allowing columns rows) hm hf
  unfold addColumns
  rw [on_bind_of_ok hopen, on_bind_of_ok (Engine.on_columnCount_allowing ho)]
  cases r with
  | error fault => exact Or.inl ⟨fault, on_bind_of_error (hpick _) _⟩
  | ok names =>
    obtain ⟨hlen, hnames, hchosen⟩ := hprops names rfl
    subst hlen
    rw [on_bind_of_ok (hpick _)]
    -- the names are chosen before it shows whether there is room for all columns
    rcases Nat.lt_or_ge columns names.length with hlt | hle
    · exact Or.inr (Or.inr ⟨hlt, on_bind_of_error (Engine.on_addColumns_of_lt hk ho₁ hlt) _⟩)
    · right; left
      refine ⟨names, rfl, hchosen, ?_⟩
      rw [on_bind_of_ok (Engine.on_addColumns_of_le hk ho₁ hle)]
      refine (on_enterColumns World.lenient_allowing hnames m d q.columns.size).trans ?_
      rw [World.allowing_afterAll]
      simp only [newVariablesCalls, World.afterAll_cons, World.afterAll_append]
      rfl

/-- Adding a constraint is refused by a check, or it adds all of its rows, or as many as lp_solve still
adds. -/
theorem on_addConstraint_allowing (hm : w.model? m = some model) (hf : model.freed = false)
    (hk : model.engine.kind = .lpsolve) (ho : model.engine.Owns w.native n (.lpsolve q))
    (lower upper : Number) (arguments : List VariableArgument) (coefficients : List Number) :
    (∃ fault w', (addConstraint m lower upper arguments coefficients).on (w.allowing columns rows) =
        (.error fault, w') ∧ w.Looked w') ∨
      ∃ (c : Constraint) (l : _), c.Describes m model.kinds.length lower upper arguments coefficients ∧
        let bounds := c.rowBounds model.engine
        (addConstraint m lower upper arguments coefficients).on (w.allowing columns rows) =
            (.ok (), { ((w.afterAll (model.engine.rowsCalls q.rows.size bounds)).modifyModel m
              (constrained c.terms (Engine.rowNumbers q.rows.size bounds.length))).allowing columns
                (rows - bounds.length) with writings := l }) ∨
          (rows < bounds.length ∧
            (addConstraint m lower upper arguments coefficients).on (w.allowing columns rows) =
              (.error (.noMemory .row), (w.afterAll (model.engine.rowsCalls q.rows.size
                (bounds.take rows) ++ [model.engine.rowCountCall])).allowing columns 0)) := by
  rcases addConstraint_cases (w := w.allowing columns rows) hm hf lower upper arguments coefficients with
    ⟨fault, w', hon, hw'⟩ | ⟨b, cs, vars, hb, hcs, hcheck, hlen, hon⟩
  · refine Or.inl ⟨fault, w', hon, ?_⟩
    have hlooked := World.Looked.of_allowing w columns rows
    rcases hw' with rfl | rfl
    · exact hlooked
    · exact reads_checkVariables m model.kinds.length arguments _ hlooked
  · right
    obtain ⟨-, hargs, hvars⟩ := on_checkVariables_ok hcheck
    let c : Constraint := ⟨b, (vars.map Variable.column).zip cs⟩
    have hc : c.Describes m model.kinds.length lower upper arguments coefficients :=
      ⟨hb, vars, cs, hargs, hcs, hlen, hvars, rfl⟩
    -- the arguments are checked before it shows whether there is room for all rows
    rcases Nat.lt_or_ge rows (c.rowBounds model.engine).length with hlt | hle
    · rw [on_bind_of_error (Engine.on_addRow_of_lt hk ho hlt)] at hon
      exact ⟨c, w.writings, hc, Or.inr ⟨hlt, hon⟩⟩
    · let v := (w.afterAll (model.engine.rowsCalls q.rows.size (c.rowBounds model.engine))).allowing columns
        (rows - (c.rowBounds model.engine).length)
      have hv : v.model? m = some model := (World.afterAll_model? w _ m).trans hm
      obtain ⟨l, hlast⟩ := on_enterRows hv c.terms
        (Engine.rowNumbers q.rows.size (c.rowBounds model.engine).length)
      rw [on_bind_of_ok (Engine.on_addRow_of_le hk ho hle)] at hon
      exact ⟨c, l, hc, Or.inl (hon.trans hlast)⟩

end Model

namespace World

variable {w : World} {m : ModelId} {model : Model} {n : Nat} {q : LpSolve.Problem} {columns rows : Nat}
  {o : Operation}

/-- What can come of an addition while additions are limited: it happens, or it is abandoned with as many
columns or rows as lp_solve still added. -/
def Settled (w : World) (m : ModelId) (n : Nat) (q : LpSolve.Problem) (columns rows : Nat) :
    Except Fault Answer → World → Prop
  | .ok _, w' => ∃ f cs, (∀ model, (f model).freed = model.freed ∧ (f model).engine = model.engine) ∧
      (∀ model, ∀ v ∈ (f model).vars, v ∈ model.vars ∨ v.model = m ∧ 0 ≤ v.index) ∧ Edits w w' m f n cs
  | .error _, w' => ∃ k left, k ≤ columns ∧ left.length ≤ rows ∧ Abandoned w w' n q k left

/-- Adding columns within limits ends as without them, or after as many columns as may be added. -/
private theorem settled_addColumns (hw : w.Compliant) (hm : w.model? m = some model)
    (hf : model.freed = false) (hk : model.engine.kind = .lpsolve)
    (ho : model.engine.Owns w.native n (.lpsolve q)) (answer : List Variable → Answer) (count : Nat)
    (given : Nat → String) (d : Model.VariableDraft) {r : Except Fault (List Variable) × World}
    (hr : (Model.addColumns m count given d).on (w.allowing columns rows) = r) :
    Settled w m n q columns rows (r.1.map answer) r.2.unlimited := by
  have hn := ho.number
  rcases Model.on_addColumns_allowing hm hf hk ho count given d with
    ⟨fault, hon⟩ | ⟨names, -, -, hon⟩ | ⟨-, hon⟩
  · obtain rfl := hr.symm.trans hon
    have hlooked : Looked w ((w.after model.engine.columnCountCall).allowing columns rows) := by
      refine ⟨rfl, Engine.native_after_columnCountCall _ w, [model.engine.columnCountCall], ?_, ?_⟩
      · simp [after, allowing]
      · simp [Engine.columnCountCall, hk, Native.Call.isRead, LpSolve.Call.isRead]
    exact ⟨0, [], Nat.zero_le _, Nat.zero_le _, hlooked.abandoned ho.found⟩
  · obtain rfl := hr.symm.trans hon
    have hedits := Edits.of_eq hw (f := Model.grown m q.columns.size names d.kind) (fun _ => rfl)
      (Model.isAbout_newVariablesCalls model.engine d q.columns.size names) (m := m)
    refine ⟨Model.grown m q.columns.size names d.kind,
      Model.newVariablesCalls model.engine d q.columns.size names, fun _ => ⟨rfl, rfl⟩,
      fun _ _ => Model.mem_vars_grown, ?_⟩
    dsimp only
    rw [((hw.afterAll _).modifyModel m _).unlimited_allowing]
    exact hn ▸ hedits
  · -- the columns that were added remain, without a variable of the model
    obtain rfl := hr.symm.trans hon
    refine ⟨columns, [], Nat.le_refl _, Nat.zero_le _, ?_⟩
    dsimp only
    rw [(hw.afterAll _).unlimited_allowing]
    refine Abandoned.of_calls hw ho.found ?_ ?_ ?_
    · intro c hc
      rcases List.mem_cons.mp hc with rfl | hc
      · exact hn ▸ Engine.isAbout_columnCountCall model.engine
      · exact hn ▸ Engine.isAbout_newColumnsCalls model.engine columns c hc
    · have hread : (Native.Problem.lpsolve q).apply model.engine.columnCountCall = .lpsolve q := by
        simp [Engine.columnCountCall, hk, Native.Problem.apply, LpSolve.Problem.apply]
      rw [Native.Problem.applyAll_cons, hread, Engine.applyAll_newColumnsCalls_lpsolve hk]
      simp
    · have hread : model.engine.columnCountCall.isAddition = false := by
        simp only [Engine.columnCountCall, hk]
        rfl
      rw [List.countP_cons_of_neg (by simp [hread]), Engine.countP_newColumnsCalls hk]
      rfl

/-- Adding a constraint within limits ends as without them, or after as many rows as may be added. -/
private theorem settled_addConstraint (hw : w.Compliant) (hm : w.model? m = some model)
    (hf : model.freed = false) (hk : model.engine.kind = .lpsolve)
    (ho : model.engine.Owns w.native n (.lpsolve q)) (lower upper : Number)
    (arguments : List VariableArgument) (coefficients : List Number) {r : Except Fault Unit × World}
    (hr : (Model.addConstraint m lower upper arguments coefficients).on (w.allowing columns rows) = r) :
    Settled w m n q columns rows (r.1.map fun _ => .done) r.2.unlimited := by
  have hn := ho.number
  rcases Model.on_addConstraint_allowing hm hf hk ho lower upper arguments coefficients with
    ⟨fault, w', hon, hlooked⟩ | ⟨c, l, -, hon | ⟨hlt, hon⟩⟩
  · obtain rfl := hr.symm.trans hon
    exact ⟨0, [], Nat.zero_le _, Nat.zero_le _, hlooked.abandoned ho.found⟩
  · obtain rfl := hr.symm.trans hon
    let bounds := c.rowBounds model.engine
    let f := Model.constrained c.terms (Engine.rowNumbers q.rows.size bounds.length)
    let v := (w.afterAll (model.engine.rowsCalls q.rows.size bounds)).modifyModel m f
    have hv : v.Compliant := (hw.afterAll _).modifyModel m _
    have hedits : Edits w v m f n (model.engine.rowsCalls q.rows.size bounds) :=
      Edits.of_eq hw (f := f) (fun _ => rfl)
        (hn ▸ Engine.isAbout_rowsCalls model.engine q.rows.size bounds)
    refine ⟨f, model.engine.rowsCalls q.rows.size bounds, fun _ => ⟨rfl, rfl⟩, fun _ _ hv => .inl hv, ?_⟩
    -- beside the edit, there may be a record
    have hidle : Idling v { v with writings := l } := (Idling.kept v).writings (Idling.refl hv)
    have hstate : ({ v with writings := l } : World) =
        { v.allowing columns (rows - bounds.length) with writings := l }.unlimited := by
      unfold unlimited allowing
      rw [← show v.allowance = [] from hv]
    exact hstate ▸ hedits.andThen (Undisturbed.of_idling hidle)
  · obtain rfl := hr.symm.trans hon
    let bounds := c.rowBounds model.engine
    have hrows : ((bounds.take rows).map LpSolve.rowOf).length ≤ rows := by
      rw [List.length_map]
      exact List.length_take_le ..
    refine ⟨0, (bounds.take rows).map LpSolve.rowOf, Nat.zero_le _, hrows, ?_⟩
    dsimp only
    rw [(hw.afterAll _).unlimited_allowing]
    refine Abandoned.of_calls hw ho.found ?_ ?_ ?_
    · intro c hc
      rcases List.mem_append.mp hc with hc | hc
      · exact hn ▸ Engine.isAbout_rowsCalls model.engine q.rows.size _ c hc
      · exact List.mem_singleton.mp hc ▸ hn ▸ Engine.isAbout_rowCountCall model.engine
    · rw [Native.Problem.applyAll_append, Engine.applyAll_rowsCalls_lpsolve hk]
      simp [Engine.rowCountCall, hk, Native.Problem.apply, LpSolve.Problem.apply, bounds]
    · have hread : model.engine.rowCountCall.isAddition = false := by
        simp only [Engine.rowCountCall, hk]
        rfl
      rw [List.countP_append, Engine.countP_rowsCalls hk, List.countP_singleton, hread, List.length_map,
        if_neg Bool.false_ne_true, Nat.add_comm]

/-- What comes of an operation that adds something. -/
theorem settled_limited (hw : w.Compliant) (hm : w.model? m = some model) (hf : model.freed = false)
    (hk : model.engine.kind = .lpsolve) (hq : model.engine.Owns w.native n (.lpsolve q))
    (ho : o.Adds m) (columns rows : Nat) :
    Settled w m n q columns rows (o.run.on (w.allowing columns rows)).1 (w.limited columns rows o) := by
  -- a check of the arguments fails before lp_solve is asked for anything
  have hcheck (fault : Fault) : Settled w m n q columns rows (.error fault)
      (w.allowing columns rows).unlimited :=
    ⟨0, [], Nat.zero_le _, Nat.zero_le _, (Looked.of_allowing w columns rows).abandoned hq.found⟩
  unfold limited next
  cases o with
  | addVariable m' name kind c l u =>
    obtain rfl : m' = m := ho
    unfold Operation.run Model.addVariable
    rw [on_map]
    cases Model.VariableDraft.read kind c l u with
    | error fault => exact hcheck fault
    | ok d =>
      rw [on_bind_of_ok (on_lift _ _), on_bind]
      rcases hadd : (Model.addColumns m' 1 (fun _ => name) d).on (w.allowing columns rows) with ⟨r, w'⟩
      have h := settled_addColumns hw hm hf hk hq
        (fun vars => .variables [vars.headD ⟨m', -1⟩]) 1 (fun _ => name) d hadd
      rcases r with fault | vars
      · exact h
      · exact h
  | addVariables m' count stem kind c l u =>
    obtain rfl : m' = m := ho
    unfold Operation.run Model.addVariables
    rw [on_map]
    by_cases hneg : count < 0
    · rw [if_pos hneg]
      exact hcheck _
    · rw [if_neg hneg]
      cases Model.VariableDraft.read kind c l u with
      | error fault => exact hcheck fault
      | ok d =>
        rw [on_bind_of_ok (on_lift _ _)]
        exact settled_addColumns hw hm hf hk hq .variables count.toNat _ d rfl
  | addConstraint m' l u arguments cs =>
    obtain rfl : m' = m := ho
    unfold Operation.run
    rw [on_map]
    exact settled_addConstraint hw hm hf hk hq l u arguments cs rfl
  | _ => exact ho.elim

/-- A session in which lp_solve may run out of memory whenever something is added, and recovers. -/
inductive Reachable : World → Prop
  | initial : Reachable initial
  | next {w : World} (h : Reachable w) (o : Operation) : Reachable (w.next o)
  | limited {w : World} {m : ModelId} {model : Model} {o : Operation} (h : Reachable w)
      (hm : w.model? m = some model) (hf : model.freed = false) (hk : model.engine.kind = .lpsolve)
      (ho : o.Adds m) (columns rows : Nat) : Reachable (w.limited columns rows o)

theorem Reachable.nextAll (h : w.Reachable) (os : List Operation) : (w.nextAll os).Reachable := by
  induction os generalizing w with
  | nil => exact h
  | cons o rest ih => exact ih (h.next o)

/-- The problem that an open model of lp_solve owns. -/
theorem Sound.owns_lpsolve (hs : w.Sound) (hm : w.model? m = some model)
    (hf : model.freed = false) (hk : model.engine.kind = .lpsolve) :
    ∃ n q, model.engine.Owns w.native n (.lpsolve q) := by
  obtain ⟨n, p, -, ho⟩ := hs.holds_of_model? hm hf
  have hkind := ho.kind
  rw [hk] at hkind
  -- the kind of the engine is that of its problem
  cases p with
  | lpsolve q => exact ⟨n, q, ho⟩
  | glpk q => cases hkind
  | deleted => cases hkind

/-- Running out of memory does no harm to which model holds which problem. -/
theorem Reachable.sound (h : w.Reachable) : w.Sound := by
  induction h with
  | initial => exact sound_initial
  | next _ o ih => exact sound_next ih o
  -- an addition under a limit is made in full or is abandoned half way
  | @limited w m model o _ hm hf hk ho columns rows ih =>
    obtain ⟨n, q, hq⟩ := ih.owns_lpsolve hm hf hk
    have hsettled := settled_limited ih.compliant hm hf hk hq ho columns rows
    cases ha : (o.run.on (w.allowing columns rows)).1 with
    | ok a =>
      rw [ha] at hsettled
      obtain ⟨f, cs, hkeeps, -, hedits⟩ := hsettled
      exact hedits.sound ih (Holds.of_owns hm hf hq) (hkeeps _).1 (hkeeps _).2
    | error fault =>
      rw [ha] at hsettled
      obtain ⟨k, left, -, -, habandoned⟩ := hsettled
      exact habandoned.sound hq.found ih

/-- All models and all problems are as they were. -/
def AsBefore (w w' : World) : Prop :=
  w'.models = w.models ∧ ∀ n, w'.native.problem? n = w.native.problem? n

/-- **What an addition that lp_solve refuses leaves behind.** The columns and rows that had been added
remain at the end of the problem, and nothing else changes. So the state is as it was exactly if not even
the first column or row had been added. -/
theorem refused_addition (h : w.Reachable) (hm : w.model? m = some model) (hf : model.freed = false)
    (hk : model.engine.kind = .lpsolve) (ho : o.Adds m) {fault : Fault}
    (hfail : (o.run.on (w.allowing columns rows)).1 = .error fault) :
    ∃ n q k left, model.engine.problem = some n ∧ k ≤ columns ∧ left.length ≤ rows ∧
      w.native.problem? n = some (.lpsolve q) ∧ Abandoned w (w.limited columns rows o) n q k left ∧
      (w.AsBefore (w.limited columns rows o) ↔
        ∀ c ∈ w.callsSince (w.limited columns rows o), c.isAddition = false) := by
  obtain ⟨n, q, hq⟩ := h.sound.owns_lpsolve hm hf hk
  have hsettled := settled_limited h.sound.compliant hm hf hk hq ho columns rows
  rw [hfail] at hsettled
  obtain ⟨k, left, hcolumns, hrows, habandoned⟩ := hsettled
  refine ⟨n, q, k, left, hq.problem, hcolumns, hrows, hq.found, habandoned, ?_⟩
  -- nothing is left behind just when no addition was made
  have hnone : (∀ c ∈ w.callsSince (w.limited columns rows o), c.isAddition = false) ↔
      k = 0 ∧ left = [] := by
    rw [← List.length_eq_zero_iff, ← Nat.add_eq_zero_iff, ← habandoned.additions, List.countP_eq_zero]
    simp
  rw [hnone, ← habandoned.unchanged_iff hq.found]
  exact ⟨fun hbefore => hbefore.2, fun hsame => ⟨habandoned.models, hsame⟩⟩

/-- If lp_solve refuses the second row of an interval, the first one remains. -/
theorem half_of_constraint_remains :
    let os : List Operation := [.create "" (.text "minimize") [.engine (.named (.text "lpsolve"))],
      .addVariable 0 "x" (.text "continuous") (.int 1) (.int 0) (.int 4)]
    let o : Operation := .addConstraint 0 (.int 0) (.int 1) [.variable ⟨0, 0⟩] [.int 1]
    let w := initial.nextAll os
    (∃ fault, (o.run.on (w.allowing 0 1)).1 = .error fault) ∧ ¬ w.AsBefore (w.limited 0 1 o) := by
  intro os o w
  have hkind : (w.model? 0).map (fun model => (model.freed, model.engine.kind)) = some (false, .lpsolve) := by
    decide +kernel
  obtain ⟨model, hm, hmodel⟩ := Option.map_eq_some_iff.mp hkind
  obtain ⟨hf, hk⟩ := Prod.mk.inj hmodel
  have hfail : (o.run.on (w.allowing 0 1)).1.toOption = none := by decide +kernel
  cases ha : (o.run.on (w.allowing 0 1)).1 with
  | ok a =>
    rw [ha] at hfail
    cases hfail
  | error fault =>
    refine ⟨⟨fault, rfl⟩, fun hbefore => ?_⟩
    obtain ⟨-, -, -, -, -, -, -, -, -, hiff⟩ :=
      refused_addition (Reachable.initial.nextAll os) hm hf hk (o := o) rfl ha
    -- one row was added before the other was refused
    have hsome : ¬ ∀ c ∈ w.callsSince (w.limited 0 1 o), c.isAddition = false := by decide +kernel
    exact hsome (hiff.mp hbefore)

/-- If lp_solve refuses the third of three columns, the model counts two variables that it does not
list. -/
theorem columns_without_variables :
    let os : List Operation := [.create "" (.text "minimize") [.engine (.named (.text "lpsolve"))]]
    let o : Operation := .addVariables 0 3 "" (.text "continuous") (.int 1) (.int 0) (.int 1)
    let w := initial.nextAll os
    w.Reachable ∧ (o.run.on (w.allowing 2 0)).1.toOption = none ∧
      ((Model.variableCount 0).on w).1.toOption = some 0 ∧
      ((Model.variableCount 0).on (w.limited 2 0 o)).1.toOption = some 2 ∧
      ((Model.listVariables 0).on (w.limited 2 0 o)).1.toOption = some [] := by
  intro os o w
  refine ⟨Reachable.initial.nextAll os, ?_, ?_, ?_, ?_⟩ <;> decide +kernel

end World

end LinearProgram
