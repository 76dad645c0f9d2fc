import LinearProgram.Matrix.Compressed
import LinearProgram.Proofs.Shortage
import LinearProgram.Proofs.Triplets

/-!
# The coefficients as a matrix

Coefficients are shown as a matrix in compressed rows, and handed to a solver as triplets. Both come from
the same coalesced entries, but the triplets count from one after an unused element, and the matrix counts
from zero after a row and a column that are cut off. This module says that the two are one matrix:
`Compressed.Shows`.

First, what a matrix of sorted entries is: well-formed, and made of these entries when it is read through
its row pointers, `Compressed.toList_ofSorted`. Then, when there is such a matrix: `Entries.compressed_extended`.
Since the coefficients of a model stand at rows and columns of its problem, in every reachable state, a model
can always show its matrix, and this is the one that a solve hands over: `Compressed.shown`.
-/

namespace LinearProgram

namespace Compressed

/-! ## §1 Reading rows of sorted entries -/

/-- In a list sorted by row, the entries before a row come first, as many as there are. -/
private theorem take_drop_countP {es : List Entry} (h : es.Pairwise fun a b => a.row ≤ b.row) (k : Int) :
    es.take (es.countP fun e => decide (e.row < k)) = es.filter (fun e => decide (e.row < k)) ∧
      es.drop (es.countP fun e => decide (e.row < k)) = es.filter fun e => decide (k ≤ e.row) := by
  induction es with
  | nil => exact ⟨rfl, rfl⟩
  | cons e rest ih =>
    obtain ⟨hfirst, hrest⟩ := List.pairwise_cons.mp h
    by_cases he : e.row < k
    · obtain ⟨htake, hdrop⟩ := ih hrest
      have hnot : ¬ k ≤ e.row := by omega
      simp [he, hnot, htake, hdrop]
    · -- from here on, all entries are in later rows
      have hlater : ∀ e' ∈ e :: rest, k ≤ e'.row := by
        intro e' he'
        rcases List.mem_cons.mp he' with rfl | he'
        · omega
        · have hle := hfirst e' he'
          omega
      have hnone : ∀ e' ∈ e :: rest, ¬ decide (e'.row < k) = true := fun e' he' => by
        have hle := hlater e' he'
        simp only [decide_eq_true_eq]
        omega
      rw [List.countP_eq_zero.mpr hnone, List.filter_eq_nil_iff.mpr hnone,
        List.filter_eq_self.mpr fun e' he' => decide_eq_true (hlater e' he')]
      exact ⟨rfl, rfl⟩

variable {height width : Nat} {es : List Entry}

private theorem start_ofSorted {i : Nat} (hi : i ≤ height) :
    ((ofSorted height width es).starts[i]?).getD 0 = (es.countP fun e => decide (e.row < (i : Int)) : Nat) := by
  have hlt : i < height + 1 := by omega
  simp [ofSorted, hlt]

/-- Row `i` of a matrix of sorted entries has the entries of that row. -/
theorem row_ofSorted (hes : es.Pairwise fun a b => a.row ≤ b.row) {i : Nat} (hi : i < height) :
    (ofSorted height width es).row i =
      (es.filter fun e => e.row == (i : Int)).map fun e => (e.column, e.value) := by
  have hzip : (ofSorted height width es).columns.zip (ofSorted height width es).values =
      es.map fun e => (e.column, e.value) := List.zip_map' ..
  have hupTo := (take_drop_countP hes ((i + 1 : Nat) : Int)).1
  -- among the entries up to the row, those before it are dropped
  have hbefore : es.countP (fun e => decide (e.row < (i : Int))) =
      (es.filter fun e => decide (e.row < ((i + 1 : Nat) : Int))).countP fun e => decide (e.row < (i : Int)) := by
    rw [List.countP_filter]
    refine List.countP_congr fun e _ => ?_
    simp only [Bool.and_eq_true, decide_eq_true_eq]
    omega
  unfold row
  dsimp only
  rw [start_ofSorted (Nat.le_of_lt hi), start_ofSorted hi, hzip, slice_ofNat, ← List.map_take, ← List.map_drop,
    hupTo, hbefore, (take_drop_countP (hes.filter _) (i : Int)).2, List.filter_filter]
  congr 1
  refine List.filter_congr fun e _ => ?_
  rw [Bool.eq_iff_iff]
  simp only [Bool.and_eq_true, decide_eq_true_eq, beq_iff_eq]
  omega

/-- Entries that are sorted by row are those of one row after the other. -/
private theorem flatten_rows (hes : es.Pairwise fun a b => a.row ≤ b.row) (hrows : ∀ e ∈ es, 0 ≤ e.row)
    (k : Nat) : ((List.range k).map fun i => es.filter fun e => e.row == Int.ofNat i).flatten =
      es.filter fun e => decide (e.row < (k : Int)) := by
  induction k with
  | zero =>
    refine (List.filter_eq_nil_iff.mpr fun e he => ?_).symm
    have hle := hrows e he
    simp only [decide_eq_true_eq]
    omega
  | succ k ih =>
    -- the entries up to a row are those before it and those in it
    have hsplit := take_drop_countP (hes.filter fun e => decide (e.row < ((k + 1 : Nat) : Int))) (k : Int)
    rw [List.range_succ, List.map_append, List.flatten_append, ih, List.map_singleton, List.flatten_singleton,
      ← List.take_append_drop (List.countP (fun e => decide (e.row < (k : Int)))
        (es.filter fun e => decide (e.row < ((k + 1 : Nat) : Int))))
        (es.filter fun e => decide (e.row < ((k + 1 : Nat) : Int))), hsplit.1, hsplit.2,
      List.filter_filter, List.filter_filter]
    congr 1 <;>
    · refine List.filter_congr fun e _ => ?_
      rw [Bool.eq_iff_iff]
      simp only [Bool.and_eq_true, decide_eq_true_eq, beq_iff_eq, Int.ofNat_eq_natCast]
      omega

/-- **A matrix of sorted entries has these entries**, if they lie in it. -/
theorem toList_ofSorted (hes : es.Pairwise Entry.Precedes) (hinside : ∀ e ∈ es, e.Inside height width) :
    (ofSorted height width es).toList = es := by
  have hsorted := hes.imp Entry.Precedes.row_le
  -- row `i` of the matrix holds the entries of row `i`, in their order
  have hrow : ∀ i ∈ List.range height, ((ofSorted height width es).row i).map
      (fun x => (⟨i, x.1, x.2⟩ : Entry)) = es.filter fun e => e.row == Int.ofNat i := by
    intro i hi
    rw [row_ofSorted hsorted (List.mem_range.mp hi), List.map_map]
    refine (List.map_congr_left fun e he => ?_).trans (List.map_id _)
    have hsame : e.row = (i : Int) := by simpa using (List.mem_filter.mp he).2
    simp [← hsame]
  refine (congrArg List.flatten (List.map_congr_left hrow)).trans ?_
  rw [flatten_rows hsorted (fun e he => (hinside e he).1)]
  exact List.filter_eq_self.mpr fun e he => decide_eq_true (hinside e he).2.1

/-- The row pointers begin with zero, do not decrease and end with the number of values, and there is one
for each row and one more. The columns exist, and they increase in each row. -/
structure WellFormed (c : Compressed) : Prop where
  starts_length : c.starts.length = c.height + 1
  first : c.starts.head? = some 0
  ordered : c.starts.Pairwise (· ≤ ·)
  last : c.starts.getLast? = some (c.values.length : Int)
  columns_length : c.columns.length = c.values.length
  columns : ∀ j ∈ c.columns, 0 ≤ j ∧ j < c.width
  increasing : ∀ i < c.height, ((c.row i).map (·.1)).Pairwise (· < ·)

/-- There can be so many rows exactly if the bytes of their pointers can be counted. -/
theorem checkPointers_eq {height : Int} (h : 0 ≤ height) :
    checkPointers height = if 8 * (height + 1) < indexLimit then .ok () else .error .hugePointers := by
  have hindex : isIndex (8 * (height + 1)) = true ↔ 8 * (height + 1) < indexLimit := by
    rw [isIndex_iff]
    unfold indexLimit
    omega
  unfold checkPointers
  simp only [hindex]

/-- A matrix of sorted entries is well-formed. -/
theorem wellFormed_ofSorted (hes : es.Pairwise Entry.Precedes) (hinside : ∀ e ∈ es, e.Inside height width) :
    (ofSorted height width es).WellFormed := by
  have hsorted := hes.imp Entry.Precedes.row_le
  refine ⟨by simp [ofSorted], ?_, ?_, ?_, by simp [ofSorted], ?_, ?_⟩
  · -- no entry lies before row zero, so that the first pointer is zero
    have hnone : es.countP (fun e => decide (e.row < 0)) = 0 := List.countP_eq_zero.mpr fun e he => by
      have hrow := (hinside e he).1
      simp only [decide_eq_true_eq]
      omega
    simp [ofSorted, List.range_succ_eq_map, hnone]
  · refine List.pairwise_map.mpr (List.pairwise_lt_range.imp fun {i j} hij => ?_)
    refine Int.ofNat_le.mpr (List.countP_mono_left fun e _ he => ?_)
    simp only [decide_eq_true_eq, Int.ofNat_eq_natCast] at he ⊢
    omega
  · -- every entry lies before the last row ends, so that the last pointer is their number
    have hall : es.countP (fun e => decide (e.row < (height : Int))) = es.length :=
      List.countP_eq_length.mpr fun e he => decide_eq_true (hinside e he).2.1
    simp [ofSorted, List.range_succ, hall]
  · intro j hj
    obtain ⟨e, he, rfl⟩ := List.mem_map.mp hj
    exact (hinside e he).2.2
  · intro i (hi : i < height)
    rw [row_ofSorted hsorted hi, List.map_map, List.pairwise_map]
    refine (hes.filter _).imp_of_mem fun ha hb hab => ?_
    have har := (List.mem_filter.mp ha).2
    have hbr := (List.mem_filter.mp hb).2
    simp only [beq_iff_eq] at har hbr
    unfold Entry.Precedes at hab
    simp only [Function.comp_apply]
    omega

end Compressed

namespace Entry

/-! ## §2 Counting from zero -/

/-- The entries counted from zero; row 0 and column 0 are cut off. -/
def inner (es : List Entry) : List Entry :=
  (es.filter fun x => decide (1 ≤ x.row ∧ 1 ≤ x.column)).map fun x =>
    { x with row := x.row - 1, column := x.column - 1 }

/-- The inner entries at a position are those at the position counted from one. -/
private theorem filter_inner (es : List Entry) {i j : Int} (hi : 0 ≤ i) (hj : 0 ≤ j) :
    (inner es).filter (isAt i j) = (es.filter (isAt (i + 1) (j + 1))).map fun x =>
      { x with row := x.row - 1, column := x.column - 1 } := by
  -- the first row and column are dropped, the others move up by one
  unfold inner
  rw [List.filter_map, List.filter_filter]
  refine congrArg (List.map _) (List.filter_congr fun x _ => ?_)
  rw [Bool.eq_iff_iff]
  simp only [Bool.and_eq_true, decide_eq_true_eq, Function.comp_apply, isAt_iff]
  omega

/-- An inner entry has the value of the entry at its position counted from one. -/
theorem valueAt_inner (es : List Entry) {i j : Int} (hi : 0 ≤ i) (hj : 0 ≤ j) :
    valueAt (inner es) i j = valueAt es (i + 1) (j + 1) := by
  unfold valueAt
  rw [← List.head?_filter, filter_inner es hi hj, List.head?_map, List.head?_filter]
  cases es.find? (isAt (i + 1) (j + 1)) <;> rfl

theorem cell_inner (es : List Entry) {i j : Int} (hi : 0 ≤ i) (hj : 0 ≤ j) :
    cell (inner es) i j = cell es (i + 1) (j + 1) := by
  unfold cell
  rw [filter_inner es hi hj, List.map_map]
  rfl

/-- Cutting off and counting anew keep the order. -/
theorem pairwise_inner {es : List Entry} (h : es.Pairwise Precedes) : (inner es).Pairwise Precedes := by
  refine List.pairwise_map.mpr ((h.filter _).imp fun hab => ?_)
  unfold Precedes at hab ⊢
  dsimp only
  omega

end Entry

namespace Compressed

open Entry

/-- The matrix shows triplets: it has so many rows and columns, is well-formed, and has their entries,
counted from zero, so that it has the same value at each position. -/
structure Shows (c : Compressed) (rows columns : Int) (t : Triplets) : Prop where
  height : (c.height : Int) = rows
  width : (c.width : Int) = columns
  wellFormed : c.WellFormed
  entries : c.toList = inner t.toList
  values : ∀ i j : Nat, i < c.height → j < c.width →
    valueAt c.toList i j = valueAt t.toList ((i : Int) + 1) ((j : Int) + 1)

end Compressed

namespace Entries

open Entry

/-- Entries are coalesced only in a shape that can be one. -/
theorem isIndex_of_coalesced {e : Entries} {rows columns : Int} {es : List Entry}
    (h : e.coalesced rows columns = .ok es) : isIndex rows = true ∧ isIndex columns = true := by
  unfold coalesced at h
  split_ifs at h with _ _ hshape
  simpa using hshape

/-- **Entries can be shown as a matrix exactly if they lie in it**, the ones that sum to zero included. One row
and one column more are counted on the way: then the columns still have to be a number of 64 bits, and so do the
bytes of the row pointers. -/
theorem compressed_extended_eq_ok_iff {es : List Entry} {rows columns : Int} {c : Compressed}
    (hes : ∀ x ∈ es, (0 ≤ x.row ∧ x.row ≤ 2147483647) ∧ 0 ≤ x.column ∧ x.column ≤ 2147483647)
    (hrows : 0 ≤ rows) (hcolumns : 0 ≤ columns) :
    (empty.extended es).compressed rows columns = .ok c ↔
      ((8 * (rows + 2) < indexLimit ∧ columns + 1 < indexLimit) ∧ ∀ x ∈ es, x.row ≤ rows ∧ x.column ≤ columns) ∧
        Compressed.ofSorted rows.toNat columns.toNat (inner (coalesce es)) = c := by
  have hindices : ∀ x ∈ es, isIndex x.row = true ∧ isIndex x.column = true := fun x hx => by
    have hsmall := hes x hx
    rw [isIndex_iff, isIndex_iff]
    unfold indexLimit
    omega
  have hinside : (∀ x ∈ es, x.Inside (rows + 1) (columns + 1)) ↔ ∀ x ∈ es, x.row ≤ rows ∧ x.column ≤ columns := by
    refine forall₂_congr fun x hx => ?_
    have hsmall := hes x hx
    unfold Inside
    omega
  have hshown (es' : List Entry) : (pure (Compressed.ofSorted rows.toNat columns.toNat (inner es')) :
      Except Fault Compressed) = .ok c ↔ Compressed.ofSorted rows.toNat columns.toNat (inner es') = c :=
    ⟨Except.ok.inj, congrArg Except.ok⟩
  have hunfold : (empty.extended es).compressed rows columns = (do
      let es' ← (empty.extended es).coalesced (rows + 1) (columns + 1)
      Compressed.checkPointers (rows + 1)
      return Compressed.ofSorted rows.toNat columns.toNat (inner es')) := rfl
  rw [hunfold]
  by_cases hshape : 8 * (rows + 2) < indexLimit ∧ columns + 1 < indexLimit
  · have hpointers : 8 * (rows + 1 + 1) < indexLimit := by omega
    rw [coalesced_extended hindices (by omega) (by omega), Compressed.checkPointers_eq (by omega), if_pos hpointers]
    by_cases hall : ∀ x ∈ es, x.row ≤ rows ∧ x.column ≤ columns
    · rw [if_pos (hinside.mpr hall)]
      exact (hshown _).trans (and_iff_right ⟨hshape, hall⟩).symm
    · rw [if_neg (mt hinside.mp hall)]
      exact iff_of_false nofun fun h => hall h.1.2
  · -- a shape that is too large fails before the entries are looked at, and too many pointers fail after that
    refine iff_of_false (fun h => hshape ?_) fun h => hshape h.1.1
    cases hcoalesced : (empty.extended es).coalesced (rows + 1) (columns + 1) with
    | error fault =>
      rw [hcoalesced] at h
      cases h
    | ok es' =>
      have hcolumn := (isIndex_iff.mp (isIndex_of_coalesced hcoalesced).2).2
      rw [hcoalesced, Compressed.checkPointers_eq (by omega)] at h
      split_ifs at h with hpointers
      · exact ⟨by omega, hcolumn⟩
      · cases h

/-- A matrix of entries shows their triplets. -/
theorem shows_of_compressed {es : List Entry} {rows columns : Int}
    (hes : ∀ x ∈ es, (0 ≤ x.row ∧ x.row ≤ 2147483647) ∧ 0 ≤ x.column ∧ x.column ≤ 2147483647)
    (hrows : 0 ≤ rows) (hcolumns : 0 ≤ columns) {c : Compressed}
    (hc : (empty.extended es).compressed rows columns = .ok c) {t : Triplets}
    (ht : t.toList = coalesce es) : c.Shows rows columns t := by
  obtain ⟨⟨-, hall⟩, rfl⟩ := (compressed_extended_eq_ok_iff hes hrows hcolumns).mp hc
  -- every entry comes from a stored one, which the check found in range
  have hinside : ∀ x ∈ inner (coalesce es), x.Inside rows.toNat columns.toNat := by
    intro x hx
    obtain ⟨y, hy, rfl⟩ := List.mem_map.mp hx
    obtain ⟨hy, hfirst⟩ := List.mem_filter.mp hy
    obtain ⟨z, hz, hrow, hcolumn⟩ := exists_isAt_of_mem_coalesce hy
    have hlast := hall z hz
    rw [decide_eq_true_eq] at hfirst
    unfold Inside
    dsimp only
    omega
  have hlist := Compressed.toList_ofSorted (pairwise_inner (pairwise_coalesce es)) hinside
  refine ⟨Int.toNat_of_nonneg hrows, Int.toNat_of_nonneg hcolumns,
    Compressed.wellFormed_ofSorted (pairwise_inner (pairwise_coalesce es)) hinside, ?_, fun i j _ _ => ?_⟩
  · rw [hlist, ht]
  · rw [hlist, ht]
    exact valueAt_inner _ (Int.natCast_nonneg i) (Int.natCast_nonneg j)

end Entries

/-! ## §3 The matrix of a model -/

def Native.Problem.entryAt : Native.Problem → Int → Int → Float
  | .glpk q, i, j => Entry.valueAt q.matrix.toList i j
  | .lpsolve q, i, j => q.entry i j
  | .deleted, _, _ => 0

namespace Model

variable {w : World} {m : ModelId} {model : Model} {n : Nat} {q q' : Native.Problem}

/-- The matrix of a model is that of its coefficients, in the shape of its problem. -/
theorem on_constraintMatrix (hw : w.Compliant) (hm : w.model? m = some model) (hf : model.freed = false)
    (ho : model.engine.Owns w.native n q) :
    ((constraintMatrix m).on w).1 = model.entries.compressed q.rowCount q.columnCount := by
  -- counting the rows is a query and changes no problem
  have ho₁ : model.engine.Owns (w.after model.engine.rowCountCall).native n q := by
    have hnative : (w.after model.engine.rowCountCall).native = w.native := by
      unfold Engine.rowCountCall
      cases model.engine.kind <;> rfl
    rw [hnative]
    exact ho
  unfold constraintMatrix
  rw [Action.on_bind_of_ok (Action.on_openModel_of_open hm hf),
    Action.on_bind_of_ok (Engine.on_rowCount (hw.grants _) ho),
    Action.on_bind_of_ok (Engine.on_columnCount ((hw.after _).grants _) ho₁), Action.on_lift]

/-- The coefficients of a model lie in its problem. -/
theorem Filled.inside (h : model.Filled q) (hrows : q.rowCount < 2147483648)
    (hcolumns : q.columnCount < 2147483648) : ∀ x ∈ model.entries.toList,
      ((0 ≤ x.row ∧ x.row ≤ 2147483647) ∧ 0 ≤ x.column ∧ x.column ≤ 2147483647) ∧
        x.row ≤ q.rowCount ∧ x.column ≤ q.columnCount := by
  intro x hx
  have hrow := h.rows x hx
  have hcolumn := h.columns x hx
  omega

/-- After the coefficients of a filled problem were handed over, its matrix has the values of the triplets. -/
theorem Filled.entryAt_load (h : model.Filled q) (hq : q.kind? = some model.engine.kind)
    (hrows : q.rowCount < 2147483648) (hcolumns : q.columnCount < 2147483648) {t : Triplets}
    (ht : model.entries.triplets = .ok t) (hq' : q'.core = (q.applyAll (model.engine.loadCalls t)).core)
    (i j : Int) : q'.entryAt i j = Entry.valueAt t.toList i j := by
  have hself := h.wrapped_eq_self hrows hcolumns
  cases hk : model.engine.kind with
  -- the triplets replace the matrix as a whole
  | glpk =>
    obtain ⟨q₀, rfl⟩ := Native.Problem.eq_glpk_of_kind? (hq.trans (by rw [hk]))
    have hcore : q'.core = (Native.Problem.glpk { q₀ with matrix := t }).core := by
      rw [hq']
      unfold Engine.loadCalls
      rw [hk]
      rfl
    obtain ⟨q₁, rfl⟩ : ∃ q₁, q' = .glpk q₁ := by
      refine Native.Problem.eq_glpk_of_kind? ?_
      rw [← Native.Problem.kind?_core, hcore]
      rfl
    have hmatrix : q₁.matrix = t := congrArg Glpk.Problem.matrix (Native.Problem.glpk.inj hcore)
    exact congrArg (fun t : Triplets => Entry.valueAt t.toList i j) hmatrix
  -- the entries are set one by one, over fresh rows
  | lpsolve =>
    obtain ⟨q₁, rfl, -, -, hentry⟩ := h.entry_load hk hq hself ht hq'
    rw [Entries.toList_triplets_of_wrapped hself ht]
    exact hentry i j

end Model

namespace Compressed

open Entry

/-- **Matrices and triplets show the same coefficients.** Lists of one length, at positions of 31 bits, can be
shown as a matrix exactly if each of the positions lies in it, those included whose values sum to zero, and
with one row and one column more, the bytes of the row pointers and the columns can still be counted; then the
matrix shows the triplets. In every reachable
state, an open model can show its matrix, in the shape of its problem; and whenever the model is solved,
either nothing is handed over and no solver is started, or the triplets of this matrix are, after which the
problem has their values. -/
theorem shown :
    (∀ (e : Entries) (rows columns : Int), e.Even →
      (∀ x ∈ e.toList, (0 ≤ x.row ∧ x.row ≤ 2147483647) ∧ 0 ≤ x.column ∧ x.column ≤ 2147483647) →
      0 ≤ rows → 0 ≤ columns →
      ∃ t, e.triplets = .ok t ∧
        ((∃ c, e.compressed rows columns = .ok c) ↔ (8 * (rows + 2) < indexLimit ∧ columns + 1 < indexLimit) ∧
          ∀ x ∈ e.toList, x.row ≤ rows ∧ x.column ≤ columns) ∧
        ∀ c, e.compressed rows columns = .ok c → c.Shows rows columns t) ∧
    ∀ (w : World) (m : ModelId) (model : Model) (n : Nat) (q : Native.Problem), w.Reachable →
      w.model? m = some model → model.freed = false → model.engine.problem = some n →
      w.native.problem? n = some q → q.rowCount < 2147483648 → q.columnCount < 2147483648 →
      ∃ c t, ((Model.constraintMatrix m).on w).1 = .ok c ∧ model.entries.triplets = .ok t ∧
        c.Shows q.rowCount q.columnCount t ∧
        (∀ x ∈ t.toList, (1 ≤ x.row ∧ x.row ≤ q.rowCount) ∧ 1 ≤ x.column ∧ x.column ≤ q.columnCount) ∧
        ∀ o : Operation, o.SolvesModel m → w.Skips o ∨
          ∃ q', w.Loads o n (model.engine.loadCalls t) q' ∧ ∀ i j, q'.entryAt i j = valueAt t.toList i j := by
  constructor
  · intro e rows columns heven hsmall hrows hcolumns
    obtain ⟨t, ht, hlist⟩ := Entries.triplets_of_small hsmall
    rw [heven.eq_extended, Entries.toList_extended]
    refine ⟨t, ht, ?_, fun c hc => Entries.shows_of_compressed hsmall hrows hcolumns hc hlist⟩
    simp only [Entries.compressed_extended_eq_ok_iff hsmall hrows hcolumns, exists_and_left, exists_eq', and_true]
  · intro w m model n q hreach hm hf hn hq hrows hcolumns
    have hs := hreach.sound
    obtain ⟨n', q₀, hh, howns⟩ := hs.holds_of_model? hm hf
    obtain rfl : n' = n := Option.some.inj (hh.number.symm.trans hn)
    obtain rfl : q₀ = q := Option.some.inj (howns.found.symm.trans hq)
    rw [← Native.Problem.rowCount_core] at hrows
    rw [← Native.Problem.columnCount_core] at hcolumns
    -- the invariant of reachable worlds: every entry lies in a row and a column of the problem
    have hfilled : model.core.Filled q₀.core := hreach.filled.2 hh
    have hinside : ∀ x ∈ model.entries.toList, _ := hfilled.inside hrows hcolumns
    have hsmall : ∀ x ∈ model.entries.toList, _ := fun x hx => (hinside x hx).1
    obtain ⟨t, ht, hlist⟩ := Entries.triplets_of_small hsmall
    have heven : model.entries = Entries.empty.extended model.entries.toList := hfilled.even.eq_extended
    rw [← heven] at ht
    -- the counts are below 2^31, so neither limit of the sizes is met
    have hcompressed := (Entries.compressed_extended_eq_ok_iff hsmall (Int.natCast_nonneg q₀.core.rowCount)
      (Int.natCast_nonneg q₀.core.columnCount)).mpr
        ⟨⟨by unfold indexLimit; omega, fun x hx => (hinside x hx).2⟩, rfl⟩
    have hshows := Entries.shows_of_compressed hsmall (Int.natCast_nonneg _) (Int.natCast_nonneg _)
      hcompressed hlist
    rw [← heven, Native.Problem.rowCount_core, Native.Problem.columnCount_core] at hcompressed
    rw [Native.Problem.rowCount_core, Native.Problem.columnCount_core] at hshows
    refine ⟨_, t, (Model.on_constraintMatrix hs.compliant hm hf howns).trans hcompressed, ht, hshows, ?_, ?_⟩
    · intro x hx
      -- a stored triplet has its position from some entry
      rw [hlist] at hx
      obtain ⟨x', hx', hrow, hcolumn⟩ := exists_isAt_of_mem_coalesce hx
      have hrow' := hfilled.rows x' hx'
      have hcolumn' := hfilled.columns x' hx'
      rw [Native.Problem.rowCount_core, hrow] at hrow'
      rw [Native.Problem.columnCount_core, hcolumn] at hcolumn'
      exact ⟨hrow', hcolumn'⟩
    · intro o ho
      rcases hh.skips_or_loads hs ho with hskips | ⟨t', q', ht', hloads, hq'⟩
      · exact Or.inl hskips
      obtain rfl : t' = t := Except.ok.inj (ht'.symm.trans ht)
      exact Or.inr ⟨q', hloads, hfilled.entryAt_load hh.kind hrows hcolumns ht hq'⟩

/-- The values of one position cancel, and still it has to lie in the matrix; row 0 vanishes. A problem that
has a row too many, as lp_solve refused the second one of a constraint, shows it as an empty row. -/
theorem shown_after_refusal :
    let e : Entries := ⟨[1, 1, 1, 0], [1, 2, 2, 1], [2, 5, -5, 7]⟩
    let os : List Operation := [.create "" (.text "minimize") [.engine (.named (.text "lpsolve"))],
      .addVariable 0 "x" (.text "continuous") (.int 1) (.int 0) (.int 4),
      .addConstraint 0 (.float Double.negInfinity) (.int 1) [.variable ⟨0, 0⟩] [.int 3]]
    let w := (World.initial.nextAll os).limited 0 1 (.addConstraint 0 (.int 2) (.int 5) [.variable ⟨0, 0⟩] [.int 1])
    (∃ c t, e.compressed 1 2 = .ok c ∧ e.triplets = .ok t ∧ c.Shows 1 2 t) ∧
      (¬ ∃ c, e.compressed 1 1 = .ok c) ∧
      ∃ c t, ((Model.constraintMatrix 0).on w).1 = .ok c ∧ c.Shows 2 1 t ∧
        ∃ load q', w.Loads (.solve 0 none) 1 load q' ∧ ∀ i j, q'.entryAt i j = valueAt t.toList i j := by
  intro e os w
  refine ⟨?_, fun h => ?_, ?_⟩
  · obtain ⟨t, ht, hiff, hshows⟩ := shown.1 e 1 2 ⟨rfl, rfl⟩ (by decide +kernel) (by decide) (by decide)
    obtain ⟨c, hc⟩ := hiff.mpr (by decide +kernel)
    exact ⟨c, t, hc, ht, hshows c hc⟩
  · obtain ⟨-, -, hiff, -⟩ := shown.1 e 1 1 ⟨rfl, rfl⟩ (by decide +kernel) (by decide) (by decide)
    have hinside : ¬ ∀ x ∈ e.toList, x.row ≤ 1 ∧ x.column ≤ 1 := by decide +kernel
    exact hinside (hiff.mp h).2
  · -- the second part, on the model left behind by the refused row
    let w₀ := World.initial.nextAll os
    obtain ⟨model₀, hm₀⟩ := Option.isSome_iff_exists.mp (by decide +kernel : (w₀.model? 0).isSome = true)
    have hmodel₀ {α : Type} (f : Model → α) {x : α} (h : (w₀.model? 0).map f = some x) : f model₀ = x := by
      rw [hm₀] at h
      exact Option.some.inj h
    have hreach : w.Reachable := (World.Reachable.initial.nextAll os).limited hm₀
      (hmodel₀ (·.freed) (by decide +kernel)) (hmodel₀ (·.engine.kind) (by decide +kernel)) (by rfl) 0 1
    obtain ⟨model, hm⟩ := Option.isSome_iff_exists.mp (by decide +kernel : (w.model? 0).isSome = true)
    have hmodel {α : Type} (f : Model → α) {x : α} (h : (w.model? 0).map f = some x) : f model = x := by
      rw [hm] at h
      exact Option.some.inj h
    obtain ⟨q, hq⟩ := Option.isSome_iff_exists.mp (by decide +kernel : (w.native.problem? 1).isSome = true)
    have hproblem {α : Type} (f : Native.Problem → α) {x : α} (h : (w.native.problem? 1).map f = some x) :
        f q = x := by
      rw [hq] at h
      exact Option.some.inj h
    have hrows : q.rowCount = 2 := hproblem (·.rowCount) (by decide +kernel)
    have hcolumns : q.columnCount = 1 := hproblem (·.columnCount) (by decide +kernel)
    obtain ⟨c, t, hc, -, hshows, -, hsolve⟩ := shown.2 w 0 model 1 q hreach hm (hmodel (·.freed) (by decide +kernel))
      (hmodel (·.engine.problem) (by decide +kernel)) hq (by omega) (by omega)
    rw [hrows, hcolumns] at hshows
    refine ⟨c, t, hc, hshows, ?_⟩
    rcases hsolve (.solve 0 none) rfl with hskips | ⟨q', hloads, hentry⟩
    · -- the solver is entered, so the solve did not skip the load
      have hstarts : (w.callsSince (w.next (.solve 0 none))).any (·.isEntry) = true := by decide +kernel
      obtain ⟨call, hcall, hentry⟩ := List.any_eq_true.mp hstarts
      exact Bool.noConfusion ((hskips call hcall).2.symm.trans hentry)
    · exact ⟨_, q', hloads, hentry⟩

/-- No position lies outside of the empty matrix, and yet it cannot be shown with as many columns as 64 bits
can number: one column more is counted on the way. -/
theorem not_shown_of_inside : ¬ ∀ (e : Entries) (rows columns : Int),
    (∀ x ∈ e.toList, (0 ≤ x.row ∧ x.row ≤ 2147483647) ∧ 0 ≤ x.column ∧ x.column ≤ 2147483647) →
    0 ≤ rows → 0 ≤ columns →
      ((∃ c, e.compressed rows columns = .ok c) ↔ ∀ x ∈ e.toList, x.row ≤ rows ∧ x.column ≤ columns) := by
  intro h
  obtain ⟨c, hc⟩ := (h .empty 0 9223372036854775807 nofun (by decide) (by decide)).mpr nofun
  have hfault : Entries.empty.compressed 0 9223372036854775807 = .error .outOfRange := by decide +kernel
  rw [hfault] at hc
  cases hc

end Compressed

end LinearProgram
