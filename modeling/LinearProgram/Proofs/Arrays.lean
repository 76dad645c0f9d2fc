import LinearProgram.Proofs.Arrays.Building
import LinearProgram.Proofs.Blocks
import LinearProgram.Proofs.Denotation
import LinearProgram.Proofs.Lifetime

/-!
# Models from arrays

What becomes of a problem that is given as arrays: a matrix, vectors of bounds for its rows and columns, objective
coefficients, and marks of integer columns. Either a vector has the wrong length, and nothing happens; or a bound is
NaN, and the model that was made is freed again; or there is a model with one variable for each column and one
constraint for each row.

The matrix may be any of `MatrixData`, and `MatrixData.reads` says that nothing is lost when it is read. From there
on, `World.Builds` follows the model column by column and row by row. The last part is the matrix that the model
shows: its rows are those of the given one, apart from rows that lp_solve stores twice or not at all.
-/

namespace LinearProgram

open LinearProgram.Action
open Double (toReal)

/-! ## §1 Vectors -/

/-- The vectors of a problem that is given as arrays, as doubles, and marks of integer columns, if there are any. -/
structure Vectors where
  rowLower : List Float
  rowUpper : List Float
  lower : List Float
  upper : List Float
  objective : List Float
  integrality : Option (List Number)

namespace Vectors

/-- The vectors have the lengths that belong to a matrix of this shape. -/
structure Fits (v : Vectors) (height width : Nat) : Prop where
  rowLower : v.rowLower.length = height
  rowUpper : v.rowUpper.length = height
  lower : v.lower.length = width
  upper : v.upper.length = width
  objective : v.objective.length = width
  integrality : (v.integrality.map List.length).getD width = width

instance (v : Vectors) (height width : Nat) : Decidable (v.Fits height width) :=
  decidable_of_iff (v.rowLower.length = height ∧ v.rowUpper.length = height ∧ v.lower.length = width ∧
      v.upper.length = width ∧ v.objective.length = width ∧ (v.integrality.map List.length).getD width = width)
    ⟨fun ⟨hrl, hru, hl, hu, hc, hi⟩ => ⟨hrl, hru, hl, hu, hc, hi⟩,
      fun h => ⟨h.rowLower, h.rowUpper, h.lower, h.upper, h.objective, h.integrality⟩⟩

/-- Some bound of a row or a column is no number. -/
def HasNaN (v : Vectors) : Prop :=
  ∃ x ∈ (v.rowLower ++ v.rowUpper) ++ (v.lower ++ v.upper), x.isNaN = true

instance (v : Vectors) : Decidable v.HasNaN := inferInstanceAs (Decidable (∃ x ∈ _, _))

/-- Whether a column is marked as integer. Without marks, none is. -/
def marked (v : Vectors) (j : Nat) : Bool := ((v.integrality.bind (·[j]?)).map Number.isTrue).getD false

def rows (v : Vectors) : List (Float × Float) := v.rowLower.zip v.rowUpper

/-- The columns: whether they are integer, their coefficients, and their bounds. -/
def columns (v : Vectors) (width : Nat) : List (Bool × Float × Float × Float) :=
  ((v.integrality.map fun marks => marks.map Number.isTrue).getD (List.replicate width false)).zip
    (v.objective.zip (v.lower.zip v.upper))

variable {v : Vectors} {height width : Nat}

theorem Fits.length_rows (h : v.Fits height width) : v.rows.length = height := by
  rw [rows, List.length_zip, h.rowLower, h.rowUpper, Nat.min_self]

/-- There is a mark for each column, also where none were given. -/
theorem Fits.length_marks (h : v.Fits height width) :
    ((v.integrality.map fun marks => marks.map Number.isTrue).getD (List.replicate width false)).length = width := by
  have hlength := h.integrality
  cases hi : v.integrality with
  | none => exact List.length_replicate
  | some marks =>
    rw [hi] at hlength
    exact (List.length_map _).trans hlength

theorem Fits.length_columns (h : v.Fits height width) : (v.columns width).length = width := by
  simp only [columns, List.length_zip, h.length_marks, h.objective, h.lower, h.upper, Nat.min_self]

/-- What a column is like. -/
theorem getElem?_columns {j : Nat} {c l u : Float} (hc : v.objective[j]? = some c) (hl : v.lower[j]? = some l)
    (hu : v.upper[j]? = some u) (h : v.Fits height width) :
    (v.columns width)[j]? = some (v.marked j, c, l, u) := by
  have hj : j < width := h.objective ▸ (List.getElem?_eq_some_iff.mp hc).1
  -- a missing integrality vector marks every column as continuous
  have hmark : ((v.integrality.map fun marks => marks.map Number.isTrue).getD (List.replicate width false))[j]? =
      some (v.marked j) := by
    have hlength := h.integrality
    unfold marked
    cases hi : v.integrality with
    | none => simp [hj]
    | some marks =>
      rw [hi] at hlength
      have hmarks : j < marks.length := by
        rw [show marks.length = width from hlength]
        exact hj
      simp [hmarks]
  rw [columns, List.getElem?_zip_eq_some]
  refine ⟨hmark, List.getElem?_zip_eq_some.mpr ⟨hc, List.getElem?_zip_eq_some.mpr ⟨hl, hu⟩⟩⟩

/-- NaN is among the bounds of pairs if it is in one of the lists that were paired. -/
private theorem hasNaN_zip_iff {xs ys : List Float} (h : xs.length = ys.length) :
    (∃ b ∈ xs.zip ys, Bound.HasNaN b.1 b.2) ↔ ∃ x ∈ xs ++ ys, x.isNaN = true := by
  constructor
  · rintro ⟨b, hb, hnan | hnan⟩
    · exact ⟨b.1, List.mem_append_left _ (List.of_mem_zip hb).1, hnan⟩
    · exact ⟨b.2, List.mem_append_right _ (List.of_mem_zip hb).2, hnan⟩
  · rintro ⟨x, hx, hnan⟩
    -- the lists are equally long, so each number stands in some pair
    rcases List.mem_append.mp hx with hx | hx
    · rw [← List.map_fst_zip h.le] at hx
      obtain ⟨b, hb, rfl⟩ := List.mem_map.mp hx
      exact ⟨b, hb, .inl hnan⟩
    · rw [← List.map_snd_zip h.ge] at hx
      obtain ⟨b, hb, rfl⟩ := List.mem_map.mp hx
      exact ⟨b, hb, .inr hnan⟩

/-- Some bound is NaN exactly if a row or a column has such a bound. -/
theorem Fits.hasNaN_iff (h : v.Fits height width) : v.HasNaN ↔
    (∃ b ∈ v.rows, Bound.HasNaN b.1 b.2) ∨ ∃ x ∈ v.columns width, Bound.HasNaN x.2.2.1 x.2.2.2 := by
  -- the bounds of the columns are the two vectors zipped
  have hbounds : v.lower.zip v.upper = (v.columns width).map (·.2.2) := by
    have hlower := h.lower
    have hupper := h.upper
    have hobjective := h.objective
    have hmarks := h.length_marks
    rw [columns, ← Function.comp_def Prod.snd Prod.snd, ← List.map_map, List.map_snd_zip (by simp; omega),
      List.map_snd_zip (by simp; omega)]
  have hcolumns : (∃ x ∈ v.columns width, Bound.HasNaN x.2.2.1 x.2.2.2) ↔
      ∃ b ∈ v.lower.zip v.upper, Bound.HasNaN b.1 b.2 := by
    simp only [hbounds, List.mem_map, exists_exists_and_eq_and]
  unfold HasNaN rows
  rw [hcolumns, hasNaN_zip_iff (h.lower.trans h.upper.symm), hasNaN_zip_iff (h.rowLower.trans h.rowUpper.symm)]
  simp only [List.mem_append, or_and_right, exists_or]

end Vectors

/-- The arrays are a matrix that can be read, and vectors of numbers that doubles can hold. -/
structure ProblemArrays.Gives (a : ProblemArrays) (d : MatrixData) (v : Vectors) : Prop where
  matrix : ∃ A, d.read = .ok A ∧ a.matrix = some A
  rowLower : a.rowLower.mapM Number.toDouble = .ok v.rowLower
  rowUpper : a.rowUpper.mapM Number.toDouble = .ok v.rowUpper
  lower : a.lower.mapM Number.toDouble = .ok v.lower
  upper : a.upper.mapM Number.toDouble = .ok v.upper
  objective : a.objective.mapM Number.toDouble = .ok v.objective
  integrality : a.integrality = v.integrality

namespace ProblemArrays

variable {a : ProblemArrays} {d : MatrixData} {v : Vectors} {A : Compressed}

/-- What is read of arrays: the columns and rows, if the vectors have the right lengths. -/
theorem read_cases (ha : a.Gives d v) (hA : a.matrix = some A) (hs : A.Sized) (hwidth : isIndex A.width = true) :
    (v.Fits A.height A.width → a.read = .ok ⟨A, v.rows, v.columns A.width⟩) ∧
      (¬ v.Fits A.height A.width → ∃ fault, a.read = .error fault ∧ fault.kind = .validation) := by
  -- the conversions succeed, and the only tests that are left are those of the lengths
  have hread : a.read =
      if v.rowLower.length ≠ A.height ∨ v.rowUpper.length ≠ A.height then .error (.rowVectorLength A.height)
      else if v.lower.length ≠ A.width ∨ v.upper.length ≠ A.width ∨ v.objective.length ≠ A.width ∨
          ((v.integrality.map fun marks => marks.map Number.isTrue).map List.length).getD A.width ≠ A.width then
        .error (.columnVectorLength A.width)
      else .ok ⟨A, v.rows, v.columns A.width⟩ := by
    unfold ProblemArrays.read
    rw [hA, ha.rowLower, ha.rowUpper, ha.lower, ha.upper, ha.objective, ha.integrality]
    dsimp only [bind, Except.bind]
    rw [hs.trimmed_eq, hwidth]
    exact if_neg (by simp)
  have hmarks : ((v.integrality.map fun marks => marks.map Number.isTrue).map List.length).getD A.width =
      (v.integrality.map List.length).getD A.width := by
    cases v.integrality with
    | none => rfl
    | some marks => exact List.length_map _
  rw [hread, hmarks]
  constructor
  · intro h
    rw [if_neg (by simp [h.rowLower, h.rowUpper]), if_neg (by simp [h.lower, h.upper, h.objective, h.integrality])]
  · intro h
    split_ifs with hrows hcolumns
    · exact ⟨_, rfl, rfl⟩
    · exact ⟨_, rfl, rfl⟩
    · simp only [not_or, ne_eq, not_not] at hrows hcolumns
      obtain ⟨hl, hu, hc, hi⟩ := hcolumns
      exact absurd ⟨hrows.1, hrows.2, hl, hu, hc, hi⟩ h

end ProblemArrays

/-! ## §2 Rows -/

open Program (Exact coefficientsAt sumAt)

namespace MatrixData

/-- The terms are the entries of row `i`: in each column that there is, the values of the data, apart from what a
conversion may do to them. -/
structure IsRow (d : MatrixData) (i : Nat) (terms : List (Nat × Float)) : Prop where
  columns : ∀ t ∈ terms, t.1 < d.width
  values : ∀ j, Entry.Condenses (d.valuesAt i j) (coefficientsAt terms j)

variable {d : MatrixData} {i : Nat}

/-- Provided that doubles add up exactly, the weighted sum of the terms is that of the row. -/
theorem IsRow.sumAt_eq {terms : List (Nat × Float)} (h : d.IsRow i terms)
    (hexact : ∀ j < d.width, Exact (d.valuesAt i j)) (x : Nat → ℝ) :
    sumAt terms x = ∑ j ∈ Finset.range d.width, ((d.valuesAt i j).map toReal).sum * x j := by
  rw [← Program.sum_coefficientsAt x h.columns]
  refine Finset.sum_congr rfl fun j hj => ?_
  rw [(h.values j).sum_eq (hexact j (Finset.mem_range.mp hj))]

variable {A : Compressed}

/-- The terms of a row of the matrix are its entries. -/
theorem Reads.isRow (h : d.Reads A) (hi : i < d.height) : d.IsRow i (A.terms i) where
  columns := h.width ▸ Compressed.terms_lt fun _ ht => h.sized.mem_row ht
  values j := by
    -- columns are natural numbers in the terms and integers in the data
    have hvalues : coefficientsAt (A.terms i) j = A.valuesAt i j := by
      unfold coefficientsAt Compressed.terms Compressed.valuesAt
      rw [List.filter_map, List.map_map]
      refine congrArg (List.map _) (List.filter_congr fun t ht => ?_)
      have hfirst := (h.sized.mem_row ht).1
      rw [Bool.eq_iff_iff, Function.comp_apply, beq_iff_eq, beq_iff_eq]
      omega
    rw [hvalues]
    exact h.values i hi j

end MatrixData

/-- How many rows lp_solve has for a row of the matrix: none if both bounds are infinite, and two if both are finite
and they are different. -/
def LpSolve.copies (lower upper : Float) : Nat :=
  if lower.isInf ∧ upper.isInf then 0
  else if lower.isInf = false ∧ upper.isInf = false ∧ (lower == upper) = false then 2
  else 1

/-- The rows of the matrix in the order in which an engine has them. GLPK has each of them once. -/
def Vectors.sources (v : Vectors) : EngineKind → List Nat
  | .glpk => List.range v.rows.length
  | .lpsolve => v.rows.zipIdx.flatMap fun (b, i) => List.replicate (LpSolve.copies b.1 b.2) i

/-- The rows of an engine come from rows of the matrix. -/
theorem Vectors.lt_of_mem_sources {v : Vectors} {kind : EngineKind} {i : Nat} (h : i ∈ v.sources kind) :
    i < v.rows.length := by
  cases kind with
  | glpk => exact List.mem_range.mp h
  | lpsolve =>
    obtain ⟨⟨b, k⟩, hb, hi⟩ := List.mem_flatMap.mp h
    obtain rfl := List.eq_of_mem_replicate hi
    simpa using (List.mem_zipIdx hb).2.1

namespace Program

theorem Condition.length_block_lpsolve (c : Condition) :
    (c.block .lpsolve).length = LpSolve.copies c.lower c.upper := by
  unfold Condition.block LpSolve.copies
  split_ifs <;> simp_all

/-- The rows of the conditions that the arrays give have the terms of the rows that they come from. -/
theorem map_snd_rows_given {A : Compressed} {v : Vectors}
    (h : ∀ c ∈ Condition.given A 0 v.rows, Bound.encode c.lower c.upper = .ok c.bound) (kind : EngineKind) :
    (Program.rows kind (Condition.given A 0 v.rows)).map (·.2) = (v.sources kind).map A.terms := by
  -- all rows of one condition have its terms
  have hblock (c : Condition) : ((c.block kind).map fun b => (b, c.terms)).map (·.2) =
      List.replicate (c.block kind).length c.terms := by
    rw [List.map_map, ← List.map_const']
    rfl
  rw [rows_eq_blocks h, List.map_flatMap]
  simp only [hblock]
  rw [Condition.given, List.flatMap_map]
  cases kind with
  -- each condition gives one row, so the sources count up
  | glpk =>
    rw [Vectors.sources, List.range_eq_range', ← List.zipIdx_map_snd, List.map_map, List.map_eq_flatMap]
    rfl
  -- a condition without bounds gives no row
  | lpsolve =>
    rw [Vectors.sources, List.map_flatMap]
    refine congrArg List.flatten (List.map_congr_left fun b _ => ?_)
    rw [List.map_replicate, Condition.length_block_lpsolve]

end Program

/-! ## §3 The matrix that is shown -/

/-- The model shows the coefficients of its program, row by row, added up and without zeros. -/
theorem Model.Represents.compressed {model : Model} {q : Native.Problem} {p : Program} (h : model.Represents q p)
    (hq : q.kind? = some model.engine.kind) (hcolumns : p.columns.length < 2147483648)
    (hrows : (Program.rows model.engine.kind p.conditions).length < 2147483648) :
    ∃ c, model.entries.compressed q.rowCount q.columnCount = .ok c ∧ c.WellFormed ∧
      c.height = (Program.rows model.engine.kind p.conditions).length ∧ c.width = p.columns.length ∧
      ∀ (k : Nat) r, (Program.rows model.engine.kind p.conditions)[k]? = some r → ∀ j : Nat,
        c.valuesAt k j = Entry.kept (coefficientsAt r.2 j) := by
  have hrowCount := h.stores.rowCount hq
  have hcolumnCount : q.columnCount = p.columns.length := h.stores.columnCount
  have hes : model.entries.toList = Program.entriesFrom 0 (Program.rows model.engine.kind p.conditions) := h.entries
  have hterms : ∀ r ∈ Program.rows model.engine.kind p.conditions, ∀ t ∈ r.2, t.1 < p.columns.length := by
    intro r hr
    obtain ⟨c, hc, hrc⟩ := List.mem_flatMap.mp hr
    obtain ⟨b, -, rfl⟩ := List.mem_map.mp hrc
    exact h.valid.terms c hc
  generalize Program.rows model.engine.kind p.conditions = rs at *
  let es := model.entries.toList
  -- the coefficients stand at rows and columns that there are
  have hinside : ∀ x ∈ es, ((1 ≤ x.row ∧ x.row ≤ rs.length) ∧ 1 ≤ x.column ∧ x.column ≤ p.columns.length) := by
    intro x hx
    obtain ⟨i, hi, hi', r, hr, t, ht, ht'⟩ := Program.mem_entriesFrom (show x ∈ Program.entriesFrom 0 rs from hes ▸ hx)
    have hlt := hterms r hr t ht
    omega
  have hsmall : ∀ x ∈ es, (0 ≤ x.row ∧ x.row ≤ 2147483647) ∧ 0 ≤ x.column ∧ x.column ≤ 2147483647 := by
    intro x hx
    have hin := hinside x hx
    omega
  have hextended : model.entries = Entries.empty.extended es := h.even.eq_extended
  have hshape : 8 * ((rs.length : Int) + 2) < indexLimit ∧ (p.columns.length : Int) + 1 < indexLimit := by
    unfold indexLimit
    omega
  have hcompressed := (Entries.compressed_extended_eq_ok_iff hsmall (Int.natCast_nonneg rs.length)
    (Int.natCast_nonneg p.columns.length)).mpr
      ⟨⟨hshape, fun x hx => ⟨(hinside x hx).1.2, (hinside x hx).2.2⟩⟩, rfl⟩
  -- that the matrix is well-formed is known of one that shows triplets
  obtain ⟨t, ht, hlist⟩ := Entries.triplets_of_small hsmall
  have hshows := Entries.shows_of_compressed hsmall (Int.natCast_nonneg _) (Int.natCast_nonneg _) hcompressed hlist
  rw [hextended, hrowCount, hcolumnCount]
  refine ⟨_, hcompressed, hshows.wellFormed, rfl, rfl, fun k r hr j => ?_⟩
  have hsorted := (Entry.pairwise_inner (Entry.pairwise_coalesce es)).imp Entry.Precedes.row_le
  have hk : k < rs.length := (List.getElem?_eq_some_iff.mp hr).1
  have hcell : Entry.cell es (k + 1) (j + 1) = coefficientsAt r.2 j := by
    have hfrom := Program.cell_entriesFrom 0 rs k j
    rw [hr, Option.map_some, Option.getD_some] at hfrom
    rw [show es = Program.entriesFrom 0 rs from hes, ← hfrom]
    simp
  rw [Int.toNat_natCast, Int.toNat_natCast, Compressed.valuesAt_ofSorted hsorted hk,
    Entry.cell_inner _ (Int.natCast_nonneg _) (Int.natCast_nonneg _), Entry.cell_coalesce, hcell]
  rfl

/-! ## §4 The model -/

/-- In the state, the open model `m` on an engine of this kind shows what the arrays say. Bounds are those that the
engine understands, and the matrix has the rows that the engine stores, if it can number its rows and columns. -/
structure World.ShowsArrays (w : World) (m : ModelId) (kind : EngineKind) (d : MatrixData) (v : Vectors) : Prop where
  variableCount : ((Model.variableCount m).on w).1 = .ok d.width
  tells : ∀ (j : Nat) c l u, v.objective[j]? = some c → v.lower[j]? = some l → v.upper[j]? = some u →
    let column : Program.Column := ⟨if v.marked j then .integer else .continuous, l, u, c⟩
    ∃ bounds, (⟨m, j⟩ : Variable).Tells w ("V" ++ toString j) column.kind bounds c ∧
      bounds.1 = (column.understood kind).1 ∧ Double.Same bounds.2 (column.understood kind).2
  matrix : (v.sources kind).length < 2147483648 → d.width < 2147483648 →
    ∃ t, ((Model.constraintMatrix m).on w).1 = .ok t ∧ t.WellFormed ∧
      t.height = (v.sources kind).length ∧ t.width = d.width ∧
      ∀ (k i : Nat), (v.sources kind)[k]? = some i → ∀ j : Nat, t.valuesAt k j = Entry.kept (d.valuesAt i j)

/-- The conditions are the rows of the arrays, each with its bounds. If doubles add up exactly, a condition holds of
a vector when the product of the row and the vector lies between the bounds. -/
structure Vectors.AreConditions (v : Vectors) (d : MatrixData) (conditions : List Program.Condition) : Prop where
  length : conditions.length = d.height
  rows : ∀ (i : Nat) c, conditions[i]? = some c →
    v.rowLower[i]? = some c.lower ∧ v.rowUpper[i]? = some c.upper ∧ d.IsRow i c.terms ∧
      ((∀ j < d.width, Exact (d.valuesAt i j)) → ∀ x : Nat → ℝ, c.Holds x ↔ Double.Within c.lower c.upper
        (∑ j ∈ Finset.range d.width, ((d.valuesAt i j).map toReal).sum * x j))

variable {d : MatrixData} {v : Vectors} {A : Compressed}

/-- The matrix that was read gives conditions as the arrays say them. -/
theorem MatrixData.Reads.areConditions (h : d.Reads A) (hv : v.Fits d.height d.width) :
    v.AreConditions d (Program.Condition.given A 0 v.rows) where
  length := by rw [Program.Condition.given, List.length_map, List.length_zipIdx, hv.length_rows]
  rows i c hc := by
    -- the condition at a place is made of the bounds at that place
    obtain ⟨b, hb, rfl⟩ : ∃ b, v.rows[i]? = some b ∧ c = ⟨b.1, b.2, A.terms i⟩ := by
      rw [Program.Condition.given, List.getElem?_map, List.getElem?_zipIdx, Option.map_map] at hc
      obtain ⟨b, hb, rfl⟩ := Option.map_eq_some_iff.mp hc
      exact ⟨b, hb, by simp⟩
    obtain ⟨hl, hu⟩ := List.getElem?_zip_eq_some.mp hb
    have hi : i < d.height := hv.rowLower ▸ (List.getElem?_eq_some_iff.mp hl).1
    have hrow := h.isRow hi
    refine ⟨hl, hu, hrow, fun hexact x => ?_⟩
    rw [← hrow.sumAt_eq hexact]
    rfl

/-- A model that has been built up to the last row shows what the arrays say. -/
theorem World.Builds.showsArrays {w : World} {m : ModelId} {model : Model} {n : Nat} {q : Native.Problem}
    {direction : Direction} (h : w.Builds m model n q
      ⟨direction, (v.columns d.width).map Program.Column.given, Program.Condition.given A 0 v.rows⟩)
    (hA : d.Reads A) (hv : v.Fits d.height d.width) : w.ShowsArrays m model.engine.kind d v := by
  have hopen := on_openModel_of_open h.found h.unfreed
  have hcolumns : ((v.columns d.width).map Program.Column.given).length = d.width :=
    (List.length_map _).trans hv.length_columns
  refine ⟨?_, fun j c l u hc hl hu => ?_, fun hrows hwidth => ?_⟩
  · unfold Model.variableCount
    rw [on_bind_of_ok hopen, Engine.on_columnCount (h.compliant.grants _) h.owned, h.columnCount, hcolumns]
  · intro column
    have hj : j < d.width := hv.objective ▸ (List.getElem?_eq_some_iff.mp hc).1
    have hcolumn : ((v.columns d.width).map Program.Column.given)[j]? = some column := by
      rw [List.getElem?_map, Vectors.getElem?_columns hc hl hu hv]
      rfl
    have hname : q.columnNames[j]? = some ("V" ++ toString j) := by
      rw [h.stored, hcolumns, VariableName.generated]
      simp [hj, VariableName.candidate]
    have hmem := List.mem_of_getElem? hcolumn
    exact ⟨_, Variable.tells_of_stores h.compliant h.found h.unfreed h.owned h.represents.stores h.represents.kinds
      hcolumn (h.settled column hmem) hname, Program.Column.shown_understood (h.represents.valid.columns column hmem) _⟩
  · have hsources := Program.map_snd_rows_given h.represents.valid.conditions model.engine.kind
    have hlength : (Program.rows model.engine.kind (Program.Condition.given A 0 v.rows)).length =
        (v.sources model.engine.kind).length := by
      simpa using congrArg List.length hsources
    obtain ⟨t, ht, hwell, hheight, hwidth', hvalues⟩ := h.represents.compressed h.owned.kind
      (by dsimp only; rwa [hcolumns]) (by rwa [hlength])
    rw [← Model.on_constraintMatrix h.compliant h.found h.unfreed h.owned] at ht
    refine ⟨t, ht, hwell, hheight.trans hlength, hwidth'.trans hcolumns, fun k i hk j => ?_⟩
    -- row `k` of the engine belongs to a condition, and this to row `i` of the arrays
    obtain ⟨r, hr, hterms⟩ : ∃ r, (Program.rows model.engine.kind (Program.Condition.given A 0 v.rows))[k]? = some r ∧
        r.2 = A.terms i := by
      have hboth := congrArg (·[k]?) hsources
      simp only [List.getElem?_map, hk, Option.map_some] at hboth
      exact Option.map_eq_some_iff.mp hboth
    have hi : i < d.height := hv.length_rows ▸ Vectors.lt_of_mem_sources (List.mem_of_getElem? hk)
    rw [hvalues k r hr j, hterms]
    exact ((hA.isRow hi).values j).kept_eq

/-- **Models from arrays.** The matrix may be given in any form, with entries in any order, several of them at one
position, and zeros among them; its width is one that a vector can have. If a vector does not have the length that
belongs to the matrix, making a model is refused, and nothing has been done by then. Otherwise let the making of a
model succeed that has neither columns nor rows. If some bound is NaN, making the model from arrays fails after all,
and its problem has been deleted. If none is, the model is made, by adding a variable for each column and then a
constraint for each row, on exactly the entries of this row, and afterwards it shows what the arrays say. -/
theorem Model.ofArrays_builds {w : World} (hw : w.Reached) {a : ProblemArrays} (ha : a.Gives d v) (hd : d.Proper)
    (hindex : isIndex d.width = true) (name : String) (direction : Datum) (options : List ModelOption) :
    (¬ v.Fits d.height d.width → ∃ fault, (ofArrays a name direction options).on w = (.error fault, w) ∧
      fault.kind = .validation) ∧
    ∀ m w₁, v.Fits d.height d.width →
      (create name direction options).on w = (.ok m, w₁) → ∃ kind n, w₁.HoldsProblem m kind n ∧
        (v.HasNaN → ∃ fault w', (ofArrays a name direction options).on w = (.error fault, w') ∧
          fault.kind = .validation ∧
          (w'.model? m).map (fun model => (model.freed, model.engine.problem)) = some (true, none) ∧
          w'.native.problem? n = some .deleted) ∧
        (¬ v.HasNaN → ∃ w' conditions, (ofArrays a name direction options).on w = (.ok m, w') ∧
          w'.HoldsProblem m kind n ∧ v.AreConditions d conditions ∧
          w.Answers (.create name direction options :: ((v.columns d.width).map (Operation.addColumn m) ++
              conditions.map (Operation.addCondition m)))
            (.model m :: (((newVariables m 0 d.width).map fun x => .variables [x]) ++
              conditions.map fun _ => .done)) w' ∧
          w'.ShowsArrays m kind d v) := by
  obtain ⟨A, hread, hA⟩ := ha.matrix
  have hreads : d.Reads A := MatrixData.reads hread hd
  obtain ⟨hfits, hunfit⟩ := ProblemArrays.read_cases ha hA hreads.sized (hreads.width ▸ hindex)
  rw [hreads.height, hreads.width] at hfits hunfit
  constructor
  · intro hv
    obtain ⟨fault, hfault, hkind⟩ := hunfit hv
    refine ⟨fault, ?_, hkind⟩
    unfold ofArrays
    rw [hfault]
    exact on_bind_of_error (on_lift _ w) _
  intro m w₁ hv hcreate
  obtain ⟨direction', model, n, q, hbuilds⟩ := World.builds_of_create hw.sound hcreate
  have hlength : (v.columns d.width).length = A.width := hv.length_columns.trans hreads.width.symm
  have hcount : A.width < 2 ^ 63 := by
    have hlimit := (isIndex_iff.mp hindex).2
    rw [hreads.width]
    unfold indexLimit at hlimit
    omega
  -- the arrays are read, an empty model is made, and then columns and rows are added to it
  have hon : (ofArrays a name direction options).on w = (freeingOnFault m
      (addArrayColumns m (v.columns d.width) >>= fun vars => addArrayRows m A vars 0 v.rows) >>= fun _ =>
        pure m : Action ModelId).on w₁ := by
    unfold ofArrays
    rw [hfits hv, on_bind_of_ok (on_lift _ w), on_bind_of_ok hcreate]
  refine ⟨model.engine.kind, n, World.holdsProblem_of_model? hbuilds.found hbuilds.unfreed hbuilds.owned.problem,
    fun hnan => ?_, fun hnan => ?_⟩
  · -- what has been built when NaN is met is a model that can be freed
    obtain ⟨l, u, w₂, model', q', p', hbody, hbuilds'⟩ :=
      hbuilds.addAll_of_hasNaN hreads.sized hlength hcount (hv.hasNaN_iff.mp hnan)
    obtain ⟨w', hfree, hreleased⟩ := hbuilds'.on_free
    refine ⟨.nanBound l u, w', ?_, rfl, hreleased⟩
    rw [hon]
    refine on_bind_of_error ?_ _
    unfold freeingOnFault
    rw [on_recovering, hbody]
    dsimp only
    rw [on_bind_of_ok hfree]
    rfl
  · rw [hv.hasNaN_iff, not_or] at hnan
    obtain ⟨w', model', q', hbody, hanswers, hbuilds', hengine⟩ := hbuilds.addAll hreads.sized hlength hcount
      (fun x hx hx' => hnan.2 ⟨x, hx, hx'⟩) fun b hb hb' => hnan.1 ⟨b, hb, hb'⟩
    rw [hreads.width] at hanswers
    refine ⟨w', _, ?_, ?_, hreads.areConditions hv, .cons rfl hcreate hanswers, ?_⟩
    · have hfreeing : (freeingOnFault m (addArrayColumns m (v.columns d.width) >>= fun vars =>
          addArrayRows m A vars 0 v.rows)).on w₁ = (.ok (), w') := by
        unfold freeingOnFault
        rw [on_recovering, hbody]
      rw [hon, on_bind_of_ok hfreeing]
      rfl
    · rw [← hengine]
      exact World.holdsProblem_of_model? hbuilds'.found hbuilds'.unfreed hbuilds'.owned.problem
    · rw [← hengine]
      exact hbuilds'.showsArrays hreads hv

/-- On lp_solve, from compressed rows that are not sorted, with an entry given twice, a zero, and an empty row. The
first row has two different bounds, the second one none. An upper bound too few is refused, and one that is NaN makes
the model be freed again. -/
theorem Model.ofArrays_builds_from_unsorted_rows :
    let d : MatrixData := .compressed 3 2 [.int 0, .int 3, .int 3, .int 4] [.int 1, .int 0, .int 1, .int 0]
      [.int 2, .int 0, .int 3, .int 5]
    let A : Compressed := ⟨3, 2, [0, 3, 3, 4], [1, 0, 1, 0], [2, 0, 3, 5]⟩
    let a : ProblemArrays :=
      { matrix := some A
        rowLower := [.int 1, .float Double.negInfinity, .float Double.negInfinity]
        rowUpper := [.int 4, .float Double.infinity, .int 7]
        lower := [.float Double.infinity, .int 0]
        upper := [.int 9, .int 8]
        objective := [.int 1, .int 2]
        integrality := some [.int 1, .int 0] }
    let make (a : ProblemArrays) := ofArrays a "" (.text "minimize") [.engine (.named (.text "lpsolve"))]
    let w := World.initial
    d.read = .ok A ∧
      (∃ fault, (make { a with upper := [.int 9] }).on w = (.error fault, w) ∧ fault.kind = .validation) ∧
      (∃ fault w', (make { a with upper := [.int 9, .float Double.nan] }).on w = (.error fault, w') ∧
        fault.kind = .validation ∧ w'.native.problem? 1 = some .deleted) ∧
      ∃ w' bounds t, (make a).on w = (.ok 0, w') ∧
        (⟨0, 0⟩ : Variable).Tells w' "V0" .integer bounds 1 ∧ bounds.1 = Double.negInfinity ∧ Double.Same bounds.2 9 ∧
        ((constraintMatrix 0).on w').1 = .ok t ∧ t.height = 3 ∧
        t.valuesAt 0 0 = [] ∧ t.valuesAt 0 1 = [5] ∧ t.valuesAt 1 1 = [5] ∧ t.valuesAt 2 0 = [5] := by
  intro d A a make w
  let v : Vectors :=
    ⟨[1, Double.negInfinity, Double.negInfinity], [4, Double.infinity, 7], [Double.infinity, 0], [9, 8], [1, 2],
      some [.int 1, .int 0]⟩
  have hread : d.read = .ok A := World.eq_ok_of_toOption (by decide +kernel)
  have hgives : a.Gives d v :=
    { matrix := ⟨A, hread, rfl⟩
      rowLower := World.eq_ok_of_toOption (by decide +kernel)
      rowUpper := World.eq_ok_of_toOption (by decide +kernel)
      lower := World.eq_ok_of_toOption (by decide +kernel)
      upper := World.eq_ok_of_toOption (by decide +kernel)
      objective := World.eq_ok_of_toOption (by decide +kernel)
      integrality := rfl }
  -- an upper vector that is too short, and one with a NaN
  have hshort : ProblemArrays.Gives { a with upper := [.int 9] } d { v with upper := [9] } :=
    { hgives with upper := World.eq_ok_of_toOption (by decide +kernel) }
  have hnan : ProblemArrays.Gives { a with upper := [.int 9, .float Double.nan] } d
      { v with upper := [9, Double.nan] } :=
    { hgives with upper := World.eq_ok_of_toOption (by decide +kernel) }
  let created := (create "" (.text "minimize") [.engine (.named (.text "lpsolve"))]).on w
  have hcreate : (create "" (.text "minimize") [.engine (.named (.text "lpsolve"))]).on w = (.ok 0, created.2) :=
    Prod.ext (World.eq_ok_of_toOption (by decide +kernel)) rfl
  have hheld : created.2.HoldsProblem 0 .lpsolve 1 := by
    unfold World.HoldsProblem
    decide +kernel
  -- the theorem at these arrays, for whichever upper vector is given
  have hbuilds {a : ProblemArrays} {v : Vectors} (h : a.Gives d v) :=
    ofArrays_builds ⟨[], rfl⟩ h (by decide +kernel) (by decide +kernel) "" (.text "minimize")
      [.engine (.named (.text "lpsolve"))]
  refine ⟨hread, (hbuilds hshort).1 (by decide +kernel), ?_, ?_⟩
  · obtain ⟨kind, n, hholds, hreleases, -⟩ := (hbuilds hnan).2 0 _ (by decide +kernel) hcreate
    obtain ⟨fault, w', hon, hkind, -, hdeleted⟩ := hreleases (by decide +kernel)
    obtain rfl := hheld.unique hholds
    exact ⟨fault, w', hon, hkind, hdeleted⟩
  · obtain ⟨kind, n, hholds, -, hbuilt⟩ := (hbuilds hgives).2 0 _ (by decide +kernel) hcreate
    obtain ⟨w', conditions, hon, -, -, -, hshows⟩ := hbuilt (by decide +kernel)
    obtain rfl : kind = .lpsolve := by
      have hsame := hholds.symm.trans hheld
      simp at hsame
      exact hsame.1
    -- a lower bound of plus infinity counts as none
    have hunderstood : (⟨.integer, Double.infinity, 9, 1⟩ : Program.Column).understood .lpsolve =
        (Double.negInfinity, 9) := by decide +kernel
    obtain ⟨bounds, htells, hbounds⟩ := hshows.tells 0 1 Double.infinity 9 rfl rfl rfl
    have hmarked : v.marked 0 = true := rfl
    rw [if_pos hmarked, hunderstood] at hbounds
    obtain ⟨t, ht, -, hheight, -, hvalues⟩ := hshows.matrix (by decide +kernel) (by decide +kernel)
    -- row `k` of the engine comes from row `i` of the data; the zero of (0, 0) is not kept
    have hvalue (k i j : Nat) (vs : List Float) (hi : (v.sources .lpsolve)[k]? = some i)
        (hvs : Entry.kept (d.valuesAt i j) = vs) : t.valuesAt k j = vs := (hvalues k i hi j).trans hvs
    refine ⟨w', bounds, t, hon, htells, hbounds.1, hbounds.2, ht, hheight.trans (by decide +kernel), ?_, ?_, ?_, ?_⟩
    · exact hvalue 0 0 0 [] (by decide +kernel) (by decide +kernel)
    · exact hvalue 0 0 1 [5] (by decide +kernel) (by decide +kernel)
    · exact hvalue 1 0 1 [5] (by decide +kernel) (by decide +kernel)
    · exact hvalue 2 2 0 [5] (by decide +kernel) (by decide +kernel)

end LinearProgram
