import LinearProgram.Model.Arrays
import LinearProgram.Proofs.Compressed

/-!
# Matrices as data

A matrix may be given as a table, as a single row, as zeros, in compressed rows or by entries at coordinates. In each
form, a position has a list of values: none, one, or several that are meant to be added up. `MatrixData.valuesAt`
says which these are.

All forms are brought into compressed rows, where rows are cut out by pointers. `MatrixData.Reads` says that nothing
gets lost or shifted on the way: each position keeps its values, apart from what a conversion may do to them, which
is to drop a zero or to add them up, `Entry.Condenses`.
-/

namespace LinearProgram

open Double (toReal)
open Program (Exact)

/-! ## §1 Values at a position -/

namespace Entry

/-- What is shown of the values at a position: their sum, unless it is zero. -/
def kept (vs : List Float) : List Float := [total vs].filter fun v => !(v == 0)

/-- What a conversion may do to the values at a position: nothing, drop a zero, or add them up. -/
inductive Condenses : List Float → List Float → Prop
  | same (vs : List Float) : Condenses vs vs
  | dropped {v : Float} (h : (v == 0) = true) : Condenses [v] []
  | added (vs : List Float) : Condenses vs (sums vs)

namespace Condenses

variable {vs vs' : List Float}

/-- A conversion does not change what is shown. -/
theorem kept_eq (h : Condenses vs vs') : kept vs' = kept vs := by
  have hnone : kept [] = [] := by decide +kernel
  cases h with
  | same => rfl
  -- a zero is kept in neither list
  | @dropped v h =>
    have hzero : kept [v] = [] := by simp [kept, total, h]
    rw [hnone, hzero]
  | added =>
    cases vs with
    | nil => rfl
    | cons v vs => rfl

/-- A conversion does not change the sum, provided that doubles add up exactly. -/
theorem sum_eq (h : Condenses vs vs') (hexact : Exact vs) : (vs'.map toReal).sum = (vs.map toReal).sum := by
  cases h with
  | same => rfl
  | @dropped v h => simp [Double.toReal_eq_zero_of_beq h]
  -- the sum was exact, so adding up beforehand does not round
  | added =>
    rw [← hexact.total]
    cases vs with
    | nil => simp [sums, total]
    | cons v vs => simp [sums, total]

end Condenses

/-- Where something stands after adding up, something stood before. -/
theorem exists_isAt_of_mem_merge {es : List Entry} {e : Entry} (h : e ∈ merge (es.mergeSort before)) :
    ∃ e' ∈ es, e'.row = e.row ∧ e'.column = e.column := by
  have hvalue := mem_cell h
  rw [cell_merge_mergeSort] at hvalue
  by_contra hnone
  have hnil : cell es e.row e.column = [] := cell_eq_nil fun e' he' hat => hnone ⟨e', he', isAt_iff.mp hat⟩
  rw [hnil] at hvalue
  cases hvalue

end Entry

namespace Compressed

/-- The values of the matrix at a position, in order. -/
def valuesAt (c : Compressed) (i j : Nat) : List Float := ((c.row i).filter fun t => t.1 == (j : Int)).map (·.2)

/-- The rows take up all of the columns and values, of which there are equally many, and the columns exist. -/
structure Sized (c : Compressed) : Prop where
  columns_length : c.columns.length = c.values.length
  last : c.starts.getLastD 0 = c.columns.length
  columns : ∀ j ∈ c.columns, 0 ≤ j ∧ j < c.width

variable {c : Compressed} {height width : Nat} {es : List Entry}

/-- Nothing lies behind the last row. -/
theorem Sized.trimmed_eq (h : c.Sized) : c.trimmed = c := by
  have hall {α : Type} {xs : List α} (hlength : xs.length = c.columns.length) :
      slice 0 (c.starts.getLastD 0) xs = xs := by
    rw [h.last]
    exact (slice_ofNat 0 c.columns.length xs).trans (by simp [← hlength])
  unfold trimmed
  dsimp only
  rw [hall rfl, hall h.columns_length.symm]

/-- The columns in a row exist. -/
theorem Sized.mem_row (h : c.Sized) {i : Nat} {t : Int × Float} (ht : t ∈ c.row i) : 0 ≤ t.1 ∧ t.1 < c.width :=
  h.columns t.1 (List.of_mem_zip (List.mem_of_mem_take (List.mem_of_mem_drop ht))).1

/-- A matrix of sorted entries has their values. -/
theorem valuesAt_ofSorted (hes : es.Pairwise fun a b => a.row ≤ b.row) {i : Nat} (hi : i < height) (j : Nat) :
    (ofSorted height width es).valuesAt i j = Entry.cell es i j := by
  unfold valuesAt Entry.cell
  rw [row_ofSorted hes hi, List.filter_map, List.map_map, List.filter_filter]
  refine congrArg (List.map _) (List.filter_congr fun e _ => ?_)
  exact Bool.and_comm _ _

/-- A matrix of entries that lie in it has the sizes that belong together. -/
theorem sized_ofSorted (hinside : ∀ e ∈ es, e.Inside height width) : (ofSorted height width es).Sized where
  columns_length := by simp [ofSorted]
  last := by
    -- the last pointer counts every entry, since all rows lie below the height
    have hall : es.countP (fun e => decide (e.row < (height : Int))) = es.length :=
      List.countP_eq_length.mpr fun e he => decide_eq_true (hinside e he).2.1
    simp [ofSorted, List.range_succ, hall]
  columns j hj := by
    obtain ⟨e, he, rfl⟩ := List.mem_map.mp hj
    exact (hinside e he).2.2

end Compressed

namespace Number

def double (n : Number) : Float := n.toDouble.toOption.getD 0

def integer (n : Number) : Int := n.toInteger.toOption.getD 0

variable {n : Number}

theorem double_eq {x : Float} (h : n.toDouble = .ok x) : n.double = x := by
  rw [double, h]
  rfl

theorem integer_eq {i : Int} (h : n.toInteger = .ok i) : n.integer = i := by
  rw [integer, h]
  rfl

/-- A number that fits is the integer that it was. -/
theorem integer_eq_of_toElement {bits : Nat} {i : Int} (h : Vector.toElement bits n = .ok i) : n.integer = i := by
  obtain ⟨i', hi', h⟩ := Program.bind_eq_ok h
  split at h
  · cases h
    exact integer_eq hi'
  · cases h

/-- A coordinate that can be read is the integer that it was. -/
theorem integer_eq_of_coordinate {i : Int} (h : MatrixData.coordinate n = .ok i) : n.integer = i := by
  unfold MatrixData.coordinate at h
  split at h
  · cases h
  · exact integer_eq_of_toElement h

/-- A list that can be converted becomes what its members become. -/
theorem eq_map_of_mapM {α β : Type} {f : α → Except Fault β} {g : α → β} (hfg : ∀ x y, f x = .ok y → g x = y)
    {xs : List α} {ys : List β} (h : xs.mapM f = .ok ys) : ys = xs.map g := by
  induction xs generalizing ys with
  | nil =>
    cases h
    rfl
  | cons x rest ih =>
    rw [List.mapM_cons] at h
    obtain ⟨y, hy, h⟩ := Program.bind_eq_ok h
    obtain ⟨others, hothers, h⟩ := Program.bind_eq_ok h
    cases h
    rw [List.map_cons, hfg x y hy, ih hothers]

end Number

/-! ## §2 Data -/

namespace MatrixData

/-- How many rows the data have. A table without rows counts as a single empty one. -/
def height : MatrixData → Nat
  | table [] | single _ => 1
  | table rows => rows.length
  | zeros height _ | compressed height .. | coordinates height .. => height.toNat

def width : MatrixData → Nat
  | table rows => (rows.headD []).length
  | single row => row.length
  | zeros _ width | compressed _ width .. | coordinates _ width .. => width.toNat

def tableAt (rows : List (List Number)) (i j : Nat) : List Float :=
  (((rows[i]?).bind (·[j]?)).map Number.double).toList

/-- The values at a position, in the order in which they were given. Compressed rows give to row `i` what stands
from the pointer of this row up to the pointer of the next one. -/
def valuesAt (d : MatrixData) (i j : Nat) : List Float :=
  match d with
  | table rows => tableAt rows i j
  | single row => tableAt [row] i j
  | zeros .. => []
  | compressed _ _ starts columns values =>
    let pointer (i : Nat) : Int := ((starts[i]?).map Number.integer).getD 0
    ((columns.zip values).zipIdx.filter fun ((c, _), k) =>
      decide (pointer i ≤ k ∧ (k : Int) < pointer (i + 1)) && c.integer == (j : Int)).map fun ((_, v), _) => v.double
  | coordinates _ _ rows columns values =>
    (((rows.zip columns).zip values).filter fun ((r, c), _) =>
      r.integer == (i : Int) && c.integer == (j : Int)).map fun (_, v) => v.double

/-- Pointers do not decrease, and columns exist. That the first pointer is zero and that there are as many pointers,
columns and values as there should be, is looked at when the data are read; entries at coordinates are looked at
altogether. -/
def Proper : MatrixData → Prop
  | compressed _ width starts columns _ =>
    (starts.map Number.integer).Pairwise (· ≤ ·) ∧ ∀ c ∈ columns, 0 ≤ c.integer ∧ c.integer < width
  | _ => True

instance : (d : MatrixData) → Decidable d.Proper
  | compressed .. => inferInstanceAs (Decidable (_ ∧ _))
  | table _ | single _ | zeros .. | coordinates .. => inferInstanceAs (Decidable True)

/-- The compressed matrix is what the data say. -/
structure Reads (d : MatrixData) (c : Compressed) : Prop where
  height : c.height = d.height
  width : c.width = d.width
  sized : c.Sized
  values : ∀ i < d.height, ∀ j, Entry.Condenses (d.valuesAt i j) (c.valuesAt i j)

/-! ## §3 Tables -/

/-- The entries of one row of a table, from column `k` on. -/
private theorem cell_tableRow (row : List Float) (i k i' j : Nat) :
    Entry.cell (((row.zipIdx k).filter fun (x, _) => !(x == 0)).map fun (x, j) =>
        ({ row := i, column := j, value := x } : Entry)) i' j =
      if i = i' ∧ k ≤ j then (row[j - k]?).toList.filter fun x => !(x == 0) else [] := by
  induction row generalizing k with
  | nil => simp
  | cons x rest ih =>
    let entry : Entry := ⟨i, k, x⟩
    have hat : entry.isAt i' j = true ↔ i = i' ∧ k = j := by
      rw [Entry.isAt_iff]
      exact and_congr Int.ofNat_inj Int.ofNat_inj
    -- the first entry counts only if it stands in the column and is not zero
    have hrest : Entry.cell (((x :: rest).zipIdx k).filter (fun (x, _) => !(x == 0)) |>.map fun (x, j) =>
        ({ row := i, column := j, value := x } : Entry)) i' j =
        (if i = i' ∧ k = j then [x].filter fun x => !(x == 0) else []) ++
          if i = i' ∧ k + 1 ≤ j then (rest[j - (k + 1)]?).toList.filter fun x => !(x == 0) else [] := by
      rw [← ih (k + 1), List.zipIdx_cons]
      cases hx : x == 0 with
      | true => simp [hx]
      | false =>
        rw [List.filter_cons_of_pos (by simp [hx]), List.map_cons]
        by_cases hij : i = i' ∧ k = j
        · rw [Entry.cell_cons_of_isAt (hat.mpr hij), if_pos hij]
          simp [hx, entry]
        · rw [Entry.cell_cons_of_not_isAt (mt hat.mp hij), if_neg hij]
          rfl
    rw [hrest]
    -- the column lies behind the first one, is it, or lies before it
    rcases Nat.lt_trichotomy k j with hlt | rfl | hgt
    · have hj : j - k = (j - (k + 1)) + 1 := by omega
      rw [if_neg (by omega), List.nil_append, hj, List.getElem?_cons_succ]
      exact if_congr (by omega) rfl rfl
    · simp
    · rw [if_neg (by omega), if_neg (by omega), if_neg (by omega)]
      rfl

/-- The entries of a table at a position are the value there, unless it is zero. -/
private theorem cell_tableEntries (rows : List (List Float)) (i j : Nat) :
    Entry.cell (Compressed.tableEntries rows) i j =
      ((rows[i]?).bind (·[j]?)).toList.filter fun x => !(x == 0) := by
  have hfrom (k : Nat) : Entry.cell (((rows.zipIdx k).map fun r =>
      (r.1.zipIdx.filter fun (x, _) => !(x == 0)).map fun (x, j) =>
        ({ row := r.2, column := j, value := x } : Entry)).flatten) i j =
      if k ≤ i then ((rows[i - k]?).bind (·[j]?)).toList.filter fun x => !(x == 0) else [] := by
    -- for rows that are numbered from any number on, by induction on the rows
    induction rows generalizing k with
    | nil => simp
    | cons row rest ih =>
      rw [List.zipIdx_cons, List.map_cons, List.flatten_cons, Entry.cell_append, ih (k + 1), cell_tableRow]
      rcases Nat.lt_trichotomy k i with hlt | rfl | hgt
      · have hi : i - k = (i - (k + 1)) + 1 := by omega
        rw [if_neg (by omega), List.nil_append, hi, List.getElem?_cons_succ]
        exact if_congr (by omega) rfl rfl
      · simp
      · rw [if_neg (by omega), if_neg (by omega), if_neg (by omega)]
        rfl
  exact hfrom 0

/-- The entries of a table lie in it, row by row. -/
private theorem inside_tableEntries {rows : List (List Float)} {width : Nat} (h : ∀ row ∈ rows, row.length = width) :
    (∀ e ∈ Compressed.tableEntries rows, e.Inside rows.length width) ∧
      (Compressed.tableEntries rows).Pairwise fun a b => a.row ≤ b.row := by
  constructor
  · intro e he
    obtain ⟨es, hes, he⟩ := List.mem_flatten.mp he
    obtain ⟨⟨row, i⟩, hrow, rfl⟩ := List.mem_map.mp hes
    obtain ⟨⟨x, j⟩, hx, rfl⟩ := List.mem_map.mp he
    have hi := List.mem_zipIdx hrow
    have hj := List.mem_zipIdx (List.mem_filter.mp hx).1
    have hlength : row.length = width := h row (hi.2.2 ▸ List.getElem_mem _)
    unfold Entry.Inside
    dsimp only
    omega
  · -- the rows of the table come with increasing indices, and the entries of a row share theirs
    have hindices : (rows.zipIdx.map (·.2)).Pairwise (· < ·) := by
      rw [List.zipIdx_map_snd]
      exact List.pairwise_lt_range'
    refine List.pairwise_flatten.mpr ⟨fun es hes => ?_, ?_⟩
    · obtain ⟨⟨row, i⟩, -, rfl⟩ := List.mem_map.mp hes
      exact List.pairwise_map.mpr (List.pairwise_of_forall fun _ _ => le_refl _)
    · refine List.pairwise_map.mpr ((List.pairwise_map.mp hindices).imp fun {a b} hlt e he e' he' => ?_)
      obtain ⟨-, -, rfl⟩ := List.mem_map.mp he
      obtain ⟨-, -, rfl⟩ := List.mem_map.mp he'
      exact Int.ofNat_le.mpr (Nat.le_of_lt hlt)

variable {c : Compressed}

/-- Rows of one length are read as a table. -/
private theorem reads_ofTable (rows : List (List Number)) (height width : Nat) (hheight : rows.length = height)
    (hwidth : ∀ row ∈ rows, row.length = width) :
    let c := Compressed.ofTable height width (rows.map fun row => row.map Number.double)
    c.Sized ∧ ∀ i < height, ∀ j, Entry.Condenses (tableAt rows i j) (c.valuesAt i j) := by
  intro c
  subst hheight
  have hwidth' : ∀ row ∈ rows.map fun row => row.map Number.double, row.length = width := by simpa using hwidth
  obtain ⟨hinside, hsorted⟩ := inside_tableEntries hwidth'
  rw [List.length_map] at hinside
  refine ⟨Compressed.sized_ofSorted hinside, fun i hi j => ?_⟩
  have hvalues : c.valuesAt i j = (tableAt rows i j).filter fun x => !(x == 0) := by
    refine (Compressed.valuesAt_ofSorted hsorted hi j).trans ((cell_tableEntries _ i j).trans ?_)
    unfold tableAt
    rw [List.getElem?_map]
    cases rows[i]? with
    | none => rfl
    | some row => simp
  -- a table has one value at a position, which is dropped if it is zero
  rw [hvalues]
  unfold tableAt
  cases hvalue : ((rows[i]?).bind (·[j]?)).map Number.double with
  | none => exact .same []
  | some x =>
    cases hx : x == 0 with
    | true => simpa [hx] using Entry.Condenses.dropped hx
    | false => simpa [hx] using Entry.Condenses.same [x]

/-- A table is read with all values that are not zero. -/
private theorem reads_table {rows : List (List Number)} (h : (table rows).read = .ok c) : (table rows).Reads c := by
  cases rows with
  -- no rows at all are read as one empty row
  | nil =>
    cases h
    obtain ⟨hsized, hvalues⟩ := reads_ofTable [[]] 1 0 rfl (by simp)
    refine ⟨rfl, rfl, hsized, fun i hi j => ?_⟩
    obtain rfl : i = 0 := Nat.lt_one_iff.mp hi
    exact hvalues 0 hi j
  | cons first rest =>
    simp only [read] at h
    split_ifs at h with hany
    obtain ⟨rows', hrows, h⟩ := Program.bind_eq_ok h
    cases h
    obtain rfl := Number.eq_map_of_mapM (fun _ _ hrow =>
      (Number.eq_map_of_mapM (fun _ _ => Number.double_eq) hrow).symm) hrows
    have hwidth : ∀ row ∈ first :: rest, row.length = first.length := by
      intro row hrow
      rcases List.mem_cons.mp hrow with rfl | hrow
      · rfl
      · simpa using List.any_eq_false.mp (Bool.eq_false_iff.mpr hany) row hrow
    obtain ⟨hsized, hvalues⟩ := reads_ofTable (first :: rest) (rest.length + 1) first.length rfl hwidth
    exact ⟨rfl, rfl, hsized, hvalues⟩

/-- A single row is read as a table of one. -/
private theorem reads_single {row : List Number} (h : (single row).read = .ok c) : (single row).Reads c := by
  obtain ⟨row', hrow, h⟩ := Program.bind_eq_ok h
  cases h
  obtain rfl := Number.eq_map_of_mapM (fun _ _ => Number.double_eq) hrow
  obtain ⟨hsized, hvalues⟩ := reads_ofTable [row] 1 row.length rfl (by simp)
  rw [List.length_map]
  exact ⟨rfl, rfl, hsized, hvalues⟩

/-! ## §4 Zeros, compressed rows and coordinates -/

/-- Zeros have no values to read. -/
private theorem reads_zeros {height width : Int} (h : (zeros height width).read = .ok c) :
    (zeros height width).Reads c := by
  simp only [read] at h
  split_ifs at h
  · cases h
  obtain ⟨-, -, h⟩ := Program.bind_eq_ok h
  obtain ⟨-, -, h⟩ := Program.bind_eq_ok h
  cases h
  refine ⟨rfl, rfl, Compressed.sized_ofSorted (by simp), fun i hi j => ?_⟩
  exact (Compressed.valuesAt_ofSorted List.Pairwise.nil hi j).symm ▸ .same []

theorem shape_eq_ok {height width : Int} {p : Nat × Nat} (h : shape height width = .ok p) :
    p = (height.toNat, width.toNat) := by
  unfold shape at h
  split_ifs at h
  exact (Except.ok.inj h).symm

/-- The items from one position up to another, picked by their positions. -/
private theorem map_filter_zipIdx {α : Type} (xs : List α) (first last k : Nat) :
    ((xs.zipIdx k).filter fun p => decide (k + first ≤ p.2 ∧ p.2 < k + last)).map (·.1) =
      (xs.take last).drop first := by
  induction xs generalizing first last k with
  | nil => simp
  | cons x rest ih =>
    cases last with
    | zero =>
      refine (congrArg (List.map _) (List.filter_eq_nil_iff.mpr fun p _ => ?_)).trans (by simp)
      simp only [decide_eq_true_eq]
      omega
    | succ last =>
      -- the positions of the rest start one later
      have hrest : (rest.zipIdx (k + 1)).filter (fun p => decide (k + first ≤ p.2 ∧ p.2 < k + (last + 1))) =
          (rest.zipIdx (k + 1)).filter fun p => decide (k + 1 + (first - 1) ≤ p.2 ∧ p.2 < k + 1 + last) := by
        refine List.filter_congr fun p hp => decide_eq_decide.mpr ?_
        have hk := List.le_snd_of_mem_zipIdx hp
        omega
      rw [List.zipIdx_cons]
      cases first with
      | zero =>
        rw [List.filter_cons_of_pos (by simp), List.map_cons, hrest, ih]
        rfl
      | succ first =>
        rw [List.filter_cons_of_neg (by simp), hrest, ih]
        rfl

end MatrixData

namespace Compressed

variable {c : Compressed}

def pointer (c : Compressed) (i : Nat) : Int := (c.starts[i]?).getD 0

/-- There is a pointer for each row and one more; the first is zero, they do not decrease, and the last one points at
what there is. -/
structure Pointed (c : Compressed) : Prop where
  starts_length : c.starts.length = c.height + 1
  first : c.starts.head? = some 0
  ordered : c.starts.Pairwise (· ≤ ·)
  columns_length : c.columns.length = c.values.length
  last : c.starts.getLastD 0 ≤ c.columns.length

theorem Pointed.pointer_zero (h : c.Pointed) : c.pointer 0 = 0 := by
  rw [pointer, ← List.head?_eq_getElem?, h.first, Option.getD_some]

theorem Pointed.pointer_height (h : c.Pointed) : c.pointer c.height = c.starts.getLastD 0 := by
  rw [pointer, List.getLastD_eq_getLast?, List.getLast?_eq_getElem?, h.starts_length, Nat.add_sub_cancel]

/-- The pointers do not decrease. -/
theorem Pointed.pointer_mono (h : c.Pointed) {i k : Nat} (hik : i ≤ k) (hk : k ≤ c.height) :
    c.pointer i ≤ c.pointer k := by
  have hlength := h.starts_length
  unfold pointer
  rw [List.getElem?_eq_getElem (by omega), List.getElem?_eq_getElem (by omega), Option.getD_some, Option.getD_some]
  rcases Nat.lt_or_eq_of_le hik with hlt | rfl
  · exact List.pairwise_iff_getElem.mp h.ordered i k _ (by omega) hlt
  · exact le_refl _

theorem Pointed.pointer_nonneg (h : c.Pointed) {i : Nat} (hi : i ≤ c.height) : 0 ≤ c.pointer i :=
  h.pointer_zero ▸ h.pointer_mono (Nat.zero_le i) hi

private theorem slice_zero {α : Type} (last : Nat) (xs : List α) : slice 0 last xs = xs.take last :=
  (slice_ofNat 0 last xs).trans List.drop_zero

/-- What is left of a matrix has the rows that its pointers say. -/
theorem Pointed.row_trimmed (h : c.Pointed) {i : Nat} (hi : i < c.height) : c.trimmed.row i =
    ((c.columns.zip c.values).zipIdx.filter fun p =>
      decide (c.pointer i ≤ p.2 ∧ (p.2 : Int) < c.pointer (i + 1))).map (·.1) := by
  have hle := h.pointer_mono (show i + 1 ≤ c.height from hi) (Nat.le_refl _)
  obtain ⟨first, hfirst⟩ := Int.eq_ofNat_of_zero_le (h.pointer_nonneg (Nat.le_of_lt hi))
  obtain ⟨next, hnext⟩ := Int.eq_ofNat_of_zero_le (h.pointer_nonneg (show i + 1 ≤ c.height from hi))
  obtain ⟨last, hlast⟩ := Int.eq_ofNat_of_zero_le (h.pointer_nonneg (Nat.le_refl c.height))
  -- the row is cut out of what was cut at the last pointer, and no pointer is behind that one
  have hrow : c.trimmed.row i = slice (c.pointer i) (c.pointer (i + 1))
      ((slice 0 (c.starts.getLastD 0) c.columns).zip (slice 0 (c.starts.getLastD 0) c.values)) := rfl
  have hzip : (c.columns.take last).zip (c.values.take last) = (c.columns.zip c.values).take last :=
    List.take_zipWith.symm
  rw [hlast, hnext, Int.ofNat_le] at hle
  rw [hrow, hfirst, hnext, ← h.pointer_height, hlast, slice_zero, slice_zero, hzip, slice_ofNat,
    List.take_take, Nat.min_eq_left hle, ← MatrixData.map_filter_zipIdx _ first next 0]
  refine congrArg (List.map _) (List.filter_congr fun p _ => decide_eq_decide.mpr ?_)
  omega

/-- When the matrix has been trimmed, its sizes belong together. -/
theorem Pointed.sized_trimmed (h : c.Pointed) (hcolumns : ∀ j ∈ c.columns, 0 ≤ j ∧ j < c.width) :
    c.trimmed.Sized := by
  obtain ⟨last, hlast⟩ := Int.eq_ofNat_of_zero_le (h.pointer_nonneg (Nat.le_refl c.height))
  rw [h.pointer_height] at hlast
  have hle := h.last
  have hlength := h.columns_length
  rw [hlast, Int.ofNat_le] at hle
  -- what stands behind the last pointer is cut off
  have htrimmed : c.trimmed = { c with columns := c.columns.take last, values := c.values.take last } := by
    unfold trimmed
    dsimp only
    rw [hlast, slice_zero, slice_zero]
  rw [htrimmed]
  refine ⟨?_, ?_, fun j hj => hcolumns j (List.mem_of_mem_take hj)⟩
  · rw [List.length_take, List.length_take, hlength]
  · rw [hlast, List.length_take, Nat.min_eq_left hle]

end Compressed

namespace MatrixData

/-- Compressed rows are read as they are. -/
private theorem reads_compressed {height width : Int} {starts columns values : List Number}
    (h : (compressed height width starts columns values).read = .ok c)
    (hd : (compressed height width starts columns values).Proper) :
    (compressed height width starts columns values).Reads c := by
  obtain ⟨values', hvalues, h⟩ := Program.bind_eq_ok h
  obtain ⟨columns', hcolumns, h⟩ := Program.bind_eq_ok h
  obtain ⟨starts', hstarts, h⟩ := Program.bind_eq_ok h
  obtain rfl := Number.eq_map_of_mapM (fun _ _ => Number.double_eq) hvalues
  obtain rfl := Number.eq_map_of_mapM (fun _ _ => Number.integer_eq_of_toElement) hcolumns
  obtain rfl := Number.eq_map_of_mapM (fun _ _ => Number.integer_eq_of_toElement) hstarts
  -- whether the extents were looked at does not matter any more
  obtain ⟨shape', hshape, h⟩ : ∃ shape', shape height width = .ok shape' ∧
      (if (starts.map Number.integer).length = shape'.1 + 1 ∧
          (columns.map Number.integer).length = (values.map Number.double).length ∧
          (starts.map Number.integer).head? = some 0 ∧
          (starts.map Number.integer).getLastD 0 ≤ (columns.map Number.integer).length then
        pure (Compressed.trimmed ⟨shape'.1, shape'.2, starts.map Number.integer, columns.map Number.integer,
          values.map Number.double⟩)
      else .error .malformedMatrix : Except Fault Compressed) = .ok c := by
    dsimp only at h
    split_ifs at h
    · obtain ⟨-, -, h⟩ := Program.bind_eq_ok h
      exact Program.bind_eq_ok h
    · exact Program.bind_eq_ok h
  obtain rfl := shape_eq_ok hshape
  split_ifs at h with hall
  cases h
  let raw : Compressed := ⟨height.toNat, width.toNat, starts.map Number.integer, columns.map Number.integer,
    values.map Number.double⟩
  obtain ⟨hordered, hcolumns'⟩ := hd
  have hpointed : raw.Pointed := ⟨hall.1, hall.2.2.1, hordered, hall.2.1, hall.2.2.2⟩
  have hin : ∀ j ∈ raw.columns, 0 ≤ j ∧ j < raw.width := by
    intro j hj
    obtain ⟨n, hn, rfl⟩ := List.mem_map.mp hj
    have hn := hcolumns' n hn
    show 0 ≤ n.integer ∧ n.integer < (width.toNat : Int)
    omega
  refine ⟨rfl, rfl, hpointed.sized_trimmed hin, fun i hi j => ?_⟩
  have hvalues' : raw.trimmed.valuesAt i j = (compressed height width starts columns values).valuesAt i j := by
    have hzip : raw.columns.zip raw.values = (columns.zip values).map (Prod.map Number.integer Number.double) :=
      List.zip_map ..
    have hpointer (i : Nat) : raw.pointer i = ((starts[i]?).map Number.integer).getD 0 :=
      congrArg (Option.getD · 0) List.getElem?_map
    rw [Compressed.valuesAt, hpointed.row_trimmed hi, hzip, hpointer, hpointer]
    simp only [List.zipIdx_map, List.filter_map, List.map_map, List.filter_filter]
    exact congrArg (List.map _) (List.filter_congr fun p _ => Bool.and_comm _ _)
  exact hvalues' ▸ .same _

/-- Entries at coordinates are read with the sums of those at one position. -/
private theorem reads_coordinates {height width : Int} {rows columns values : List Number}
    (h : (coordinates height width rows columns values).read = .ok c) :
    (coordinates height width rows columns values).Reads c := by
  obtain ⟨values', hvalues, h⟩ := Program.bind_eq_ok h
  obtain ⟨shape', hshape, h⟩ := Program.bind_eq_ok h
  obtain rfl := shape_eq_ok hshape
  obtain ⟨-, -, h⟩ := Program.bind_eq_ok h
  obtain ⟨rows', hrows, h⟩ := Program.bind_eq_ok h
  obtain ⟨columns', hcolumns, h⟩ := Program.bind_eq_ok h
  obtain rfl := Number.eq_map_of_mapM (fun _ _ => Number.double_eq) hvalues
  obtain rfl := Number.eq_map_of_mapM (fun _ _ => Number.integer_eq_of_coordinate) hrows
  obtain rfl := Number.eq_map_of_mapM (fun _ _ => Number.integer_eq_of_coordinate) hcolumns
  dsimp only at h
  split_ifs at h with hall
  obtain ⟨-, -, h⟩ := Program.bind_eq_ok h
  cases h
  let es : List Entry := Entries.toList ⟨rows.map Number.integer, columns.map Number.integer, values.map Number.double⟩
  let merged : List Entry := Entry.merge (es.mergeSort Entry.before)
  have hinside : ∀ e ∈ merged, e.Inside height.toNat width.toNat := by
    intro e he
    obtain ⟨e', he', hrow, hcolumn⟩ := Entry.exists_isAt_of_mem_merge he
    have hin := of_decide_eq_true (List.all_eq_true.mp hall.2.2 e' he')
    unfold Entry.Inside
    omega
  have hsorted := (Entry.pairwise_merge_mergeSort es).imp Entry.Precedes.row_le
  refine ⟨rfl, rfl, Compressed.sized_ofSorted hinside, fun i hi j => ?_⟩
  have hes : es = ((rows.zip columns).zip values).map fun p => ⟨p.1.1.integer, p.1.2.integer, p.2.double⟩ := by
    simp [es, Entries.toList, List.zip_map, Function.comp_def]
  -- the values come in the order in which they were given, so that their sum is the same double
  have hcell : Entry.cell es i j = (coordinates height width rows columns values).valuesAt i j := by
    rw [hes, Entry.cell, List.filter_map, List.map_map]
    rfl
  have hvalue : (Compressed.ofSorted height.toNat width.toNat merged).valuesAt i j = Entry.sums (Entry.cell es i j) :=
    (Compressed.valuesAt_ofSorted hsorted hi j).trans (Entry.cell_merge_mergeSort es i j)
  rw [hcell] at hvalue
  exact hvalue ▸ .added _

/-- **Reading keeps the values at every position.** -/
theorem reads {d : MatrixData} (h : d.read = .ok c) (hd : d.Proper) : d.Reads c := by
  cases d with
  | table rows => exact reads_table h
  | single row => exact reads_single h
  | zeros height width => exact reads_zeros h
  | compressed height width starts columns values => exact reads_compressed h hd
  | coordinates height width rows columns values => exact reads_coordinates h

end MatrixData

end LinearProgram
