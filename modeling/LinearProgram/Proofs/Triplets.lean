import LinearProgram.Proofs.Appending
import LinearProgram.Proofs.Coalescing
import LinearProgram.Proofs.Program

/-!
# What triplets hold

The triplets of rows that were appended one after the other: one entry for each position whose values do not
sum to zero, with that sum. As a multiset this is said by `Entry.coe_coalesce`, for any list of entries, and
it rests on coalesced entries standing in strict order, `Entry.pairwise_coalesce`. Positions are reduced to
32 bits, which identifies none of them as long as they are small.

In real numbers, coalescing does not change what a matrix does to a vector, `Entry.product_coalesce`. There
doubles have to add up exactly, which `Program.Exact` says of a cell.

The main statement is `Entries.triplets_of_storeAll`.
-/

namespace LinearProgram

open Double (toReal)
open Program (Exact)

namespace Entry

/-! ## §1 The order of coalesced entries -/

/-- One entry stands before another, in another cell. -/
def Precedes (a b : Entry) : Prop := a.row < b.row ∨ a.row = b.row ∧ a.column < b.column

theorem Precedes.row_le {a b : Entry} (h : a.Precedes b) : a.row ≤ b.row :=
  h.elim le_of_lt fun hsame => hsame.1.le

/-- An entry that does not stand at the position of the next one stands strictly before what comes then. -/
private theorem precedes_of_before {a b c : Entry} (hab : a.before b = true) (hne : ¬ a.sameCell b = true)
    (hbc : b.before c = true) : a.Precedes c := by
  rw [sameCell_iff] at hne
  simp only [before, Bool.or_eq_true, Bool.and_eq_true, decide_eq_true_eq, beq_iff_eq] at hab hbc
  unfold Precedes
  omega

/-- Merging an entry into those behind it keeps them in strict order, and nothing gets before it. -/
private theorem pairwise_mergeInto {a : Entry} {es : List Entry}
    (hsorted : (a :: es).Pairwise (fun a b => a.before b = true)) :
    (merge.mergeInto a es).Pairwise Precedes ∧ ∀ e ∈ merge.mergeInto a es, a.before e = true := by
  have hself (a : Entry) : a.before a = true := by simp [before]
  induction es generalizing a with
  | nil =>
    unfold merge.mergeInto
    exact ⟨List.pairwise_singleton _ _, by simp [hself]⟩
  | cons b rest ih =>
    have hab : a.before b = true := List.rel_of_pairwise_cons hsorted (List.mem_cons_self ..)
    unfold merge.mergeInto
    -- the next entry is summed into the first one, or comes strictly behind it
    by_cases hsame : a.sameCell b = true
    · have hmerged : ((⟨a.row, a.column, a.value + b.value⟩ : Entry) :: rest).Pairwise
          (fun a b => a.before b = true) :=
        List.pairwise_cons.mpr ⟨fun e he => List.rel_of_pairwise_cons hsorted (List.mem_cons_of_mem _ he),
          hsorted.of_cons.of_cons⟩
      rw [if_pos hsame]
      exact ih hmerged
    · obtain ⟨hpairwise, hafter⟩ := ih hsorted.of_cons
      rw [if_neg hsame]
      refine ⟨List.pairwise_cons.mpr ⟨fun e he => precedes_of_before hab hsame (hafter e he), hpairwise⟩, ?_⟩
      intro e he
      rcases List.mem_cons.mp he with rfl | he
      · exact hself e
      · exact before_trans _ _ _ hab (hafter e he)

/-- Entries that were sorted and added up stand in order, each in a cell of its own. -/
theorem pairwise_merge_mergeSort (es : List Entry) : (merge (es.mergeSort before)).Pairwise Precedes := by
  have hsorted := List.pairwise_mergeSort before_trans before_total es
  cases hes : es.mergeSort before with
  | nil => exact List.Pairwise.nil
  | cons a rest =>
    rw [hes] at hsorted
    exact (pairwise_mergeInto hsorted).1

/-- **Coalesced entries stand in order, each in a cell of its own.** -/
theorem pairwise_coalesce (es : List Entry) : (coalesce es).Pairwise Precedes :=
  (pairwise_merge_mergeSort es).filter _

/-! ## §2 Coalesced entries as a multiset -/

def position (e : Entry) : Int × Int := (e.row, e.column)

def summed (es : List Entry) (p : Int × Int) : Entry := ⟨p.1, p.2, total (cell es p.1 p.2)⟩

/-- The positions of the entries whose values do not sum to zero. -/
def support (es : List Entry) : Finset (Int × Int) :=
  (es.map position).toFinset.filter fun p => ((summed es p).value == 0) = false

theorem mem_support {es : List Entry} {p : Int × Int} :
    p ∈ support es ↔ (∃ e ∈ es, e.position = p) ∧ ((summed es p).value == 0) = false := by
  rw [support, Finset.mem_filter, List.mem_toFinset, List.mem_map]

/-- No position comes twice in coalesced entries. -/
theorem nodup_position_coalesce (es : List Entry) : ((coalesce es).map position).Nodup := by
  refine List.Pairwise.map _ (fun a b hab hsame => ?_) (pairwise_coalesce es)
  obtain ⟨hrow, hcolumn⟩ := Prod.mk.inj hsame
  unfold Precedes at hab
  omega

/-- **The coalesced entries are the sums of the positions that do not sum to zero**, each once. -/
theorem coe_coalesce (es : List Entry) :
    (coalesce es : Multiset Entry) = (support es).val.map (summed es) := by
  -- an entry tells its position, so no two positions give the same entry
  have hinjective : Function.Injective (summed es) := fun p p' h => by
    injection h with hrow hcolumn
    exact Prod.ext hrow hcolumn
  refine (Multiset.Nodup.ext ?_ ((support es).nodup.map hinjective)).mpr fun e => ?_
  · exact Multiset.coe_nodup.mpr (List.Nodup.of_map _ (nodup_position_coalesce es))
  rw [Multiset.mem_coe, Multiset.mem_map]
  constructor
  · intro he
    obtain ⟨hvalue, hne⟩ := mem_coalesce_iff.mp he
    obtain ⟨e', he', hrow, hcolumn⟩ := exists_isAt_of_mem_coalesce he
    have hsummed : summed es e.position = e := congrArg (Entry.mk e.row e.column) hvalue.symm
    refine ⟨e.position, mem_support.mpr ⟨⟨e', he', Prod.ext hrow hcolumn⟩, ?_⟩, hsummed⟩
    rwa [hsummed]
  · rintro ⟨p, hp, rfl⟩
    exact mem_coalesce_iff.mpr ⟨rfl, (mem_support.mp hp).2⟩

/-- Where doubles add up exactly, a position is kept if the sum in real numbers is not zero. -/
theorem mem_support_of_exact {es : List Entry} {p : Int × Int} (h : Exact (cell es p.1 p.2)) :
    p ∈ support es ↔ ((cell es p.1 p.2).map toReal).sum ≠ 0 := by
  rw [← h.total, mem_support]
  constructor
  · rintro ⟨-, hne⟩ hzero
    have hbeq := Double.beq_zero_of_toReal_eq_zero (h.finite _ (List.mem_cons_self ..)) hzero
    exact absurd (hne.symm.trans hbeq) Bool.false_ne_true
  · intro hne
    refine ⟨?_, Bool.eq_false_iff.mpr fun hbeq => hne (Double.toReal_eq_zero_of_beq hbeq)⟩
    -- the sum of an empty cell is zero
    by_contra hnone
    refine hne ?_
    rw [cell_eq_nil fun e he hat => hnone ⟨e, he, Prod.ext (isAt_iff.mp hat).1 (isAt_iff.mp hat).2⟩]
    exact Double.toReal_zero

/-! ## §3 Products with a vector -/

/-- A row of the product of a matrix, given by its entries, with a vector. -/
noncomputable def product (es : List Entry) (x : Int → ℝ) (i : Int) : ℝ :=
  ((es.filter fun e => e.row == i).map fun e => toReal e.value * x e.column).sum

/-- The product, added up column by column. -/
theorem product_eq_sum {es : List Entry} {columns : Finset Int} (h : ∀ e ∈ es, e.column ∈ columns)
    (x : Int → ℝ) (i : Int) :
    product es x i = ∑ j ∈ columns, ((cell es i j).map toReal).sum * x j := by
  induction es with
  | nil => simp [product]
  | cons e rest ih =>
    obtain ⟨hcolumn, hrest⟩ := List.forall_mem_cons.mp h
    have hcell (j : Int) : ((cell (e :: rest) i j).map toReal).sum =
        (if e.row = i ∧ e.column = j then toReal e.value else 0) + ((cell rest i j).map toReal).sum := by
      by_cases hat : e.isAt i j = true
      · rw [cell_cons_of_isAt hat, if_pos (isAt_iff.mp hat), List.map_cons, List.sum_cons]
      · rw [cell_cons_of_not_isAt hat, if_neg (mt isAt_iff.mpr hat), zero_add]
    have hproduct : product (e :: rest) x i =
        (if e.row = i then toReal e.value * x e.column else 0) + product rest x i := by
      unfold product
      by_cases hrow : e.row = i
      · simp [hrow]
      · simp [hrow]
    simp only [hcell, add_mul, Finset.sum_add_distrib]
    rw [hproduct, ih hrest]
    congr 1
    -- of the columns, only that of the new entry counts
    by_cases hrow : e.row = i
    · simp [hrow, hcolumn, ite_mul]
    · simp [hrow]

/-- **Coalescing does not change the product with a vector**, in a row whose values add up exactly. -/
theorem product_coalesce (es : List Entry) (x : Int → ℝ) {i : Int} (h : ∀ j, Exact (cell es i j)) :
    product (coalesce es) x i = product es x i := by
  have hcolumns : ∀ e ∈ es, e.column ∈ (es.map (·.column)).toFinset := fun e he =>
    List.mem_toFinset.mpr (List.mem_map_of_mem he)
  have hcoalesced : ∀ e ∈ coalesce es, e.column ∈ (es.map (·.column)).toFinset := fun e he => by
    obtain ⟨e', he', -, hcolumn⟩ := exists_isAt_of_mem_coalesce he
    exact hcolumn ▸ hcolumns e' he'
  rw [product_eq_sum hcolumns, product_eq_sum hcoalesced]
  refine Finset.sum_congr rfl fun j _ => ?_
  rw [cell_coalesce, ← (h j).total]
  -- a zero sum is dropped, and adds nothing to the product
  by_cases hzero : (total (cell es i j) == 0) = true
  · simp [hzero, Double.toReal_eq_zero_of_beq hzero]
  · simp [Bool.eq_false_iff.mpr hzero]

/-- The entry lies in a matrix of so many rows and columns, both counted from zero. -/
def Inside (rows columns : Int) (x : Entry) : Prop :=
  0 ≤ x.row ∧ x.row < rows ∧ 0 ≤ x.column ∧ x.column < columns

instance (rows columns : Int) (x : Entry) : Decidable (x.Inside rows columns) :=
  inferInstanceAs (Decidable (_ ∧ _))

end Entry

namespace Entries

open Entry

/-! ## §4 Reading lists of one length -/

@[simp] theorem toList_extended (es : List Entry) : (empty.extended es).toList = es := by
  simp [extended, empty, toList, List.zip_map', Function.comp_def]

/-- Lists of one length are those of their entries. -/
theorem Even.eq_extended {e : Entries} (h : e.Even) : e = empty.extended e.toList := by
  -- the three lists are equally long, so zipping loses nothing
  have hpairs : (e.rows.zip e.columns).length = e.values.length := by
    rw [List.length_zip, h.rows, h.columns, Nat.min_self]
  have hfirst : (e.rows.zip e.columns).length ≤ e.values.length := hpairs.le
  have hrows : e.toList.map (·.row) = e.rows := by
    rw [toList, List.map_map]
    show ((e.rows.zip e.columns).zip e.values).map (Prod.fst ∘ Prod.fst) = _
    rw [← List.map_map, List.map_fst_zip hfirst, List.map_fst_zip (h.rows.trans h.columns.symm).le]
  have hcolumns : e.toList.map (·.column) = e.columns := by
    rw [toList, List.map_map]
    show ((e.rows.zip e.columns).zip e.values).map (Prod.snd ∘ Prod.fst) = _
    rw [← List.map_map, List.map_fst_zip hfirst, List.map_snd_zip (h.columns.trans h.rows.symm).le]
  have hvalues : e.toList.map (·.value) = e.values := by
    rw [toList, List.map_map]
    exact List.map_snd_zip hpairs.ge
  simp only [extended, empty, List.nil_append, hrows, hcolumns, hvalues]

/-- Entries at positions that can be indices are coalesced in a shape that can be one exactly if they lie
in it. -/
theorem coalesced_extended {es : List Entry} {rows columns : Int}
    (hes : ∀ x ∈ es, isIndex x.row = true ∧ isIndex x.column = true)
    (hrows : 0 ≤ rows ∧ rows < indexLimit) (hcolumns : 0 ≤ columns ∧ columns < indexLimit) :
    (empty.extended es).coalesced rows columns =
      if ∀ x ∈ es, x.Inside rows columns then .ok (coalesce es) else .error .malformedMatrix := by
  have hindices : ((empty.extended es).rows.all isIndex && (empty.extended es).columns.all isIndex) = true := by
    simp only [extended, empty, List.nil_append, List.all_map, Bool.and_eq_true, List.all_eq_true]
    exact ⟨fun x hx => (hes x hx).1, fun x hx => (hes x hx).2⟩
  -- the checks on indices and shape pass; only the positions can fail
  have hshape : (isIndex rows && isIndex columns) = true := by
    rw [Bool.and_eq_true, isIndex_iff, isIndex_iff]
    omega
  have hinside : ((empty.extended es).toList.all fun x =>
      decide (0 ≤ x.row ∧ x.row < rows ∧ 0 ≤ x.column ∧ x.column < columns)) =
        decide (∀ x ∈ es, x.Inside rows columns) := by
    rw [toList_extended, Bool.eq_iff_iff, List.all_eq_true, decide_eq_true_iff]
    simp only [decide_eq_true_eq, Inside]
  unfold coalesced
  rw [if_neg (by simp [hindices]), if_neg (by omega), if_neg (by simp [hshape]),
    if_neg (by simp [extended, empty]), hinside, toList_extended]
  simp only [decide_eq_true_eq]

theorem le_largest {n : Int} {ns : List Int} (h : n ∈ ns) : n ≤ largest ns := by
  -- the fold never falls below its start nor below what it has passed
  have hfold (ns : List Int) (a : Int) : a ≤ ns.foldl max a ∧ ∀ n ∈ ns, n ≤ ns.foldl max a := by
    induction ns generalizing a with
    | nil => simp
    | cons m rest ih =>
      obtain ⟨hstart, hrest⟩ := ih (max a m)
      refine ⟨(le_max_left ..).trans hstart, List.forall_mem_cons.mpr ⟨?_, hrest⟩⟩
      exact (le_max_right ..).trans hstart
  cases ns with
  | nil => cases h
  | cons m rest =>
    rcases List.mem_cons.mp h with rfl | h
    · exact (hfold rest n).1
    · exact (hfold rest m).2 n h

/-- The largest number of a list is one of it. -/
theorem largest_mem {ns : List Int} (h : ns ≠ []) : largest ns ∈ ns := by
  -- the fold ends with its start or with something it has passed
  have hfold (ns : List Int) (a : Int) : ns.foldl max a ∈ a :: ns := by
    induction ns generalizing a with
    | nil => exact List.mem_cons_self ..
    | cons m rest ih =>
      rcases List.mem_cons.mp (ih (max a m)) with hmax | hmem
      · rw [List.foldl_cons, hmax]
        rcases max_choice a m with hm | hm <;> simp [hm]
      · exact List.mem_cons_of_mem _ (List.mem_cons_of_mem _ hmem)
  cases ns with
  | nil => exact absurd rfl h
  | cons m rest => exact hfold rest m

/-- Entries at positions that are not too large are coalesced in the smallest matrix that holds them. -/
theorem compact_extended {es : List Entry}
    (hes : ∀ x ∈ es, (0 ≤ x.row ∧ x.row + 1 < indexLimit) ∧ 0 ≤ x.column ∧ x.column + 1 < indexLimit) :
    (empty.extended es).compact = .ok (coalesce es) := by
  have hindices : ∀ x ∈ es, isIndex x.row = true ∧ isIndex x.column = true := fun x hx => by
    have hx := hes x hx
    rw [isIndex_iff, isIndex_iff]
    omega
  have hvalues : (empty.extended es).values = es.map (·.value) := rfl
  unfold compact
  rw [hvalues]
  -- without entries there is no largest index, and the matrix is of one row and column
  by_cases hnil : es = []
  · subst hnil
    rw [if_pos (by rfl), coalesced_extended hindices (by decide) (by decide), if_pos (by simp)]
  · have hrows : (empty.extended es).rows = es.map (·.row) := rfl
    have hcolumns : (empty.extended es).columns = es.map (·.column) := rfl
    rw [if_neg (by simpa using hnil), hrows, hcolumns]
    have hrow : ∃ x ∈ es, x.row = largest (es.map (·.row)) :=
      List.mem_map.mp (largest_mem (by simpa using hnil))
    have hcolumn : ∃ x ∈ es, x.column = largest (es.map (·.column)) :=
      List.mem_map.mp (largest_mem (by simpa using hnil))
    obtain ⟨x, hx, hrow⟩ := hrow
    obtain ⟨y, hy, hcolumn⟩ := hcolumn
    have hx := hes x hx
    have hy := hes y hy
    rw [coalesced_extended hindices (by omega) (by omega), if_pos fun z hz => ?_]
    have hz' := hes z hz
    have hrowLe : z.row ≤ largest (es.map (·.row)) := le_largest (List.mem_map_of_mem hz)
    have hcolumnLe : z.column ≤ largest (es.map (·.column)) := le_largest (List.mem_map_of_mem hz)
    unfold Inside
    omega

/-! ## §5 Rows that are all appended -/

/-- Append rows, one after the other, unless one cannot be appended. -/
def storeAll (e : Entries) : List Row → Except Fault Entries
  | [] => .ok e
  | r :: rest =>
    match e.appendRow r with
    | (e', none) => e'.storeAll rest
    | (_, some fault) => .error fault

/-- Rows that are all appended leave their entries, one row behind the other. -/
theorem extended_of_storeAll {e e' : Entries} {rs : List Row} (h : e.storeAll rs = .ok e') :
    ∃ ess, List.Forall₂ Row.Gives rs ess ∧ e' = e.extended ess.flatten := by
  induction rs generalizing e with
  | nil =>
    cases h
    exact ⟨[], .nil, by simp [extended]⟩
  | cons r rest ih =>
    have happended := appended e r
    unfold storeAll at h
    generalize e.appendRow r = after at h happended
    cases happended with
    -- `storeAll` ends at the first fault
    | refused | tornAtColumn | tornAtValue => cases h
    | @stored es _ hes =>
      obtain ⟨ess, hess, rfl⟩ := ih h
      exact ⟨es :: ess, .cons hes hess, by simp [extended]⟩

/-- The number of the row and those of its columns lie between zero and a limit. -/
def Row.Within (limit : Int) (r : Row) : Prop :=
  (0 ≤ r.number ∧ r.number ≤ limit) ∧ ∀ n ∈ r.columns, ∀ j, n.toInteger = .ok j → 0 ≤ j ∧ j ≤ limit

instance (limit : Int) (r : Row) : Decidable (r.Within limit) :=
  decidable_of_iff ((0 ≤ r.number ∧ r.number ≤ limit) ∧
      ∀ n ∈ r.columns, ∀ j ∈ n.toInteger.toOption, 0 ≤ j ∧ j ≤ limit) <| by
    have hread (n : Number) (j : Int) : j ∈ n.toInteger.toOption ↔ n.toInteger = .ok j := by
      cases n.toInteger <;> simp [Except.toOption]
    simp only [Row.Within, hread]

/-- The entries of a row within limits are within them. -/
theorem Row.Gives.within {r : Row} {es : List Entry} {limit : Int} (h : r.Gives es) (hr : r.Within limit) :
    ∀ x ∈ es, (0 ≤ x.row ∧ x.row ≤ limit) ∧ 0 ≤ x.column ∧ x.column ≤ limit := by
  intro x hx
  obtain ⟨k, hk, rfl⟩ := List.getElem_of_mem hx
  have hk' : k < (r.columns.zip r.values).length := List.Forall₂.length_eq h ▸ hk
  obtain ⟨hrow, hcolumn, -⟩ := (List.forall₂_iff_get.mp h).2 k hk' hk
  have hmem : (r.columns.zip r.values)[k].1 ∈ r.columns := (List.of_mem_zip (List.getElem_mem hk')).1
  exact ⟨hrow ▸ hr.1, hr.2 _ hmem _ hcolumn⟩

/-- The entries of rows within limits are within them. -/
theorem within_of_gives {rs : List Row} {ess : List (List Entry)} {limit : Int}
    (h : List.Forall₂ Row.Gives rs ess) (hrs : ∀ r ∈ rs, r.Within limit) :
    ∀ x ∈ ess.flatten, (0 ≤ x.row ∧ x.row ≤ limit) ∧ 0 ≤ x.column ∧ x.column ≤ limit := by
  intro x hx
  obtain ⟨es, hes, hx⟩ := List.mem_flatten.mp hx
  obtain ⟨k, hk, rfl⟩ := List.getElem_of_mem hes
  have hk' : k < rs.length := h.length_eq ▸ hk
  exact ((List.forall₂_iff_get.mp h).2 k hk' hk).within (hrs _ (List.getElem_mem hk')) x hx

end Entries

/-! ## §6 Triplets -/

namespace Triplets

open Entry

/-- The triplets are the sums of entries: three lists of one length that begin with zero, and one entry for
each position whose values do not sum to zero, with its position reduced to 32 bits. -/
structure Sums (t : Triplets) (es : List Entry) : Prop where
  rows_length : t.rows.length = t.values.length
  columns_length : t.columns.length = t.values.length
  head : t.rows.head? = some 0 ∧ t.columns.head? = some 0 ∧ t.values.head? = some 0
  entries : (t.toList : Multiset Entry) = (support es).val.map fun p => (summed es p).wrapped

/-- The triplets are the matrix of entries: each position at most once and as it is, no zeros, and the same
product with every vector, in the rows whose values add up exactly. -/
structure Matches (t : Triplets) (es : List Entry) : Prop where
  entries : (t.toList : Multiset Entry) = (support es).val.map (summed es)
  positions : (t.toList.map position).Nodup
  nonzero : ∀ x ∈ t.toList, (x.value == 0) = false
  product : ∀ (x : Int → ℝ) (i : Int), (∀ j, Exact (cell es i j)) → product t.toList x i = product es x i

end Triplets

namespace Entries

open Entry

/-- Positions of 31 bits survive the conversion to 32 bits with sign. -/
theorem wrapped_of_le {x : Entry} (h : (0 ≤ x.row ∧ x.row ≤ 2147483647) ∧ 0 ≤ x.column ∧ x.column ≤ 2147483647) :
    x.wrapped = x := by
  -- between 0 and 2^31 - 1 wrapping changes nothing
  have hrow : wrap32 x.row = x.row := by
    have hwrap := wrap32_of_lt (k := x.row.toNat) (by omega)
    rwa [Int.toNat_of_nonneg h.1.1] at hwrap
  have hcolumn : wrap32 x.column = x.column := by
    have hwrap := wrap32_of_lt (k := x.column.toNat) (by omega)
    rwa [Int.toNat_of_nonneg h.2.1] at hwrap
  rw [wrapped, hrow, hcolumn]

/-- Entries at positions that are not too large have triplets, which are their sums. -/
theorem triplets_extended {es : List Entry}
    (hes : ∀ x ∈ es, (0 ≤ x.row ∧ x.row + 1 < indexLimit) ∧ 0 ≤ x.column ∧ x.column + 1 < indexLimit) :
    ∃ t, (empty.extended es).triplets = .ok t ∧ t.Sums es := by
  -- element 0 of the three lists is reserved
  obtain ⟨t, ht⟩ : ∃ t, (empty.extended es).triplets = .ok t ∧ t.rows = 0 :: (coalesce es).map (wrap32 ·.row) ∧
      t.columns = 0 :: (coalesce es).map (wrap32 ·.column) ∧ t.values = 0 :: (coalesce es).map (·.value) := by
    unfold triplets
    rw [compact_extended hes]
    exact ⟨_, rfl, rfl, rfl, rfl⟩
  obtain ⟨ht, hrows, hcolumns, hvalues⟩ := ht
  refine ⟨t, ht, by simp [hrows, hvalues], by simp [hcolumns, hvalues], by simp [hrows, hcolumns, hvalues], ?_⟩
  rw [toList_triplets ht, toList_extended, ← Multiset.map_coe, coe_coalesce, Multiset.map_map]
  rfl

/-- At small positions the triplets are the coalesced entries themselves. -/
theorem toList_of_small {es : List Entry} {t : Triplets} (ht : (empty.extended es).triplets = .ok t)
    (hes : ∀ x ∈ es, (0 ≤ x.row ∧ x.row ≤ 2147483647) ∧ 0 ≤ x.column ∧ x.column ≤ 2147483647) :
    t.toList = coalesce es := by
  rw [toList_triplets ht, toList_extended]
  refine (List.map_congr_left fun x hx => ?_).trans (List.map_id _)
  -- a coalesced entry has its position from a stored one
  obtain ⟨x', hx', hrow, hcolumn⟩ := exists_isAt_of_mem_coalesce hx
  have hsmall := hes x' hx'
  rw [hrow, hcolumn] at hsmall
  exact wrapped_of_le hsmall

/-- Entries at positions of 31 bits can always be handed over, and arrive as they are. -/
theorem triplets_of_small {es : List Entry}
    (hes : ∀ x ∈ es, (0 ≤ x.row ∧ x.row ≤ 2147483647) ∧ 0 ≤ x.column ∧ x.column ≤ 2147483647) :
    ∃ t, (empty.extended es).triplets = .ok t ∧ t.toList = coalesce es := by
  have hindices : ∀ x ∈ es,
      (0 ≤ x.row ∧ x.row + 1 < indexLimit) ∧ 0 ≤ x.column ∧ x.column + 1 < indexLimit := by
    intro x hx
    have hsmall := hes x hx
    unfold indexLimit
    omega
  obtain ⟨t, ht, -⟩ := triplets_extended hindices
  exact ⟨t, ht, toList_of_small ht hes⟩

/-- Such triplets match the entries. -/
theorem matches_of_triplets {es : List Entry} {t : Triplets} (ht : (empty.extended es).triplets = .ok t)
    (hes : ∀ x ∈ es, (0 ≤ x.row ∧ x.row ≤ 2147483647) ∧ 0 ≤ x.column ∧ x.column ≤ 2147483647) :
    t.Matches es := by
  have hlist := toList_of_small ht hes
  refine ⟨?_, ?_, fun x hx => ?_, fun x i hexact => ?_⟩
  · rw [hlist, coe_coalesce]
  · rw [hlist]
    exact nodup_position_coalesce es
  · rw [hlist] at hx
    exact (mem_coalesce_iff.mp hx).2
  · rw [hlist]
    exact product_coalesce es x hexact

/-- **The triplets of appended rows are their sums.** After rows were appended, none of which failed, there
are triplets: three lists of one length that begin with zero, with one entry for each position whose values
do not sum to zero. Where doubles add up exactly, these are the positions whose values do not sum to zero in
real numbers. As long as no position exceeds 31 bits, the triplets are the appended matrix, in which each
position stands once and zeros nowhere, and which has the same product with every vector. -/
theorem triplets_of_storeAll {rs : List Row} {e : Entries} (hstored : empty.storeAll rs = .ok e)
    (hrs : ∀ r ∈ rs, r.Within (2 ^ 62)) :
    ∃ ess, List.Forall₂ Row.Gives rs ess ∧ e.toList = ess.flatten ∧
      ∃ t, e.triplets = .ok t ∧ t.Sums e.toList ∧
        (∀ i j, Exact (cell e.toList i j) →
          ((i, j) ∈ support e.toList ↔ ((cell e.toList i j).map toReal).sum ≠ 0)) ∧
        ((∀ r ∈ rs, r.Within 2147483647) → t.Matches e.toList) := by
  obtain ⟨ess, hess, rfl⟩ := extended_of_storeAll hstored
  rw [toList_extended]
  -- indices below 2^62 leave room for the shape to be one larger
  have hindices : ∀ x ∈ ess.flatten,
      (0 ≤ x.row ∧ x.row + 1 < indexLimit) ∧ 0 ≤ x.column ∧ x.column + 1 < indexLimit := by
    intro x hx
    have hwithin := within_of_gives hess hrs x hx
    unfold indexLimit
    omega
  obtain ⟨t, ht, hsums⟩ := triplets_extended hindices
  exact ⟨ess, hess, rfl, t, ht, hsums, fun i j => mem_support_of_exact (p := (i, j)),
    fun hsmall => matches_of_triplets ht (within_of_gives hess hsmall)⟩

/-- Two rows of one number: the values of one position cancel, those of another add up, NaN stays and a
negative zero does not. A further row has a number beyond 32 bits. -/
theorem triplets_of_cancelling_rows :
    let rs : List Row := [⟨1, [.int 1, .int 2, .int 1], [.int 2, .int 5, .int 3]⟩,
      ⟨1, [.int 2, .int 3, .int 4], [.int (-5), .float Double.nan, .float (-0.0)]⟩]
    let far : Row := ⟨4294967297, [.int 2], [.int 7]⟩
    (∃ e, empty.storeAll rs = .ok e ∧ support e.toList = {(1, 1), (1, 3)} ∧
      (summed e.toList (1, 1)).value = 5 ∧ ∃ t, e.triplets = .ok t ∧ t.Matches e.toList) ∧
    ∃ e, empty.storeAll (rs ++ [far]) = .ok e ∧ (4294967297, 2) ∈ support e.toList ∧
      (summed e.toList (4294967297, 2)).wrapped = ⟨1, 2, 7⟩ ∧ ∃ t, e.triplets = .ok t ∧ t.Sums e.toList := by
  intro rs far
  have hstored (rs : List Row) (es : List Entry)
      (h : (empty.storeAll rs).toOption.map toList = some es) :
      ∃ e, empty.storeAll rs = .ok e ∧ e.toList = es := by
    obtain ⟨e, he, hes⟩ := Option.map_eq_some_iff.mp h
    exact ⟨e, World.eq_ok_of_toOption he, hes⟩
  -- cancelling, NaN and a negative zero; the far column wraps to a near one
  let es : List Entry := [⟨1, 1, 2⟩, ⟨1, 2, 5⟩, ⟨1, 1, 3⟩, ⟨1, 2, -5⟩, ⟨1, 3, Double.nan⟩, ⟨1, 4, -0.0⟩]
  constructor
  · obtain ⟨e, he, hes⟩ := hstored rs es (by decide +kernel)
    obtain ⟨-, -, -, t, ht, -, -, hmatches⟩ := triplets_of_storeAll he (by decide +kernel)
    refine ⟨e, he, ?_, ?_, t, ht, hmatches (by decide +kernel)⟩
    · rw [hes]
      decide +kernel
    · rw [hes]
      decide +kernel
  · obtain ⟨e, he, hes⟩ := hstored (rs ++ [far]) (es ++ [⟨4294967297, 2, 7⟩]) (by decide +kernel)
    obtain ⟨-, -, -, t, ht, hsums, -, -⟩ := triplets_of_storeAll he (by decide +kernel)
    refine ⟨e, he, ?_, ?_, t, ht, hsums⟩
    · rw [hes]
      decide +kernel
    · rw [hes]
      decide +kernel

end Entries

end LinearProgram
