import LinearProgram.Matrix.Entries
import Mathlib.Tactic.ByContra

/-!
# Coalescing

What coalescing does to the entries of one cell: it adds their values up, in the order in which they
came, and drops the sum if it is zero. That the order of the values is kept rests on the sort being stable;
doubles add up to different sums in different orders. That all entries of a cell are neighbours when they
are added up rests on the list being sorted.

`mem_coalesce_iff` describes the coalesced list by the cells of the given one.
-/

namespace LinearProgram

namespace Entry

/-! ## §1 Cells -/

def isAt (i j : Int) (e : Entry) : Bool := e.row == i && e.column == j

theorem isAt_iff {i j : Int} {e : Entry} : e.isAt i j = true ↔ e.row = i ∧ e.column = j := by
  simp [isAt]

@[simp] theorem isAt_self (e : Entry) : e.isAt e.row e.column = true := by simp [isAt]

def cell (es : List Entry) (i j : Int) : List Float := (es.filter (isAt i j)).map (·.value)

@[simp] theorem cell_nil (i j : Int) : cell [] i j = [] := rfl

theorem cell_append (es es' : List Entry) (i j : Int) :
    cell (es ++ es') i j = cell es i j ++ cell es' i j := by
  simp [cell]

theorem cell_cons_of_isAt {e : Entry} {i j : Int} (h : e.isAt i j = true) (es : List Entry) :
    cell (e :: es) i j = e.value :: cell es i j := by
  simp [cell, h]

theorem cell_cons_of_not_isAt {e : Entry} {i j : Int} (h : ¬ e.isAt i j = true) (es : List Entry) :
    cell (e :: es) i j = cell es i j := by
  simp [cell, h]

theorem cell_eq_nil {es : List Entry} {i j : Int} (h : ∀ e ∈ es, ¬ e.isAt i j = true) :
    cell es i j = [] := by
  rw [cell, List.filter_eq_nil_iff.mpr h, List.map_nil]

theorem mem_cell {es : List Entry} {e : Entry} (h : e ∈ es) : e.value ∈ cell es e.row e.column :=
  List.mem_map_of_mem (List.mem_filter.mpr ⟨h, isAt_self e⟩)

/-- The sum of values from left to right; that of none is zero. -/
def total : List Float → Float
  | [] => 0
  | v :: vs => vs.foldl (· + ·) v

/-- The sum of values, if there are any. -/
def sums : List Float → List Float
  | [] => []
  | v :: vs => [vs.foldl (· + ·) v]

/-! ## §2 Sorting -/

theorem before_trans (a b c : Entry) (hab : a.before b = true) (hbc : b.before c = true) :
    a.before c = true := by
  simp only [before, Bool.or_eq_true, Bool.and_eq_true, decide_eq_true_eq, beq_iff_eq] at *
  omega

theorem before_total (a b : Entry) : (a.before b || b.before a) = true := by
  simp only [before, Bool.or_eq_true, Bool.and_eq_true, decide_eq_true_eq, beq_iff_eq]
  omega

/-- Entries that come before each other stand at one position. -/
theorem eq_of_before_of_before {a b : Entry} (hab : a.before b = true) (hba : b.before a = true) :
    a.row = b.row ∧ a.column = b.column := by
  simp only [before, Bool.or_eq_true, Bool.and_eq_true, decide_eq_true_eq, beq_iff_eq] at *
  omega

theorem sameCell_iff {a b : Entry} : a.sameCell b = true ↔ a.row = b.row ∧ a.column = b.column := by
  simp [sameCell]

/-- Sorting keeps the entries of a cell, in their order. -/
theorem cell_mergeSort (es : List Entry) (i j : Int) : cell (es.mergeSort before) i j = cell es i j := by
  have htied : (es.filter (isAt i j)).Pairwise (fun a b => a.before b = true) := by
    refine List.pairwise_of_forall_mem_list fun a ha b hb => ?_
    obtain ⟨har, hac⟩ := isAt_iff.mp (List.mem_filter.mp ha).2
    obtain ⟨hbr, hbc⟩ := isAt_iff.mp (List.mem_filter.mp hb).2
    simp [before, har, hac, hbr, hbc]
  -- a list whose members are in order stays a part of the list when this is sorted
  have hpart : (es.filter (isAt i j)).Sublist (es.mergeSort before) :=
    List.sublist_mergeSort before_trans before_total htied List.filter_sublist
  have hfilter : (es.filter (isAt i j)).Sublist ((es.mergeSort before).filter (isAt i j)) := by
    have hboth := hpart.filter (isAt i j)
    rwa [List.filter_filter, funext fun e => Bool.and_self _] at hboth
  have hlength : (es.filter (isAt i j)).length = ((es.mergeSort before).filter (isAt i j)).length :=
    ((List.mergeSort_perm es before).filter (isAt i j)).length_eq.symm
  unfold cell
  rw [hfilter.eq_of_length hlength]

/-! ## §3 Adding up -/

/-- In a sorted list, an entry of another cell separates the entries before it from those after it. -/
private theorem not_isAt_of_sorted {a b : Entry} {es : List Entry} {i j : Int}
    (hsorted : (a :: b :: es).Pairwise (fun a b => a.before b = true)) (hne : ¬ a.sameCell b = true)
    (ha : a.isAt i j = true) : ∀ e ∈ b :: es, ¬ e.isAt i j = true := by
  intro e he hat
  obtain ⟨har, hac⟩ := isAt_iff.mp ha
  obtain ⟨her, hec⟩ := isAt_iff.mp hat
  have hab : a.before b = true := List.rel_of_pairwise_cons hsorted (List.mem_cons_self ..)
  have hbe : b.before e = true ∨ b = e := by
    rcases List.mem_cons.mp he with rfl | he
    · exact Or.inr rfl
    · exact Or.inl (List.rel_of_pairwise_cons hsorted.of_cons he)
  refine hne (sameCell_iff.mpr ?_)
  -- in one cell, neither of two entries is strictly before the other
  rcases hbe with hbe | rfl
  · have hba : b.before a = true := by
      simp only [before, har, hac, her, hec] at hbe ⊢
      exact hbe
    exact eq_of_before_of_before hab hba
  · exact ⟨har.trans her.symm, hac.trans hec.symm⟩

/-- An entry that is merged into sorted ones adds to the first of them if this one stands at its position,
and comes before them otherwise. -/
private theorem cell_mergeInto {a : Entry} {es : List Entry}
    (hsorted : (a :: es).Pairwise (fun a b => a.before b = true)) (i j : Int) :
    cell (merge.mergeInto a es) i j = sums (cell (a :: es) i j) := by
  induction es generalizing a with
  | nil =>
    unfold merge.mergeInto
    by_cases ha : a.isAt i j = true
    · rw [cell_cons_of_isAt ha]
      rfl
    · rw [cell_cons_of_not_isAt ha]
      rfl
  | cons b rest ih =>
    unfold merge.mergeInto
    -- the next entry is summed into the first one, or nothing of its cell is left, as the entries are sorted
    by_cases hsame : a.sameCell b = true
    · obtain ⟨hrow, hcolumn⟩ := sameCell_iff.mp hsame
      let merged : Entry := { a with value := a.value + b.value }
      have hmerged : (merged :: rest).Pairwise (fun a b => a.before b = true) :=
        List.pairwise_cons.mpr ⟨fun e he => List.rel_of_pairwise_cons hsorted (List.mem_cons_of_mem _ he),
          hsorted.of_cons.of_cons⟩
      rw [if_pos hsame, ih hmerged]
      by_cases ha : a.isAt i j = true
      · have hb : b.isAt i j = true := by
          rw [isAt_iff] at ha ⊢
          exact ⟨hrow ▸ ha.1, hcolumn ▸ ha.2⟩
        have hm : merged.isAt i j = true := ha
        rw [cell_cons_of_isAt ha, cell_cons_of_isAt hb, cell_cons_of_isAt hm]
        rfl
      · have hb : ¬ b.isAt i j = true := by
          rw [isAt_iff] at ha ⊢
          exact fun h => ha ⟨hrow.trans h.1, hcolumn.trans h.2⟩
        have hm : ¬ merged.isAt i j = true := ha
        rw [cell_cons_of_not_isAt ha, cell_cons_of_not_isAt hb, cell_cons_of_not_isAt hm]
    · rw [if_neg hsame]
      by_cases ha : a.isAt i j = true
      · have hnone := cell_eq_nil (not_isAt_of_sorted hsorted hsame ha)
        rw [cell_cons_of_isAt ha, cell_cons_of_isAt ha, ih hsorted.of_cons, hnone]
        rfl
      · rw [cell_cons_of_not_isAt ha, cell_cons_of_not_isAt ha, ih hsorted.of_cons]

/-- Adding a sorted list up leaves one value in each cell that has any. -/
theorem cell_merge_mergeSort (es : List Entry) (i j : Int) :
    cell (merge (es.mergeSort before)) i j = sums (cell es i j) := by
  rw [← cell_mergeSort es i j]
  -- sorting brings equal positions together and keeps the order within each
  have hsorted := List.pairwise_mergeSort before_trans before_total es
  cases hes : es.mergeSort before with
  | nil => rfl
  | cons a rest =>
    rw [hes] at hsorted
    exact cell_mergeInto hsorted i j

/-- **Coalescing a list leaves the sum of each cell**, unless it is zero. -/
theorem cell_coalesce (es : List Entry) (i j : Int) :
    cell (coalesce es) i j = [total (cell es i j)].filter fun v => !(v == 0) := by
  -- dropping zeros and picking a cell can be done in either order
  have hfilter : cell (coalesce es) i j =
      (cell (merge (es.mergeSort before)) i j).filter fun v => !(v == 0) := by
    unfold cell coalesce
    rw [List.filter_map, List.filter_filter, List.filter_filter]
    congr 2
    funext e
    exact Bool.and_comm _ _
  rw [hfilter, cell_merge_mergeSort]
  cases cell es i j with
  | nil => rfl
  | cons v vs => rfl

/-- The coalesced entries are the sums of the cells that are not zero. -/
theorem mem_coalesce_iff {es : List Entry} {e : Entry} :
    e ∈ coalesce es ↔ e.value = total (cell es e.row e.column) ∧ (e.value == 0) = false := by
  constructor
  · intro he
    have hvalue := mem_cell he
    rw [cell_coalesce, List.mem_filter, List.mem_singleton] at hvalue
    exact ⟨hvalue.1, by simpa using hvalue.2⟩
  · rintro ⟨hvalue, hne⟩
    -- the sum is in its cell, and the entry there can only be this one
    have hcell : e.value ∈ cell (coalesce es) e.row e.column := by
      rw [cell_coalesce, List.mem_filter, List.mem_singleton]
      exact ⟨hvalue, by simp [hne]⟩
    obtain ⟨e', he', hsame⟩ := List.mem_map.mp hcell
    obtain ⟨he', hat⟩ := List.mem_filter.mp he'
    obtain ⟨hrow, hcolumn⟩ := isAt_iff.mp hat
    have heq : e' = e := by
      cases e
      cases e'
      simp_all
    exact heq ▸ he'

/-- A coalesced entry stands where a given one stands. -/
theorem exists_isAt_of_mem_coalesce {es : List Entry} {e : Entry} (h : e ∈ coalesce es) :
    ∃ e' ∈ es, e'.row = e.row ∧ e'.column = e.column := by
  by_contra hnone
  obtain ⟨hvalue, hne⟩ := mem_coalesce_iff.mp h
  have hnil : cell es e.row e.column = [] :=
    cell_eq_nil fun e' he' hat => hnone ⟨e', he', isAt_iff.mp hat⟩
  rw [hvalue, hnil] at hne
  cases hne

/-- A coalesced entry stays when nothing is added to its cell. -/
theorem mem_coalesce_append {es es' : List Entry} {e : Entry} (h : e ∈ coalesce es)
    (hnone : cell es' e.row e.column = []) : e ∈ coalesce (es ++ es') := by
  rw [mem_coalesce_iff] at h ⊢
  rwa [cell_append, hnone, List.append_nil]

/-! ## §4 Triplets -/

/-- The entry with its position reduced to 32 bits. -/
def wrapped (e : Entry) : Entry := ⟨wrap32 e.row, wrap32 e.column, e.value⟩

/-- A number that 32 bits can tell from others is kept. -/
theorem wrap32_of_lt {k : Nat} (h : k < 2147483648) : wrap32 k = k := by
  unfold wrap32 wordCount
  exact Int.bmod_eq_of_le_mul_two (by omega) (by omega)

end Entry

namespace Entries

open Entry

/-- Whatever comes out of compacting is the coalesced entries. -/
theorem eq_coalesce_of_compact {es : Entries} {xs : List Entry} (h : es.compact = .ok xs) :
    xs = coalesce es.toList := by
  have hcoalesced (rows columns : Int) (h : es.coalesced rows columns = .ok xs) :
      xs = coalesce es.toList := by
    -- each of the checks passed, or there would be a fault
    unfold coalesced at h
    split at h <;> try cases h
    split at h <;> try cases h
    split at h <;> try cases h
    split at h <;> try cases h
    split at h <;> cases h
    rfl
  unfold compact at h
  split at h
  · exact hcoalesced _ _ h
  · exact hcoalesced _ _ h

/-- The triplets that are handed over are the coalesced entries. -/
theorem toList_triplets {es : Entries} {t : Triplets} (h : es.triplets = .ok t) :
    t.toList = (coalesce es.toList).map wrapped := by
  unfold triplets at h
  cases hxs : es.compact with
  | error fault =>
    rw [hxs] at h
    cases h
  | ok xs =>
    rw [hxs] at h
    cases h
    rw [eq_coalesce_of_compact hxs]
    simp [Triplets.toList, toList, List.zip_map', wrapped, Function.comp_def]

end Entries

end LinearProgram
