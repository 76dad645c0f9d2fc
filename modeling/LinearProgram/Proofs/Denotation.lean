import LinearProgram.Proofs.Meaning
import LinearProgram.Proofs.Representation
import Mathlib.Algebra.BigOperators.Ring.Finset

/-!
# The solved problem means the program

A problem that stores a program, with the matrix handed over, means what the program means, provided that
doubles suffice for it: `Program.Representable`. A constraint that lp_solve has as two rows, or as none,
allows the same vectors as the one row that it is on GLPK.

`World.solved_meaning` says this of every session: whenever a solver is started, the problem that it finds
means the program that was built by the operations before.
-/

namespace LinearProgram

open Double (toReal)

/-! ## §1 Programs that doubles can represent -/

theorem LpSolve.toReal_neg_infinity : toReal (-infinity) = -toReal infinity :=
  Double.toReal_eq_neg_iff.mpr (by decide +kernel)

/-- The double is infinite, or lp_solve does not take it to be. -/
def Double.Moderate (x : Float) : Prop := x.isInf = false → |toReal x| < toReal LpSolve.infinity

instance (x : Float) : Decidable (Double.Moderate x) :=
  decidable_of_iff (x.isInf = false → Double.units (-LpSolve.infinity) < Double.units x ∧
      Double.units x < Double.units LpSolve.infinity) <| by
    unfold Double.Moderate
    rw [abs_lt, ← LpSolve.toReal_neg_infinity, Double.toReal_lt_toReal_iff, Double.toReal_lt_toReal_iff]

/-- A program that an engine can be given as it is: coefficients add up exactly, rows and columns can be
numbered in 32 bits, and on lp_solve no finite side of a bound counts as infinite. -/
structure Program.Representable (p : Program) (kind : EngineKind) : Prop where
  exact : ∀ c ∈ p.conditions, ∀ j < p.columns.length, Exact (coefficientsAt c.terms j)
  columnCount : p.columns.length < 2147483648
  rowCount : (rows kind p.conditions).length < 2147483648
  columns : kind = .lpsolve → ∀ c ∈ p.columns, Double.Moderate c.lower ∧ Double.Moderate c.upper
  conditions : kind = .lpsolve → ∀ c ∈ p.conditions, Double.Moderate c.lower ∧ Double.Moderate c.upper

instance (p : Program) (kind : EngineKind) : Decidable (p.Representable kind) :=
  decidable_of_iff ((∀ c ∈ p.conditions, ∀ j < p.columns.length, Program.Exact (Program.coefficientsAt c.terms j)) ∧
      p.columns.length < 2147483648 ∧ (Program.rows kind p.conditions).length < 2147483648 ∧
      (kind = .lpsolve → ∀ c ∈ p.columns, Double.Moderate c.lower ∧ Double.Moderate c.upper) ∧
      (kind = .lpsolve → ∀ c ∈ p.conditions, Double.Moderate c.lower ∧ Double.Moderate c.upper))
    ⟨fun ⟨he, hc, hr, hcs, hds⟩ => ⟨he, hc, hr, hcs, hds⟩,
      fun h => ⟨h.exact, h.columnCount, h.rowCount, h.columns, h.conditions⟩⟩

/-! ## §2 Stored bounds -/

namespace Glpk

theorem admits_boundCode (b : Bound) (s : ℝ) :
    Admits (boundCode b.kind) b.lower b.upper s ↔ b.Admits s := by
  obtain ⟨kind, lower, upper⟩ := b
  cases kind <;> simp [Admits, boundCode, Bound.Admits]

/-- The row of a condition on GLPK allows what the condition allows. -/
theorem allowed_rowBounds {lower upper : Float} {b : Bound} (h : Bound.encode lower upper = .ok b) (s : ℝ) :
    (∀ r ∈ Engine.rowBounds .glpk b, s ∈ (rowOf r).allowed) ↔ Double.Within lower upper s := by
  have hrow : Engine.rowBounds .glpk b = [b] := by
    unfold Engine.rowBounds
    rw [if_neg (by simp), if_neg (by simp [EngineKind.storesFreeRows])]
  rw [hrow, List.forall_mem_singleton, ← Bound.admits_iff_within h s]
  exact admits_boundCode b s

/-- A stored column means what the column means. -/
theorem meaning_stored {c : Program.Column} (h : Bound.encode c.lower c.upper = .ok c.bound) :
    (stored c).meaning = c.meaning := by
  -- the kind of the bound tells GLPK which of the two numbers to read
  have hallowed : {t | Admits (boundCode c.bound.kind) c.bound.lower c.bound.upper t} = {t | c.Allows t} := by
    ext t
    exact (admits_boundCode c.bound t).trans (Bound.admits_iff_within h t)
  have hkind : (kindCode c.kind != 1) = (c.kind != .continuous) := by cases c.kind <;> rfl
  show (⟨kindCode c.kind != 1, _, _⟩ : ColumnMeaning) = ⟨c.kind != .continuous, _, _⟩
  rw [hkind]
  exact congrArg (fun a => (⟨c.kind != .continuous, a, c.coefficient⟩ : ColumnMeaning)) hallowed

end Glpk

namespace LpSolve

theorem above_iff {x : Float} (h : Double.Moderate x) (hx : x.isInf = false) (s : ℝ) :
    Above x s ↔ toReal x ≤ s :=
  ⟨fun habove => habove hx (neg_lt_of_abs_lt (h hx)), fun hle _ _ => hle⟩

theorem below_iff {x : Float} (h : Double.Moderate x) (hx : x.isInf = false) (s : ℝ) :
    Below x s ↔ s ≤ toReal x :=
  ⟨fun hbelow => hbelow hx (lt_of_abs_lt (h hx)), fun hle _ _ => hle⟩

theorem above_neg_infinity (s : ℝ) : Above (-infinity) s := by
  intro _ hlt
  rw [toReal_neg_infinity] at hlt
  exact absurd hlt (lt_irrefl _)

theorem below_infinity (s : ℝ) : Below infinity s := fun _ hlt => absurd hlt (lt_irrefl _)

/-- The rows of a condition on lp_solve, two of them or one or none, allow together what the condition
allows. -/
theorem allowed_rowBounds {lower upper : Float} {b : Bound} (h : Bound.encode lower upper = .ok b)
    (hl : Double.Moderate lower) (hu : Double.Moderate upper) (s : ℝ) :
    (∀ r ∈ Engine.rowBounds .lpsolve b, s ∈ (rowOf r).allowed) ↔ Double.Within lower upper s := by
  have hatLeast (x : Float) : s ∈ (rowOf ⟨.lower, lower, x⟩).allowed ↔ Above lower s := Iff.rfl
  have hatMost (x : Float) : s ∈ (rowOf ⟨.upper, x, upper⟩).allowed ↔ Below upper s := Iff.rfl
  unfold Engine.rowBounds Double.Within
  -- one case for each kind of bound: free, upper, lower, fixed, double
  rcases Bound.encode_cases h with ⟨hlower, hupper, rfl⟩ | ⟨hlower, hupper, rfl⟩ |
    ⟨hlower, hupper, rfl⟩ | ⟨hlower, hupper, hsame, rfl⟩ | ⟨hlower, hupper, rfl⟩
  · simp [hlower, hupper, EngineKind.storesFreeRows]
  · simp [hlower, hupper, hatMost, below_iff hu hupper]
  · simp [hlower, hupper, hatLeast, above_iff hl hlower]
  · have hequal : s ∈ (rowOf ⟨.fixed, lower, upper⟩).allowed ↔ s = toReal lower := by
      simp [Row.allowed, rowOf, rowSide?, equal, atMost, atLeast]
    simp only [hlower, hupper, hequal, ← Double.toReal_eq_of_beq hsame, reduceCtorEq, and_false, false_and,
      if_false, List.forall_mem_singleton, true_implies]
    -- equal bounds are one equation, here and in the program
    exact ⟨fun hs => ⟨hs.ge, hs.le⟩, fun hs => le_antisymm hs.2 hs.1⟩
  · simp [hlower, hupper, hatMost, hatLeast, below_iff hu hupper, above_iff hl hlower, and_comm]

/-- A stored column means what the column means. -/
theorem meaning_stored {c : Program.Column} (h : Bound.encode c.lower c.upper = .ok c.bound)
    (hl : Double.Moderate c.lower) (hu : Double.Moderate c.upper) : (stored c).meaning = c.meaning := by
  have hallowed : {t | Above (sides c.bound).1 t ∧ Below (sides c.bound).2 t} = {t | c.Allows t} := by
    ext t
    show _ ↔ (c.lower.isInf = false → toReal c.lower ≤ t) ∧ (c.upper.isInf = false → t ≤ toReal c.upper)
    rcases Bound.encode_cases h with ⟨hlower, hupper, hb⟩ | ⟨hlower, hupper, hb⟩ |
      ⟨hlower, hupper, hb⟩ | ⟨hlower, hupper, -, hb⟩ | ⟨hlower, hupper, hb⟩
    · simp [hb, sides, hlower, hupper, above_neg_infinity, below_infinity]
    · simp [hb, sides, hlower, hupper, above_neg_infinity, below_iff hu hupper]
    · simp [hb, sides, hlower, hupper, above_iff hl hlower, below_infinity]
    · simp [hb, sides, hlower, hupper, above_iff hl hlower, below_iff hu hupper]
    · simp [hb, sides, hlower, hupper, above_iff hl hlower, below_iff hu hupper]
  exact congrArg (fun a => (⟨c.kind != .continuous, a, c.coefficient⟩ : ColumnMeaning)) hallowed

end LpSolve

/-! ## §3 The matrix -/

namespace Program

/-- With few rows and columns, no number of a coalesced entry is changed by 32 bits. -/
theorem wrapped_eq_self {p : Program} {kind : EngineKind} (hv : p.Valid) (hr : p.Representable kind)
    {e : Entry} (h : e ∈ Entry.coalesce (entries kind p.conditions)) : e.wrapped = e := by
  -- the entry has its position from a term of some row
  obtain ⟨e', he', hrow, hcolumn⟩ := Entry.exists_isAt_of_mem_coalesce h
  obtain ⟨i, hi, hi', r, hr', t, ht, ht'⟩ := mem_entriesFrom he'
  obtain ⟨c, hc, hrc⟩ := List.mem_flatMap.mp hr'
  obtain ⟨b, -, rfl⟩ := List.mem_map.mp hrc
  have hcolumns := hv.terms c hc t ht
  have hcount := hr.columnCount
  have hrows := hr.rowCount
  -- engines count from one, the program from zero
  have hrow' : e.row = (i + 1 : Nat) := by omega
  have hcolumn' : e.column = (t.1 + 1 : Nat) := by omega
  unfold Entry.wrapped
  rw [hrow', hcolumn', Entry.wrap32_of_lt (by omega), Entry.wrap32_of_lt (by omega), ← hrow', ← hcolumn']

end Program

/-- The coalesced entries of the program have been handed over. -/
def Native.Problem.Loaded : Native.Problem → Program → Prop
  | .glpk q, p =>
    q.matrix.toList = (Entry.coalesce (Program.entries .glpk p.conditions)).map Entry.wrapped
  | .lpsolve q, p =>
    ∀ e ∈ Entry.coalesce (Program.entries .lpsolve p.conditions), e.wrapped ∈ q.entries.toList
  | .deleted, _ => False

/-- A coefficient that GLPK has is the sum of its cell. -/
theorem Glpk.Problem.coefficient_eq {q : Glpk.Problem} {es : List Entry}
    (h : q.matrix.toList = Entry.coalesce es) (i j : Int) :
    q.coefficient i j = toReal (Entry.total (Entry.cell es i j)) := by
  unfold coefficient
  rw [h, Entry.cell_coalesce]
  cases hzero : Entry.total (Entry.cell es i j) == 0 with
  | false => simp [hzero]
  | true => simp [hzero, Double.toReal_eq_zero_of_beq hzero]

/-- A coefficient that lp_solve has is the sum of its cell. -/
theorem LpSolve.Problem.toReal_entry {q : LpSolve.Problem} {es : List Entry}
    (h : ∀ e, e ∈ q.entries.toList ↔ e ∈ Entry.coalesce es) (i j : Int) :
    toReal (q.entry i j) = toReal (Entry.total (Entry.cell es i j)) := by
  unfold entry
  split
  · next e hfind =>
    have hat : e.row = i ∧ e.column = j := by simpa using List.find?_some hfind
    have hmem := List.mem_reverse.mp (List.mem_of_find?_eq_some hfind)
    rw [(Entry.mem_coalesce_iff.mp ((h e).mp hmem)).1, hat.1, hat.2]
  · next hnone =>
    -- an entry that is not there would have been the sum of its cell
    cases hzero : Entry.total (Entry.cell es i j) == 0 with
    | true => rw [Double.toReal_eq_zero_of_beq hzero, Double.toReal_zero]
    | false =>
      have hmem : (⟨i, j, Entry.total (Entry.cell es i j)⟩ : Entry) ∈ Entry.coalesce es :=
        Entry.mem_coalesce_iff.mpr ⟨rfl, hzero⟩
      have hno := List.find?_eq_none.mp hnone _ (List.mem_reverse.mpr ((h _).mpr hmem))
      simp at hno

namespace Native.Problem

/-- After the calls that hand over the coalesced entries, they have been handed over. -/
theorem loaded_loadCalls {e : Engine} {q : Problem} (hq : q.kind? = some e.kind) {p : Program}
    {t : Triplets} (ht : t.toList = (Entry.coalesce (Program.entries e.kind p.conditions)).map Entry.wrapped) :
    (q.applyAll (e.loadCalls t)).Loaded p := by
  cases hk : e.kind with
  | glpk =>
    obtain ⟨q, rfl⟩ := eq_glpk_of_kind? (hq.trans (by rw [hk]))
    rw [hk] at ht
    unfold Engine.loadCalls
    rw [hk]
    exact ht
  -- lp_solve keeps what was there before, and the new entries stand behind
  | lpsolve =>
    obtain ⟨q, rfl⟩ := eq_lpsolve_of_kind? (hq.trans (by rw [hk]))
    rw [hk] at ht
    rw [Engine.applyAll_loadCalls_lpsolve hk]
    intro x hx
    show x.wrapped ∈ (q.entries ++ t.toList.toArray).toList
    rw [Array.toList_append, ht]
    exact List.mem_append_right _ (List.mem_map_of_mem hx)

end Native.Problem

/-! ## §4 The vectors that rows allow -/

namespace Program

/-- Adding terms up column by column is adding them up. -/
theorem sum_coefficientsAt (x : Nat → ℝ) {terms : List (Nat × Float)} {n : Nat}
    (h : ∀ t ∈ terms, t.1 < n) :
    ∑ j ∈ Finset.range n, ((coefficientsAt terms j).map toReal).sum * x j = sumAt terms x := by
  -- a term adds its product to the sum of its own column only
  induction terms with
  | nil => simp [coefficientsAt, sumAt]
  | cons t rest ih =>
    have hsplit (j : Nat) : ((coefficientsAt (t :: rest) j).map toReal).sum * x j =
        (if t.1 = j then toReal t.2 * x j else 0) + ((coefficientsAt rest j).map toReal).sum * x j := by
      unfold coefficientsAt
      by_cases hj : t.1 = j
      · simp [hj, add_mul]
      · simp [hj]
    have hmem : t.1 ∈ Finset.range n := Finset.mem_range.mpr (h t (List.mem_cons_self ..))
    rw [Finset.sum_congr rfl fun j _ => hsplit j, Finset.sum_add_distrib, Finset.sum_ite_eq, if_pos hmem,
      ih fun t ht => h t (List.mem_cons_of_mem _ ht)]
    rfl

/-- The rows of a program, when each group of rows allows what its condition allows and the matrix has the
coefficients, allow the vectors of which all conditions hold. -/
theorem ofRows_eq {p : Program} {kind : EngineKind} (hv : p.Valid) (hr : p.Representable kind)
    (allowed : Bound → Set ℝ) {matrix : Int → Int → ℝ}
    (hallowed : ∀ c ∈ p.conditions, ∀ s,
      (∀ b ∈ Engine.rowBounds kind c.bound, s ∈ allowed b) ↔ Double.Within c.lower c.upper s)
    (hmatrix : ∀ i j, matrix i j = toReal (Entry.total (Entry.cell (entries kind p.conditions) i j))) :
    Meaning.ofRows ((rows kind p.conditions).map fun r => allowed r.1) p.columns.length matrix =
      p.meaning.feasible := by
  have hsum (x : Nat → ℝ) {i : Nat} {r : Bound × List (Nat × Float)}
      (hi : (rows kind p.conditions)[i]? = some r) :
      ∑ j ∈ Finset.range p.columns.length, matrix (i + 1) (j + 1) * x j = sumAt r.2 x := by
    obtain ⟨c, hc, hrc⟩ := List.mem_flatMap.mp (List.mem_of_getElem? hi)
    obtain ⟨b, -, rfl⟩ := List.mem_map.mp hrc
    rw [← sum_coefficientsAt x (hv.terms c hc)]
    refine Finset.sum_congr rfl fun j hj => ?_
    have hcell := cell_entriesFrom 0 (rows kind p.conditions) i j
    rw [hi, Option.map_some, Option.getD_some] at hcell
    rw [hmatrix, ← (hr.exact c hc j (Finset.mem_range.mp hj)).total, ← hcell]
    simp [entries]
  -- a condition may have two rows, one or none, and holds exactly if all of them do
  ext x
  constructor
  · intro hx c hc
    refine (hallowed c hc _).mp fun b hb => ?_
    have hrow : (b, c.terms) ∈ rows kind p.conditions :=
      List.mem_flatMap.mpr ⟨c, hc, List.mem_map_of_mem hb⟩
    obtain ⟨i, hi⟩ := List.mem_iff_getElem?.mp hrow
    have hat := hx i (allowed b) (by rw [List.getElem?_map, hi]; rfl)
    rwa [hsum x hi] at hat
  · intro hx i a ha
    rw [List.getElem?_map] at ha
    obtain ⟨r, hi, rfl⟩ := Option.map_eq_some_iff.mp ha
    rw [hsum x hi]
    obtain ⟨c, hc, hrc⟩ := List.mem_flatMap.mp (List.mem_of_getElem? hi)
    obtain ⟨b, hb, rfl⟩ := List.mem_map.mp hrc
    exact (hallowed c hc _).mpr (hx c hc) b hb

end Program

/-! ## §5 Problems and programs -/

/-- What is handed over is what was entered, since every number of a column fits. -/
private theorem Program.map_wrapped_eq_self {p : Program} {kind : EngineKind} (hv : p.Valid)
    (hr : p.Representable kind) : (Entry.coalesce (Program.entries kind p.conditions)).map Entry.wrapped =
      Entry.coalesce (Program.entries kind p.conditions) :=
  (List.map_congr_left fun _ he => Program.wrapped_eq_self hv hr he).trans (List.map_id _)

/-- A loaded problem of GLPK means what its program means. -/
private theorem Glpk.Problem.Stores.meaning_eq {q : Glpk.Problem} {p : Program} (h : Glpk.Problem.Stores q p)
    (hl : (Native.Problem.glpk q).Loaded p) (hv : p.Valid) (hr : p.Representable .glpk) :
    (Native.Problem.glpk q).meaning = p.meaning := by
  have hcount : q.columns.size = p.columns.length := (show (Native.Problem.glpk q).Stores p from h).columnCount
  have hmaximize : (q.direction == 2) = (p.direction == .maximize) := by
    rw [h.direction]
    cases p.direction <;> rfl
  have hcolumns : q.columns.toList.map Glpk.Column.meaning = p.columns.map Program.Column.meaning := by
    have hstored := congrArg (List.map Glpk.Column.meaning) h.columns
    rw [List.map_map, List.map_map] at hstored
    exact hstored.trans (List.map_congr_left fun c hc => Glpk.meaning_stored (hv.columns c hc))
  -- the rows of a condition together allow what its two bounds allow
  have hrows : Meaning.ofRows (q.rows.toList.map Glpk.Row.allowed) q.columns.size q.coefficient =
      p.meaning.feasible := by
    rw [h.rows, List.map_map, hcount]
    exact Program.ofRows_eq hv hr (fun b => (Glpk.rowOf b).allowed)
      (fun c hc => Glpk.allowed_rowBounds (hv.conditions c hc))
      (Glpk.Problem.coefficient_eq (hl.trans (Program.map_wrapped_eq_self hv hr)))
  show (⟨q.direction == 2, _, _⟩ : Meaning) = ⟨p.direction == .maximize, _, p.meaning.feasible⟩
  rw [hmaximize, hcolumns, hrows]

/-- On lp_solve, the entries that the problem has are those that were handed over, in whatever order. -/
private theorem LpSolve.Problem.Stores.mem_entries_iff {q : LpSolve.Problem} {p : Program}
    (h : LpSolve.Problem.Stores q p) (hl : (Native.Problem.lpsolve q).Loaded p) (hv : p.Valid)
    (hr : p.Representable .lpsolve) (e : Entry) :
    e ∈ q.entries.toList ↔ e ∈ Entry.coalesce (Program.entries .lpsolve p.conditions) := by
  constructor
  · intro he
    obtain ⟨e', he', rfl⟩ := h.entries e he
    -- positions of a representable program fit in 32 bits
    rwa [Program.wrapped_eq_self hv hr he']
  · intro he
    have hloaded := hl e he
    rwa [Program.wrapped_eq_self hv hr he] at hloaded

/-- A loaded problem of lp_solve means what its program means. -/
private theorem LpSolve.Problem.Stores.meaning_eq {q : LpSolve.Problem} {p : Program}
    (h : LpSolve.Problem.Stores q p) (hl : (Native.Problem.lpsolve q).Loaded p) (hv : p.Valid)
    (hr : p.Representable .lpsolve) : (Native.Problem.lpsolve q).meaning = p.meaning := by
  have hcount : q.columns.size = p.columns.length := (show (Native.Problem.lpsolve q).Stores p from h).columnCount
  have hmaximize : (q.maximize != 0) = (p.direction == .maximize) := by
    rw [h.direction]
    cases p.direction <;> rfl
  have hcolumns : q.columns.toList.map LpSolve.Column.meaning = p.columns.map Program.Column.meaning := by
    have hstored := congrArg (List.map LpSolve.Column.meaning) h.columns
    rw [List.map_map, List.map_map] at hstored
    -- lp_solve takes 1e30 and beyond for infinite, hence the bounds on their size
    exact hstored.trans (List.map_congr_left fun c hc =>
      LpSolve.meaning_stored (hv.columns c hc) (hr.columns rfl c hc).1 (hr.columns rfl c hc).2)
  have hrows : Meaning.ofRows (q.rows.toList.map LpSolve.Row.allowed) q.columns.size
      (fun i j => toReal (q.entry i j)) = p.meaning.feasible := by
    rw [h.rows, List.map_map, hcount]
    exact Program.ofRows_eq hv hr (fun b => (LpSolve.rowOf b).allowed)
      (fun c hc => LpSolve.allowed_rowBounds (hv.conditions c hc) (hr.conditions rfl c hc).1
        (hr.conditions rfl c hc).2) (LpSolve.Problem.toReal_entry (h.mem_entries_iff hl hv hr))
  show (⟨q.maximize != 0, _, _⟩ : Meaning) = ⟨p.direction == .maximize, _, p.meaning.feasible⟩
  rw [hmaximize, hcolumns, hrows]

/-- **A problem that stores a program, and has been handed its matrix, means the program.** -/
theorem Native.Problem.Stores.meaning_eq {q : Native.Problem} {p : Program} (h : q.Stores p)
    (hl : q.Loaded p) {kind : EngineKind} (hq : q.kind? = some kind) (hv : p.Valid)
    (hr : p.Representable kind) : q.meaning = p.meaning := by
  cases q with
  | deleted => exact h.elim
  | glpk q =>
    cases hq
    exact Glpk.Problem.Stores.meaning_eq h hl hv hr
  | lpsolve q =>
    cases hq
    exact LpSolve.Problem.Stores.meaning_eq h hl hv hr

/-- What runs and hooks change has no meaning. -/
theorem Native.Problem.meaning_core (q : Native.Problem) : q.core.meaning = q.meaning := by
  cases q <;> rfl

/-- When a model that represents a program has handed its matrix over, its problem means the program. -/
theorem Model.Represents.meaning_load {model : Model} {q : Native.Problem} {p : Program}
    (h : model.Represents q p) (hq : q.kind? = some model.engine.kind) {t : Triplets}
    (ht : model.entries.triplets = .ok t) (hr : p.Representable model.engine.kind) :
    (q.applyAll (model.engine.loadCalls t)).meaning = p.meaning := by
  -- what is loaded are the coalesced entries, wrapped to 32 bits
  have hload : t.toList =
      (Entry.coalesce (Program.entries model.engine.kind p.conditions)).map Entry.wrapped := by
    rw [Entries.toList_triplets ht, h.entries]
  exact (h.stores.loadCalls hq hload).meaning_eq (Native.Problem.loaded_loadCalls hq hload)
    ((Native.Problem.kind?_applyAll ..).trans hq) h.valid hr

/-! ## §6 The start of a solver -/

/-- An operation that started a solver was a solve of an open model, which loaded a matrix before. -/
theorem Performed.ran {w w' : World} {o : Operation} {a : Except Fault Answer} (h : Performed w o a w')
    {m : ModelId} (ho : o.SolvesModel m) (he : w.Entered w') :
    ∃ model n q t touched r, w.Holds m model n q ∧ model.entries.triplets = .ok t ∧
      Model.Ran w m model n (model.engine.loadCalls t) touched (r, w') := by
  obtain ⟨c, hc, hentry⟩ := he
  cases h with
  -- a call of the solver was made, so the operation was not refused
  | refused hidle => exact Bool.noConfusion ((hidle.idle c hc).symm.trans hentry)
  | grew hgrows =>
    cases o with
    | solve | solveWithContext => exact hgrows.elim
    | _ => exact ho.elim
  | @solved _ m' model n q _ r ho' hh hsolves =>
    have hm : m' = m := by
      cases o with
      | solve | solveWithContext => exact ho'.symm.trans ho
      | _ => exact ho.elim
    subst hm
    -- a solve that loads nothing enters no solver either
    rcases hsolves with ⟨-, hidle⟩ | ⟨t, touched, ht, hran⟩
    · exact Bool.noConfusion ((hidle c hc).symm.trans hentry)
    · exact ⟨model, n, q, t, touched, r, hh, ht, hran⟩
  | _ => exact ho.elim

/-- A call that is not in the first part of a list is in the rest. -/
private theorem split_of_append {before after xs ys : List Native.Call} {c : Native.Call}
    (h : xs ++ ys = before ++ c :: after) (hc : c ∉ xs) :
    ∃ between, before = xs ++ between ∧ ys = between ++ c :: after := by
  rcases List.append_eq_append_iff.mp h with ⟨between, hbefore, hys⟩ | ⟨between, hxs, hafter⟩
  · exact ⟨between, hbefore, hys⟩
  · -- the call would stand inside `xs`, unless nothing lies between
    cases between with
    | nil =>
      rw [List.append_nil] at hxs
      exact ⟨[], by rw [hxs, List.append_nil], hafter.symm⟩
    | cons c' rest =>
      obtain ⟨rfl, -⟩ := List.cons.inj hafter
      exact absurd (hxs ▸ List.mem_append_right _ (List.mem_cons_self ..)) hc

namespace World

/-- **What is solved is the program.** Take any session, and then a solve of a model that starts a solver by
a call `c`, after it has made the calls `before`. The session has built a program for the model; the call
names the model's problem, as these calls have left it; and this means the program. -/
theorem solved_meaning {os : List Operation} (hos : ∀ o ∈ os, o.Proper) {m : ModelId} {o : Operation}
    (ho : o.SolvesModel m) {before after : List Native.Call} {c : Native.Call}
    (hcalls : (initial.nextAll os).callsSince ((initial.nextAll os).next o) = before ++ c :: after)
    (hc : c.isEntry = true) :
    ∃ p model n q, programs os m = some p ∧ (initial.nextAll os).modelCore? m = some model ∧
      model.engine.problem = some n ∧ c.problems = [n] ∧
      (before.foldl Native.Store.apply (initial.nextAll os).native).problem? n = some q ∧
      q.kind? = some model.engine.kind ∧
      (p.Representable model.engine.kind → q.meaning = p.meaning) := by
  have hs := sound_nextAll sound_initial os
  have hfits : (programs os).Fits (initial.nextAll os) :=
    Programs.fits_nextAll (Programs.fits_initial _) sound_initial hos
  generalize initial.nextAll os = w at hs hfits hcalls ⊢
  have hentered : w.Entered (w.next o) := ⟨c, by rw [hcalls]; simp, hc⟩
  obtain ⟨model, n, q, t, touched, r, hh, ht, hran⟩ := (performed hs o).ran ho hentered
  obtain ⟨p, hp, hrep⟩ := hfits hh
  obtain ⟨quiet, run, hsplit, hquiet, hrun⟩ := hran.calls
  -- no solver is started before the matrix has been handed over
  have hnot : c ∉ quiet ++ model.engine.loadCalls t := by
    intro hmem
    rcases List.mem_append.mp hmem with hmem | hmem
    · exact Bool.noConfusion ((hquiet c hmem).2.symm.trans hc)
    · exact Bool.noConfusion ((Model.isEntry_loadCalls _ t c hmem).symm.trans hc)
  rw [hsplit, ← List.append_assoc] at hcalls
  obtain ⟨between, rfl, rfl⟩ := split_of_append hcalls hnot
  have hbetween : ∀ c' ∈ between, c'.isQuiet = true := fun c' hc' =>
    (hrun c' (List.mem_append_left _ hc')).1
  -- what the solve does besides handing the matrix over leaves the core of the problem alone
  have hcore : ((quiet ++ model.engine.loadCalls t ++ between).foldl Native.Store.apply w.native).core? n =
      some (q.applyAll (model.engine.loadCalls t)).core := by
    have habout : ∀ c' ∈ model.engine.loadCalls t, c'.IsAbout n := by
      have hnumber : model.engine.number = n := by simp [Engine.number, hh.number]
      exact hnumber ▸ Engine.isAbout_loadCalls model.engine t
    have hfirst := Native.Store.core?_applyAll_of_isQuiet (fun c' hc' => (hquiet c' hc').1) w.native n
    obtain ⟨q₁, hq₁, hsame⟩ := Option.map_eq_some_iff.mp (hfirst.trans hh.problem)
    rw [List.foldl_append, Native.Store.core?_applyAll_of_isQuiet hbetween, List.foldl_append,
      Native.Store.core?, Native.Store.problem?_applyAll habout, if_pos rfl, hq₁, Option.map_some,
      Option.map_some, Native.Problem.core_applyAll, hsame]
  obtain ⟨q', hq', hsame⟩ := Option.map_eq_some_iff.mp hcore
  refine ⟨p, model, n, q', hp, hh.found, hh.number, (hrun c (by simp)).2 hc, hq', ?_, fun hr => ?_⟩
  · rw [← Native.Problem.kind?_core, hsame, Native.Problem.kind?_core, Native.Problem.kind?_applyAll, hh.kind]
  · rw [← Native.Problem.meaning_core, hsame, Native.Problem.meaning_core]
    exact hrep.meaning_load hh.kind ht hr

/-- A condition that is bounded on neither side is no row on lp_solve, and what is solved means the program
nevertheless. -/
theorem solved_without_free_row :
    let os : List Operation := [.create "" (.text "maximize") [.engine (.named (.text "lpsolve"))],
      .addVariable 0 "x" (.text "integer") (.int 3) (.int 0) (.float Double.infinity),
      .addConstraint 0 (.int 1) (.float Double.negInfinity) [.variable ⟨0, 0⟩] [.int 2],
      .addConstraint 0 (.float Double.infinity) (.float Double.infinity) [] []]
    let w := initial.nextAll os
    let p : Program := ⟨.maximize, [⟨.integer, 0, Double.infinity, 3⟩],
      [⟨1, Double.negInfinity, [(0, 2)]⟩, ⟨Double.infinity, Double.infinity, []⟩]⟩
    ∃ before c after q, w.callsSince (w.next (.solve 0 none)) = before ++ c :: after ∧
      c.isEntry = true ∧ c.problems = [1] ∧
      (before.foldl Native.Store.apply w.native).problem? 1 = some q ∧ q.rowCount = 1 ∧
      programs os 0 = some p ∧ q.meaning = p.meaning := by
  intro os w p
  have hos : ∀ o ∈ os, o.Proper := by simp [os, Operation.Proper]
  let calls := w.callsSince (w.next (.solve 0 none))
  have hcalls : calls = calls.take 3 ++ Native.Call.lpsolve (.solve 1) :: calls.drop 4 := by decide +kernel
  obtain ⟨p', model, n, q, hp', hmodel, -, hn, hq, -, hmeaning⟩ :=
    solved_meaning hos (o := .solve 0 none) rfl hcalls rfl
  have hp : programs os 0 = some p := by decide +kernel
  obtain rfl : p' = p := Option.some.inj (hp'.symm.trans hp)
  obtain rfl : n = 1 := (List.singleton_inj.mp hn).symm
  have hkind : model.engine.kind = .lpsolve := by
    have hfound : (w.modelCore? 0).map (·.engine.kind) = some .lpsolve := by decide +kernel
    rw [hmodel] at hfound
    exact Option.some.inj hfound
  -- the free condition gives lp_solve no row, the other one a single row
  have hrows : q.rowCount = 1 := by
    have hfound : (((calls.take 3).foldl Native.Store.apply w.native).problem? 1).map (·.rowCount) =
        some 1 := by decide +kernel
    rw [hq] at hfound
    exact Option.some.inj hfound
  have hrepresentable : p.Representable model.engine.kind := by
    rw [hkind]
    decide +kernel
  exact ⟨_, _, _, q, hcalls, rfl, rfl, hq, hrows, hp, hmeaning hrepresentable⟩

end World

end LinearProgram
