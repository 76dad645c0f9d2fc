import LinearProgram.Proofs.Engine.Columns
import LinearProgram.Proofs.Performed
import LinearProgram.Proofs.Program

/-!
# Problems that store a program

A problem of a library stores a program if its direction, its columns and its rows are the stored forms of
those of the program: `Native.Problem.Stores`. Names do not matter. How many rows a condition has depends on
the engine, and is said once, by `Engine.rowBounds`.

Each group of calls that an operation makes keeps this relation, when the program is revised as the
operation says. The matrix is not part of it, since it is handed over only at a solve.
-/

namespace LinearProgram

/-! ## §1 Stored forms -/

namespace Program

/-- The stored form of a pair of bounds that are numbers. -/
def boundOf (lower upper : Float) : Bound := (Bound.encode lower upper).toOption.getD ⟨.free, 0, 0⟩

theorem boundOf_eq {lower upper : Float} {b : Bound} (h : Bound.encode lower upper = .ok b) :
    boundOf lower upper = b := by
  rw [boundOf, h]
  rfl

def Column.bound (c : Column) : Bound := boundOf c.lower c.upper

def Condition.bound (c : Condition) : Bound := boundOf c.lower c.upper

/-- The rows of the conditions on an engine, with their terms. -/
def rows (kind : EngineKind) (cs : List Condition) : List (Bound × List (Nat × Float)) :=
  cs.flatMap fun c => (Engine.rowBounds kind c.bound).map fun b => (b, c.terms)

theorem rows_append (kind : EngineKind) (cs ds : List Condition) :
    rows kind (cs ++ ds) = rows kind cs ++ rows kind ds := List.flatMap_append

def rowEntries (i : Int) (terms : List (Nat × Float)) : List Entry :=
  terms.map fun t => ⟨i, t.1 + 1, t.2⟩

/-- The entries of rows that follow `k` rows. -/
def entriesFrom : Nat → List (Bound × List (Nat × Float)) → List Entry
  | _, [] => []
  | k, r :: rest => rowEntries (k + 1) r.2 ++ entriesFrom (k + 1) rest

def entries (kind : EngineKind) (cs : List Condition) : List Entry := entriesFrom 0 (rows kind cs)

/-- The entries of further rows stand behind those of the first ones. -/
theorem entriesFrom_append (k : Nat) (rs rs' : List (Bound × List (Nat × Float))) :
    entriesFrom k (rs ++ rs') = entriesFrom k rs ++ entriesFrom (k + rs.length) rs' := by
  induction rs generalizing k with
  | nil => simp [entriesFrom]
  | cons r rest ih =>
    -- the rows behind are numbered from where the first ones end
    have hk : k + 1 + rest.length = k + (r :: rest).length := by
      rw [List.length_cons]
      omega
    rw [List.cons_append, entriesFrom, entriesFrom, ih, hk, List.append_assoc]

theorem entries_append (kind : EngineKind) (cs ds : List Condition) :
    entries kind (cs ++ ds) = entries kind cs ++ entriesFrom (rows kind cs).length (rows kind ds) := by
  unfold entries
  rw [rows_append, entriesFrom_append, Nat.zero_add]

/-- Each entry is a term of a row, at the row's number. -/
theorem mem_entriesFrom {k : Nat} {rs : List (Bound × List (Nat × Float))} {e : Entry}
    (h : e ∈ entriesFrom k rs) : ∃ i, i < rs.length ∧ e.row = (k + i : Nat) + 1 ∧
      ∃ r ∈ rs, ∃ t ∈ r.2, e.column = t.1 + 1 := by
  induction rs generalizing k with
  | nil => cases h
  | cons r rest ih =>
    -- an entry of the first row, or of one behind it
    rcases List.mem_append.mp h with h | h
    · obtain ⟨t, ht, rfl⟩ := List.mem_map.mp h
      exact ⟨0, by simp, rfl, r, List.mem_cons_self .., t, ht, rfl⟩
    · obtain ⟨i, hi, hrow, r', hr', hterm⟩ := ih h
      exact ⟨i + 1, by simpa using hi, by rw [hrow]; omega, r', List.mem_cons_of_mem _ hr', hterm⟩

/-- The cell of a row and a column has the coefficients of the column in the row. -/
theorem cell_entriesFrom (k : Nat) (rs : List (Bound × List (Nat × Float))) (i j : Nat) :
    Entry.cell (entriesFrom k rs) (k + i + 1) (j + 1) =
      ((rs[i]?).map fun r => coefficientsAt r.2 j).getD [] := by
  have hrow (i' : Int) (terms : List (Nat × Float)) (i'' : Int) :
      Entry.cell (rowEntries i' terms) i'' (j + 1) = if i' = i'' then coefficientsAt terms j else [] := by
    unfold Entry.cell rowEntries coefficientsAt
    rw [List.filter_map, List.map_map]
    by_cases hi : i' = i''
    · have hsame : Entry.isAt i'' (j + 1) ∘ (fun t : Nat × Float => (⟨i', t.1 + 1, t.2⟩ : Entry)) =
          fun t => t.1 == j := by
        funext t
        rw [Bool.eq_iff_iff]
        simp [Entry.isAt, hi]
      rw [if_pos hi, hsame]
      rfl
    · rw [if_neg hi]
      simp [Entry.isAt, hi, Function.comp_def]
  induction rs generalizing k i with
  | nil => rfl
  | cons r rest ih =>
    rw [entriesFrom, Entry.cell_append, hrow]
    cases i with
    | zero =>
      -- the rows behind the first one have larger numbers
      have hlater : Entry.cell (entriesFrom (k + 1) rest) (k + (0 : Nat) + 1) (j + 1) = [] := by
        refine Entry.cell_eq_nil fun e he hat => ?_
        obtain ⟨i, -, hrow, -⟩ := mem_entriesFrom he
        have hfirst := (Entry.isAt_iff.mp hat).1
        omega
      rw [if_pos (by omega), hlater]
      simp
    | succ i =>
      have hnext := ih (k + 1) i
      have hnumber : ((k + 1 : Nat) + i + 1 : Int) = k + (i + 1 : Nat) + 1 := by omega
      rw [hnumber] at hnext
      rw [if_neg (by omega), hnext]
      simp

/-- Further conditions leave the coalesced entries of earlier ones alone, since they get rows of their
own. -/
theorem mem_coalesce_entries_append {kind : EngineKind} {cs : List Condition} {e : Entry}
    (h : e ∈ Entry.coalesce (entries kind cs)) (ds : List Condition) :
    e ∈ Entry.coalesce (entries kind (cs ++ ds)) := by
  rw [entries_append]
  refine Entry.mem_coalesce_append h (Entry.cell_eq_nil fun e' he' hat => ?_)
  obtain ⟨e₀, he₀, hrow₀, -⟩ := Entry.exists_isAt_of_mem_coalesce h
  obtain ⟨i₀, hi₀, hearly, -⟩ := mem_entriesFrom he₀
  obtain ⟨i, -, hlate, -⟩ := mem_entriesFrom he'
  -- new conditions have rows of their own, so they add to no old entry
  have hsame := (Entry.isAt_iff.mp hat).1
  omega

end Program

namespace Glpk

/-- The stored form of a column of a program, without a name. -/
def stored (c : Program.Column) : Column := columnOf "" c.kind c.bound c.coefficient

def Column.unnamed (c : Column) : Column := { c with name := "" }

/-- A problem of GLPK stores a program. -/
structure Problem.Stores (q : Problem) (p : Program) : Prop where
  direction : q.direction = directionCode p.direction
  columns : q.columns.toList.map Column.unnamed = p.columns.map stored
  rows : q.rows.toList = (Program.rows .glpk p.conditions).map fun r => rowOf r.1

end Glpk

namespace LpSolve

/-- The stored form of a column of a program, without a name. -/
def stored (c : Program.Column) : Column := columnOf "" c.kind c.bound c.coefficient

def Column.unnamed (c : Column) : Column := { c with name := "" }

/-- A problem of lp_solve stores a program. Entries that were loaded at earlier solves are still right. -/
structure Problem.Stores (q : Problem) (p : Program) : Prop where
  direction : q.maximize = if p.direction = .maximize then 1 else 0
  columns : q.columns.toList.map Column.unnamed = p.columns.map stored
  rows : q.rows.toList = (Program.rows .lpsolve p.conditions).map fun r => rowOf r.1
  entries : ∀ e ∈ q.entries.toList,
    ∃ e' ∈ Entry.coalesce (Program.entries .lpsolve p.conditions), e'.wrapped = e

end LpSolve

namespace Native.Problem

/-- A problem stores a program, apart from the matrix. -/
def Stores : Problem → Program → Prop
  | .glpk q, p => q.Stores p
  | .lpsolve q, p => q.Stores p
  | .deleted, _ => False

/-- What runs and hooks change is not part of it. -/
theorem Stores.core {q : Problem} {p : Program} (h : q.Stores p) : q.core.Stores p := by
  cases q with
  | glpk q => exact ⟨h.direction, h.columns, h.rows⟩
  | lpsolve q => exact ⟨h.direction, h.columns, h.rows, h.entries⟩
  | deleted => exact h

/-- There are as many columns as the program has. -/
theorem Stores.columnCount {q : Problem} {p : Program} (h : q.Stores p) :
    q.columnCount = p.columns.length := by
  cases q with
  | glpk q => simpa [Problem.columnCount] using congrArg List.length h.columns
  | lpsolve q => simpa [Problem.columnCount] using congrArg List.length h.columns
  | deleted => exact h.elim

/-- There are as many rows as the conditions have on the engine. -/
theorem Stores.rowCount {q : Problem} {p : Program} (h : q.Stores p) {kind : EngineKind}
    (hq : q.kind? = some kind) : q.rowCount = (Program.rows kind p.conditions).length := by
  cases q with
  | glpk q =>
    cases hq
    simpa [Problem.rowCount] using congrArg List.length h.rows
  | lpsolve q =>
    cases hq
    simpa [Problem.rowCount] using congrArg List.length h.rows
  | deleted => exact h.elim

end Native.Problem

/-! ## §2 Changing a column -/

/-- Related lists stay related when related members are modified. -/
private theorem map_modify {α β γ : Type} {xs : List α} {ys : List β} {u : α → γ} {k : β → γ}
    (h : xs.map u = ys.map k) {f : α → α} {g : β → β} {i : Nat}
    (hfg : ∀ x y, ys[i]? = some y → u x = k y → u (f x) = k (g y)) :
    (xs.modify i f).map u = (ys.modify i g).map k := by
  apply List.ext_getElem?
  intro m
  have hm : xs[m]?.map u = ys[m]?.map k := by
    rw [← List.getElem?_map, ← List.getElem?_map, h]
  rw [List.getElem?_map, List.getElem?_map, List.getElem?_modify, List.getElem?_modify]
  by_cases hi : i = m
  · subst hi
    -- the lists are equally long, so both have the place or neither has it
    cases hx : xs[i]? <;> cases hy : ys[i]? <;> rw [hx, hy] at hm
    · rfl
    · cases hm
    · cases hm
    · simpa using hfg _ _ hy (Option.some.inj hm)
  · simpa [hi] using hm

/-- Changing a column of the problem and of the program alike keeps the problem storing the program. -/
theorem Glpk.Problem.Stores.modifyColumn {q : Glpk.Problem} {p : Program} (h : q.Stores p) {j : Nat}
    {f : Glpk.Column → Glpk.Column} {g : Program.Column → Program.Column}
    (hfg : ∀ x y, p.columns[j]? = some y → x.unnamed = Glpk.stored y →
      (f x).unnamed = Glpk.stored (g y)) :
    (q.modifyColumn (j + 1) f).Stores (p.modify j g) := by
  unfold Glpk.Problem.modifyColumn
  -- columns are numbered from one by the engine, from zero by the program
  rw [if_pos (by omega), show ((j : Int) + 1 - 1).toNat = j by omega]
  refine ⟨h.direction, ?_, h.rows⟩
  rw [Array.toList_modify]
  exact map_modify h.columns hfg

/-- Likewise on lp_solve. -/
theorem LpSolve.Problem.Stores.modifyColumn {q : LpSolve.Problem} {p : Program} (h : q.Stores p)
    {j : Nat} {f : LpSolve.Column → LpSolve.Column} {g : Program.Column → Program.Column}
    (hfg : ∀ x y, p.columns[j]? = some y → x.unnamed = LpSolve.stored y →
      (f x).unnamed = LpSolve.stored (g y)) :
    (q.modifyColumn (j + 1) f).Stores (p.modify j g) := by
  unfold LpSolve.Problem.modifyColumn
  rw [if_pos (by omega), show ((j : Int) + 1 - 1).toNat = j by omega]
  refine ⟨h.direction, ?_, h.rows, h.entries⟩
  rw [Array.toList_modify]
  exact map_modify h.columns hfg

namespace Native.Problem.Stores

variable {q : Native.Problem} {p : Program} {e : Engine}

/-- Setting the objective coefficient of a column. -/
theorem objectiveCall (h : q.Stores p) (hq : q.kind? = some e.kind) (j : Nat) (x : Float) :
    (q.apply (e.objectiveCall (j + 1) x)).Stores (p.modify j (Program.Column.withCoefficient x)) := by
  cases hk : e.kind with
  | glpk =>
    obtain ⟨q, rfl⟩ := Native.Problem.eq_glpk_of_kind? (hq.trans (by rw [hk]))
    rw [(Engine.apply_columnCall_glpk hk q _).2.2.2]
    refine Glpk.Problem.Stores.modifyColumn h fun c v _ hc => ?_
    exact congrArg (fun c : Glpk.Column => { c with objective := x }) hc
  | lpsolve =>
    obtain ⟨q, rfl⟩ := Native.Problem.eq_lpsolve_of_kind? (hq.trans (by rw [hk]))
    rw [(Engine.apply_columnCall_lpsolve hk q _).2.2.2]
    refine LpSolve.Problem.Stores.modifyColumn h fun c v _ hc => ?_
    exact congrArg (fun c : LpSolve.Column => { c with objective := x }) hc

/-- Bounding a column. -/
private theorem bounding (h : q.Stores p) (hq : q.kind? = some e.kind) {j : Nat} {b : Bound}
    {g : Program.Column → Program.Column} (hg : ∀ c, p.columns[j]? = some c →
      (g c).bound = b ∧ (g c).kind = c.kind ∧ (g c).coefficient = c.coefficient) :
    (q.apply (e.boundsCall (j + 1) b)).Stores (p.modify j g) := by
  cases hk : e.kind with
  | glpk =>
    obtain ⟨q, rfl⟩ := Native.Problem.eq_glpk_of_kind? (hq.trans (by rw [hk]))
    rw [(Engine.apply_columnCall_glpk hk q _).2.2.1]
    refine Glpk.Problem.Stores.modifyColumn h fun c v hv hc => ?_
    -- nothing but the bound of the column changes, in the engine as in the program
    obtain ⟨hb, hkind, hcoefficient⟩ := hg v hv
    unfold Glpk.stored
    rw [hb, hkind, hcoefficient]
    exact congrArg (fun c : Glpk.Column =>
      { c with bound := Glpk.boundCode b.kind, lower := b.lower, upper := b.upper }) hc
  | lpsolve =>
    obtain ⟨q, rfl⟩ := Native.Problem.eq_lpsolve_of_kind? (hq.trans (by rw [hk]))
    rw [(Engine.apply_columnCall_lpsolve hk q _).2.2.1]
    refine LpSolve.Problem.Stores.modifyColumn h fun c v hv hc => ?_
    obtain ⟨hb, hkind, hcoefficient⟩ := hg v hv
    unfold LpSolve.stored
    rw [hb, hkind, hcoefficient]
    exact congrArg (fun c : LpSolve.Column =>
      { c with lower := (LpSolve.sides b).1, upper := (LpSolve.sides b).2 }) hc

/-- Bounding a column that is not binary. -/
theorem boundsCall (h : q.Stores p) (hq : q.kind? = some e.kind) {j : Nat} {lower upper : Float}
    {b : Bound} (hb : Bound.encode lower upper = .ok b)
    (hj : ∀ c, p.columns[j]? = some c → c.kind ≠ .binary) :
    (q.apply (e.boundsCall (j + 1) b)).Stores (p.modify j (Program.Column.withBounds lower upper)) := by
  refine h.bounding hq fun c hc => ?_
  unfold Program.Column.withBounds Program.Column.bound
  rw [if_neg (hj c hc)]
  exact ⟨Program.boundOf_eq hb, rfl, rfl⟩

private theorem bound_withKind_binary (c : Program.Column) :
    (Program.Column.withKind .binary c).bound = Bound.binary := by
  have hencode : Bound.encode 0 1 = .ok Bound.binary := World.eq_ok_of_toOption (by decide +kernel)
  exact Program.boundOf_eq hencode

/-- The call that sets a kind: both libraries bound a binary column by zero and one in it. -/
private theorem kindCall (h : q.Stores p) (hq : q.kind? = some e.kind) (j : Nat) (kind : VariableKind) :
    (q.apply (e.kindCall (j + 1) kind)).Stores (p.modify j (Program.Column.withKind kind)) := by
  cases hk : e.kind with
  | glpk =>
    obtain ⟨q, rfl⟩ := Native.Problem.eq_glpk_of_kind? (hq.trans (by rw [hk]))
    rw [(Engine.apply_columnCall_glpk hk q _).2.1]
    refine Glpk.Problem.Stores.modifyColumn h fun c v _ hc => ?_
    -- making a column binary sets its bounds as well, in both engines
    cases kind with
    | binary =>
      unfold Glpk.stored
      rw [bound_withKind_binary]
      exact congrArg (fun c : Glpk.Column => { c with kind := 3, bound := 4, lower := 0, upper := 1 }) hc
    | integer => exact congrArg (fun c : Glpk.Column => { c with kind := 2 }) hc
    | continuous => exact congrArg (fun c : Glpk.Column => { c with kind := 1 }) hc
  | lpsolve =>
    obtain ⟨q, rfl⟩ := Native.Problem.eq_lpsolve_of_kind? (hq.trans (by rw [hk]))
    rw [(Engine.apply_columnCall_lpsolve hk q _).2.1]
    refine LpSolve.Problem.Stores.modifyColumn h fun c v _ hc => ?_
    cases kind with
    | binary =>
      unfold LpSolve.stored
      rw [bound_withKind_binary]
      exact congrArg (fun c : LpSolve.Column => { c with integer := true, lower := 0, upper := 1 }) hc
    | integer => exact congrArg (fun c : LpSolve.Column => { c with integer := true }) hc
    | continuous => exact congrArg (fun c : LpSolve.Column => { c with integer := false }) hc

/-- Changing the kind of a column. -/
theorem kindCalls (h : q.Stores p) (hq : q.kind? = some e.kind) (j : Nat) (kind : VariableKind) :
    (q.applyAll (Variable.kindCalls e (j + 1) kind)).Stores
      (p.modify j (Program.Column.withKind kind)) := by
  have hkinds := h.kindCall hq j kind
  unfold Variable.kindCalls
  rw [Native.Problem.applyAll_cons]
  by_cases hk : kind = .binary
  · subst hk
    rw [if_pos rfl]
    -- the bounds of a binary column are set a second time
    have hagain := hkinds.bounding (e := e) (j := j) (b := Bound.binary) (g := id)
      ((Native.Problem.kind?_apply ..).trans hq) fun c hc => ?_
    · have hid : (p.modify j (Program.Column.withKind .binary)).modify j id =
          p.modify j (Program.Column.withKind .binary) := by
        unfold Program.modify
        rw [List.modify_id]
      rwa [hid] at hagain
    · have hmodified : ((p.columns.modify j (Program.Column.withKind .binary)))[j]? = some c := hc
      rw [List.getElem?_modify] at hmodified
      obtain ⟨c', -, rfl⟩ := Option.map_eq_some_iff.mp hmodified
      rw [if_pos rfl]
      exact ⟨bound_withKind_binary c', rfl, rfl⟩
  · rw [if_neg hk]
    exact hkinds

/-- Setting objective coefficients from left to right. -/
theorem objectiveCalls (h : q.Stores p) (hq : q.kind? = some e.kind) (terms : List (Variable × Float))
    (hterms : ∀ t ∈ terms, 0 ≤ t.1.index) :
    (q.applyAll (Model.objectiveCalls e terms)).Stores
      (p.setObjective (terms.map fun t => (t.1.index.toNat, t.2))) := by
  induction terms generalizing q p with
  | nil => exact h
  | cons t rest ih =>
    -- engine columns are one ahead of the indices
    have hcolumn : t.1.column = (t.1.index.toNat : Int) + 1 := by
      have hindex := hterms t (List.mem_cons_self ..)
      unfold Variable.column
      omega
    have hfirst := h.objectiveCall hq t.1.index.toNat t.2
    rw [← hcolumn] at hfirst
    exact ih hfirst ((Native.Problem.kind?_apply ..).trans hq)
      fun t ht => hterms t (List.mem_cons_of_mem _ ht)

/-- Setting the direction. -/
theorem directionCall (h : q.Stores p) (hq : q.kind? = some e.kind) (d : Direction) :
    (q.apply (e.directionCall d)).Stores { p with direction := d } := by
  unfold Engine.directionCall
  cases hk : e.kind with
  | glpk =>
    obtain ⟨q, rfl⟩ := Native.Problem.eq_glpk_of_kind? (hq.trans (by rw [hk]))
    have hs : Glpk.Problem.Stores q p := h
    exact ⟨rfl, hs.columns, hs.rows⟩
  | lpsolve =>
    obtain ⟨q, rfl⟩ := Native.Problem.eq_lpsolve_of_kind? (hq.trans (by rw [hk]))
    have hs : LpSolve.Problem.Stores q p := h
    exact ⟨rfl, hs.columns, hs.rows, hs.entries⟩

/-! ## §3 Adding columns and rows -/

/-- A problem that was just made and named stores the program without columns. -/
theorem fresh (e : Engine) (name : String) (d : Direction) :
    ((Engine.fresh e.kind).applyAll (Model.namingCalls e name d)).Stores (Program.fresh d) := by
  unfold Model.namingCalls Engine.directionCall Engine.fresh
  cases e.kind with
  | glpk => exact ⟨rfl, rfl, rfl⟩
  | lpsolve => exact ⟨rfl, rfl, rfl, fun x hx => nomatch hx⟩

/-- Handing the matrix over changes neither columns nor rows. -/
theorem loadCalls (h : q.Stores p) (hq : q.kind? = some e.kind) {t : Triplets}
    (ht : t.toList = (Entry.coalesce (Program.entries e.kind p.conditions)).map Entry.wrapped) :
    (q.applyAll (e.loadCalls t)).Stores p := by
  cases hk : e.kind with
  | glpk =>
    obtain ⟨q, rfl⟩ := Native.Problem.eq_glpk_of_kind? (hq.trans (by rw [hk]))
    have hs : Glpk.Problem.Stores q p := h
    unfold Engine.loadCalls
    rw [hk]
    exact ⟨hs.direction, hs.columns, hs.rows⟩
  | lpsolve =>
    obtain ⟨q, rfl⟩ := Native.Problem.eq_lpsolve_of_kind? (hq.trans (by rw [hk]))
    have hs : LpSolve.Problem.Stores q p := h
    rw [Engine.applyAll_loadCalls_lpsolve hk]
    refine ⟨hs.direction, hs.columns, hs.rows, fun y hy => ?_⟩
    -- an entry from before, or one just loaded
    rcases List.mem_append.mp (Array.toList_append ▸ hy) with hy | hy
    · exact hs.entries y hy
    · rw [hk] at ht
      exact List.mem_map.mp (ht ▸ hy)

/-- Adding columns of one description. -/
theorem newVariablesCalls (h : q.Stores p) (hq : q.kind? = some e.kind) (d : Model.VariableDraft)
    (names : List String) {c : Program.Column} (hkind : c.kind = d.kind)
    (hbound : c.bound = if d.kind = .binary then Bound.binary else d.bound)
    (hcoefficient : c.coefficient = d.coefficient) :
    (q.applyAll (Model.newVariablesCalls e d q.columnCount names)).Stores
      { p with columns := p.columns ++ List.replicate names.length c } := by
  rw [Native.Problem.applyAll_newVariablesCalls hq]
  -- both libraries append equal columns that differ in their names alone, which are not compared
  rcases q with q | q | _
  · have hs : Glpk.Problem.Stores q p := h
    refine ⟨hs.direction, ?_, hs.rows⟩
    simp only [Array.toList_append, List.map_append, hs.columns, List.map_replicate]
    congr 1
    refine List.eq_replicate_iff.mpr ⟨by simp, fun x hx => ?_⟩
    obtain ⟨name, -, rfl⟩ : ∃ name ∈ names, _ = x := by simpa using hx
    unfold Glpk.stored
    rw [hkind, hbound, hcoefficient]
    rfl
  · have hs : LpSolve.Problem.Stores q p := h
    refine ⟨hs.direction, ?_, hs.rows, hs.entries⟩
    simp only [Array.toList_append, List.map_append, hs.columns, List.map_replicate]
    congr 1
    refine List.eq_replicate_iff.mpr ⟨by simp, fun x hx => ?_⟩
    obtain ⟨name, -, rfl⟩ : ∃ name ∈ names, _ = x := by simpa using hx
    unfold LpSolve.stored
    rw [hkind, hbound, hcoefficient]
    rfl
  · cases hq

/-- Adding the rows of a condition. -/
theorem rowsCalls (h : q.Stores p) (hq : q.kind? = some e.kind) (c : Program.Condition) :
    (q.applyAll (e.rowsCalls q.rowCount (Engine.rowBounds e.kind c.bound))).Stores
      { p with conditions := p.conditions ++ [c] } := by
  rw [Native.Problem.applyAll_rowsCalls hq]
  rcases q with q | q | _
  · obtain hk : EngineKind.glpk = e.kind := Option.some.inj hq
    have hs : Glpk.Problem.Stores q p := h
    refine ⟨hs.direction, hs.columns, ?_⟩
    simp [← hk, hs.rows, Program.rows]
  · obtain hk : EngineKind.lpsolve = e.kind := Option.some.inj hq
    have hs : LpSolve.Problem.Stores q p := h
    refine ⟨hs.direction, hs.columns, ?_, fun x hx => ?_⟩
    · simp [← hk, hs.rows, Program.rows]
    · -- what was loaded for the conditions before still stands
      obtain ⟨e', he', hx⟩ := hs.entries x hx
      exact ⟨e', Program.mem_coalesce_entries_append he' [c], hx⟩
  · cases hq

end Native.Problem.Stores

end LinearProgram
