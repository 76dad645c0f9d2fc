import LinearProgram.Model.Variables
import LinearProgram.Proofs.Calls

/-!
# Engine operations as lists of calls

On libraries that refuse nothing, every operation of an engine that builds a problem is a fixed list of
calls: it answers, and the state afterwards is `World.afterAll` of that list. The lists are definitions of
this module, one for each operation, and for each there is an equation that runs the operation and a fact
that all its calls are about the problem of the engine.

`Engine.Owns` says that an engine has a problem and that the problem belongs to the engine's library.
-/

namespace LinearProgram

/-! ## §1 Problems of either library -/

namespace Native.Problem

def kind? : Problem → Option EngineKind
  | .glpk _ => some .glpk
  | .lpsolve _ => some .lpsolve
  | .deleted => none

def columnCount : Problem → Nat
  | .glpk q => q.columns.size
  | .lpsolve q => q.columns.size
  | .deleted => 0

def rowCount : Problem → Nat
  | .glpk q => q.rows.size
  | .lpsolve q => q.rows.size
  | .deleted => 0

@[simp] theorem kind?_apply (p : Problem) (c : Call) : (p.apply c).kind? = p.kind? := by
  cases p <;> cases c <;> rfl

@[simp] theorem kind?_applyAll (p : Problem) (cs : List Call) : (p.applyAll cs).kind? = p.kind? := by
  induction cs generalizing p with
  | nil => rfl
  | cons c cs ih => rw [applyAll_cons, ih, kind?_apply]

@[simp] theorem kind?_core (p : Problem) : p.core.kind? = p.kind? := by cases p <;> rfl

/-- A problem that is one of GLPK has the parts of one. -/
theorem eq_glpk_of_kind? {p : Problem} (h : p.kind? = some .glpk) : ∃ q, p = .glpk q := by
  cases p with
  | glpk q => exact ⟨q, rfl⟩
  | lpsolve q => cases h
  | deleted => cases h

theorem eq_lpsolve_of_kind? {p : Problem} (h : p.kind? = some .lpsolve) : ∃ q, p = .lpsolve q := by
  cases p with
  | glpk q => cases h
  | lpsolve q => exact ⟨q, rfl⟩
  | deleted => cases h

end Native.Problem

namespace Engine

/-- The engine has problem `n`, which is `q` in the store, of the engine's library. -/
structure Owns (e : Engine) (s : Native.Store) (n : Nat) (q : Native.Problem) : Prop where
  problem : e.problem = some n
  found : s.problem? n = some q
  kind : q.kind? = some e.kind

namespace Owns

variable {e : Engine} {s : Native.Store} {n : Nat} {q : Native.Problem}

theorem unique (h : e.Owns s n q) {n' : Nat} {q' : Native.Problem} (h' : e.Owns s n' q') : n' = n ∧ q' = q := by
  obtain rfl : n' = n := Option.some.inj (h'.problem.symm.trans h.problem)
  exact ⟨rfl, Option.some.inj (h'.found.symm.trans h.found)⟩

theorem number (h : e.Owns s n q) : e.number = n := by
  simp [Engine.number, h.problem]

theorem glpk? (h : e.Owns s n q) (hk : e.kind = .glpk) :
    ∃ q', q = .glpk q' ∧ s.glpk? n = some q' := by
  obtain ⟨q', rfl⟩ := Native.Problem.eq_glpk_of_kind? (h.kind.trans (by rw [hk]))
  exact ⟨q', rfl, by rw [Native.Store.glpk?, h.found]⟩

theorem lpsolve? (h : e.Owns s n q) (hk : e.kind = .lpsolve) :
    ∃ q', q = .lpsolve q' ∧ s.lpsolve? n = some q' := by
  obtain ⟨q', rfl⟩ := Native.Problem.eq_lpsolve_of_kind? (h.kind.trans (by rw [hk]))
  exact ⟨q', rfl, by rw [Native.Store.lpsolve?, h.found]⟩

/-- Calls about the problem leave it with its engine. -/
theorem applyAll (h : e.Owns s n q) {cs : List Native.Call} (hcs : ∀ c ∈ cs, c.IsAbout n) :
    e.Owns (cs.foldl Native.Store.apply s) n (q.applyAll cs) where
  problem := h.problem
  found := by rw [Native.Store.problem?_applyAll hcs, if_pos rfl, h.found]; rfl
  kind := by rw [Native.Problem.kind?_applyAll]; exact h.kind

end Owns

end Engine

/-! ## §2 Reading and telling -/

namespace Glpk

theorem on_tell {c : Call} {w : World} (h : w.Grants c.function) :
    (tell c).on w = (.ok (), w.after (.glpk c)) := by
  rw [tell, Action.on_bind_of_ok (Action.on_call_of_grants h)]
  rfl

/-- A granted question is answered from the problem, or with what stands for its absence. -/
theorem on_ask {α : Type} {p : Nat} {query : Query} {w : World} (h : w.Grants query.function)
    (absent : α) (answer : Problem → α) :
    (ask p query absent answer).on w =
      (.ok (((w.native.glpk? p).map answer).getD absent), w.after (.glpk (.read p query))) := by
  rw [ask, Action.on_bind_of_ok (Action.on_call_of_grants (c := .glpk (.read p query)) h)]
  simp only [if_true, Action.on_bind, Action.on_get]
  have hsame : (w.after (.glpk (.read p query))).native.glpk? p = w.native.glpk? p := rfl
  rw [hsame]
  cases w.native.glpk? p <;> rfl

end Glpk

namespace LpSolve

theorem on_tell {c : Call} {w : World} (h : w.Grants c.function) :
    (tell c).on w = (.ok (), w.after (.lpsolve c)) := by
  rw [tell, Action.on_bind_of_ok (Action.on_call_of_grants h)]
  rfl

theorem on_ask {α : Type} {p : Nat} {query : Query} {w : World} (h : w.Grants query.function)
    (absent : α) (answer : Problem → α) :
    (ask p query absent answer).on w =
      (.ok (((w.native.lpsolve? p).map answer).getD absent), w.after (.lpsolve (.read p query))) := by
  rw [ask, Action.on_bind_of_ok (Action.on_call_of_grants (c := .lpsolve (.read p query)) h)]
  simp only [if_true, Action.on_bind, Action.on_get]
  have hsame : (w.after (.lpsolve (.read p query))).native.lpsolve? p = w.native.lpsolve? p := rfl
  rw [hsame]
  cases w.native.lpsolve? p <;> rfl

end LpSolve

namespace Engine

variable {e : Engine} {w : World} {n : Nat} {q : Native.Problem}

/-! ## §3 The calls of operations -/

def nameCall (e : Engine) (j : Int) (name : String) : Native.Call :=
  match e.kind with
  | .glpk => .glpk (.setColumnName e.number j name)
  | .lpsolve => .lpsolve (.setColumnName e.number j name)

def kindCall (e : Engine) (j : Int) (kind : VariableKind) : Native.Call :=
  match e.kind with
  | .glpk => .glpk (.setColumnKind e.number j (Glpk.kindCode kind))
  | .lpsolve =>
    match kind with
    | .binary => .lpsolve (.setBinary e.number j 1)
    | .integer => .lpsolve (.setInteger e.number j 1)
    | .continuous => .lpsolve (.setInteger e.number j 0)

def boundsCall (e : Engine) (j : Int) (b : Bound) : Native.Call :=
  match e.kind with
  | .glpk => .glpk (.setColumnBounds e.number j (Glpk.boundCode b.kind) b.lower b.upper)
  | .lpsolve =>
    match b.kind with
    | .free => .lpsolve (.setUnbounded e.number j)
    | .upper => .lpsolve (.setBounds e.number j (-LpSolve.infinity) b.upper)
    | .lower => .lpsolve (.setBounds e.number j b.lower LpSolve.infinity)
    | .double | .fixed => .lpsolve (.setBounds e.number j b.lower b.upper)

def objectiveCall (e : Engine) (j : Int) (coefficient : Float) : Native.Call :=
  match e.kind with
  | .glpk => .glpk (.setObjective e.number j coefficient)
  | .lpsolve => .lpsolve (.setObjective e.number j coefficient)

def directionCall (e : Engine) (d : Direction) : Native.Call :=
  match e.kind with
  | .glpk => .glpk (.setDirection e.number (Glpk.directionCode d))
  | .lpsolve => .lpsolve (.setMaximize e.number (if d = .maximize then 1 else 0))

def columnCountCall (e : Engine) : Native.Call :=
  match e.kind with
  | .glpk => .glpk (.read e.number .columnCount)
  | .lpsolve => .lpsolve (.read e.number .columnCount)

def rowCountCall (e : Engine) : Native.Call :=
  match e.kind with
  | .glpk => .glpk (.read e.number .rowCount)
  | .lpsolve => .lpsolve (.read e.number .rowCount)

def newColumnsCalls (e : Engine) (count : Nat) : List Native.Call :=
  match e.kind with
  | .glpk => if count = 0 then [e.columnCountCall] else [.glpk (.addColumns e.number count)]
  | .lpsolve => e.columnCountCall :: List.replicate count (.lpsolve (.addColumn e.number))

/-- The calls that set up a column that was just added. -/
def setUpCalls (e : Engine) (j : Int) (name : String) (d : Model.VariableDraft) :
    List Native.Call :=
  [e.nameCall j name, e.kindCall j d.kind,
    e.boundsCall j (if d.kind = .binary then Bound.binary else d.bound), e.objectiveCall j d.coefficient]

/-- The calls that set up columns of one description, from column `j` on. -/
def setUpAllCalls (e : Engine) (d : Model.VariableDraft) : Int → List String → List Native.Call
  | _, [] => []
  | j, name :: rest => e.setUpCalls j name d ++ e.setUpAllCalls d (j + 1) rest

/-- The calls that add one bounded row to a problem of `rows` rows. -/
def rowCalls (e : Engine) (rows : Nat) (b : Bound) : List Native.Call :=
  match e.kind with
  | .glpk =>
    [.glpk (.addRows e.number 1),
      .glpk (.setRowBounds e.number (rows + 1) (Glpk.boundCode b.kind) b.lower b.upper)]
  | .lpsolve =>
    [e.rowCountCall, .lpsolve (.addRow e.number LpSolve.atLeast (-LpSolve.infinity))] ++
      match LpSolve.rowSide? b with
      | none => []
      | some (type, side) =>
        [.lpsolve (.setRowType e.number (rows + 1) type),
          .lpsolve (.setRowSide e.number (rows + 1) side)]

/-- The bounds of the rows that hold one constraint. -/
def rowBounds (kind : EngineKind) (b : Bound) : List Bound :=
  if kind = .lpsolve ∧ b.kind = .double then [⟨.upper, 0, b.upper⟩, ⟨.lower, b.lower, 0⟩]
  else if b.kind = .free ∧ !kind.storesFreeRows then []
  else [b]

/-- The numbers of `count` rows that follow `rows` rows. -/
def rowNumbers (rows count : Nat) : List Int := (List.range count).map fun i => Int.ofNat (rows + i + 1)

/-- The calls that add rows with these bounds to a problem of `rows` rows. -/
def rowsCalls (e : Engine) : Nat → List Bound → List Native.Call
  | _, [] => []
  | rows, b :: rest => e.rowCalls rows b ++ e.rowsCalls (rows + 1) rest

/-- The calls that hand a matrix over. -/
def loadCalls (e : Engine) (t : Triplets) : List Native.Call :=
  match e.kind with
  | .glpk => [.glpk (.loadMatrix e.number t)]
  | .lpsolve => t.toList.map fun x => .lpsolve (.setEntry e.number x.row x.column x.value)

/-- The handle for polls does not matter to the calls. -/
theorem setUpAllCalls_withAbort (e : Engine) (h : Option Handle) (d : Model.VariableDraft) (j : Int)
    (names : List String) : ({ e with abort := h } : Engine).setUpAllCalls d j names =
      e.setUpAllCalls d j names := by
  induction names generalizing j with
  | nil => rfl
  | cons name rest ih =>
    unfold setUpAllCalls
    rw [ih]
    rfl

/-- A handle for aborts has no part in how rows are added. -/
theorem rowsCalls_withAbort (e : Engine) (h : Option Handle) (rows : Nat) (bs : List Bound) :
    ({ e with abort := h } : Engine).rowsCalls rows bs = e.rowsCalls rows bs := by
  induction bs generalizing rows with
  | nil => rfl
  | cons b rest ih =>
    unfold rowsCalls
    rw [ih]
    rfl

/-! ## §4 All calls are about the problem -/

theorem isAbout_nameCall (e : Engine) (j : Int) (name : String) :
    (e.nameCall j name).IsAbout e.number := by
  unfold nameCall
  cases e.kind <;> exact ⟨rfl, rfl⟩

theorem isAbout_kindCall (e : Engine) (j : Int) (kind : VariableKind) :
    (e.kindCall j kind).IsAbout e.number := by
  unfold kindCall
  cases e.kind <;> cases kind <;> exact ⟨rfl, rfl⟩

theorem isAbout_boundsCall (e : Engine) (j : Int) (b : Bound) :
    (e.boundsCall j b).IsAbout e.number := by
  unfold boundsCall
  cases e.kind <;> cases b.kind <;> exact ⟨rfl, rfl⟩

theorem isAbout_objectiveCall (e : Engine) (j : Int) (coefficient : Float) :
    (e.objectiveCall j coefficient).IsAbout e.number := by
  unfold objectiveCall
  cases e.kind <;> exact ⟨rfl, rfl⟩

theorem isAbout_directionCall (e : Engine) (d : Direction) :
    (e.directionCall d).IsAbout e.number := by
  unfold directionCall
  cases e.kind <;> exact ⟨rfl, rfl⟩

theorem isAbout_columnCountCall (e : Engine) : e.columnCountCall.IsAbout e.number := by
  unfold columnCountCall
  cases e.kind <;> exact ⟨rfl, rfl⟩

theorem isAbout_rowCountCall (e : Engine) : e.rowCountCall.IsAbout e.number := by
  unfold rowCountCall
  cases e.kind <;> exact ⟨rfl, rfl⟩

/-- Adding columns is counting those that there are, or adding some. -/
theorem newColumnsCalls_cases {e : Engine} {count : Nat} {c : Native.Call} (hc : c ∈ e.newColumnsCalls count) :
    c = e.columnCountCall ∨ c = .glpk (.addColumns e.number count) ∨ c = .lpsolve (.addColumn e.number) := by
  unfold newColumnsCalls at hc
  cases hk : e.kind with
  | glpk =>
    rw [hk] at hc
    dsimp only at hc
    -- no columns: only the count is asked for
    split at hc
    · exact .inl (List.mem_singleton.mp hc)
    · exact .inr (.inl (List.mem_singleton.mp hc))
  | lpsolve =>
    rw [hk] at hc
    rcases List.mem_cons.mp hc with rfl | hc
    · exact .inl rfl
    · exact .inr (.inr (List.eq_of_mem_replicate hc))

theorem isAbout_newColumnsCalls (e : Engine) (count : Nat) :
    ∀ c ∈ e.newColumnsCalls count, c.IsAbout e.number := by
  intro c hc
  rcases newColumnsCalls_cases hc with rfl | rfl | rfl
  · exact isAbout_columnCountCall e
  · exact ⟨rfl, rfl⟩
  · exact ⟨rfl, rfl⟩

/-- Setting up columns concerns one problem. -/
theorem isAbout_setUpAllCalls (e : Engine) (d : Model.VariableDraft) (j : Int) (names : List String) :
    ∀ c ∈ e.setUpAllCalls d j names, c.IsAbout e.number := by
  induction names generalizing j with
  | nil => simp [setUpAllCalls]
  | cons name rest ih =>
    intro c hc
    -- a call for the first column, or for one of the rest
    rcases List.mem_append.mp hc with hc | hc
    · simp only [setUpCalls, List.mem_cons, List.not_mem_nil, or_false] at hc
      rcases hc with rfl | rfl | rfl | rfl
      · exact isAbout_nameCall e j name
      · exact isAbout_kindCall e j d.kind
      · exact isAbout_boundsCall e j _
      · exact isAbout_objectiveCall e j d.coefficient
    · exact ih (j + 1) c hc

/-- What a call that adds rows may be: it counts the rows, adds one, or bounds one. -/
inductive RowCall (e : Engine) : Native.Call → Prop
  | count : RowCall e e.rowCountCall
  | addedByGlpk : RowCall e (.glpk (.addRows e.number 1))
  | boundedByGlpk (i code : Int) (lower upper : Float) :
      RowCall e (.glpk (.setRowBounds e.number i code lower upper))
  | addedByLpSolve : RowCall e (.lpsolve (.addRow e.number LpSolve.atLeast (-LpSolve.infinity)))
  | typedByLpSolve (i type : Int) : RowCall e (.lpsolve (.setRowType e.number i type))
  | boundedByLpSolve (i : Int) (side : Float) : RowCall e (.lpsolve (.setRowSide e.number i side))

/-- The calls for one bound are row calls. -/
theorem rowCall_of_rowCalls {e : Engine} {rows : Nat} {b : Bound} {c : Native.Call} (hc : c ∈ e.rowCalls rows b) :
    e.RowCall c := by
  unfold rowCalls at hc
  cases hk : e.kind with
  | glpk =>
    simp only [hk, List.mem_cons, List.not_mem_nil, or_false] at hc
    rcases hc with rfl | rfl
    · exact .addedByGlpk
    · exact .boundedByGlpk ..
  | lpsolve =>
    simp only [hk, List.mem_append, List.mem_cons, List.not_mem_nil, or_false] at hc
    rcases hc with (rfl | rfl) | hc
    · exact .count
    · exact .addedByLpSolve
    · -- without a side the row is left as it was added
      cases hside : LpSolve.rowSide? b with
      | none => simp [hside] at hc
      | some side =>
        simp only [hside, List.mem_cons, List.not_mem_nil, or_false] at hc
        rcases hc with rfl | rfl
        · exact .typedByLpSolve ..
        · exact .boundedByLpSolve ..

/-- The calls for several bounds are row calls. -/
theorem rowCall_of_rowsCalls {e : Engine} {rows : Nat} {bs : List Bound} {c : Native.Call}
    (hc : c ∈ e.rowsCalls rows bs) : e.RowCall c := by
  induction bs generalizing rows with
  | nil => cases hc
  | cons b rest ih =>
    rcases List.mem_append.mp hc with hc | hc
    · exact rowCall_of_rowCalls hc
    · exact ih hc

theorem RowCall.isAbout {e : Engine} {c : Native.Call} (h : e.RowCall c) : c.IsAbout e.number := by
  cases h with
  | count => exact isAbout_rowCountCall e
  | _ => exact ⟨rfl, rfl⟩

theorem isAbout_rowCalls (e : Engine) (rows : Nat) (b : Bound) : ∀ c ∈ e.rowCalls rows b, c.IsAbout e.number :=
  fun _ hc => (rowCall_of_rowCalls hc).isAbout

theorem isAbout_rowsCalls (e : Engine) (rows : Nat) (bs : List Bound) :
    ∀ c ∈ e.rowsCalls rows bs, c.IsAbout e.number :=
  fun _ hc => (rowCall_of_rowsCalls hc).isAbout

/-- GLPK takes a matrix at once, lp_solve one entry after the other. -/
theorem loadCalls_cases {e : Engine} {t : Triplets} {c : Native.Call} (hc : c ∈ e.loadCalls t) :
    c = .glpk (.loadMatrix e.number t) ∨ ∃ i j x, c = .lpsolve (.setEntry e.number i j x) := by
  unfold loadCalls at hc
  cases hk : e.kind with
  | glpk =>
    rw [hk] at hc
    exact .inl (List.mem_singleton.mp hc)
  | lpsolve =>
    rw [hk] at hc
    obtain ⟨x, -, rfl⟩ := List.mem_map.mp hc
    exact .inr ⟨x.row, x.column, x.value, rfl⟩

theorem isAbout_loadCalls (e : Engine) (t : Triplets) : ∀ c ∈ e.loadCalls t, c.IsAbout e.number := by
  intro c hc
  rcases loadCalls_cases hc with rfl | ⟨i, j, x, rfl⟩ <;> exact ⟨rfl, rfl⟩

/-! ## §5 Running single operations -/

/-- A column can be named where the name is not too long for GLPK. -/
theorem on_setColumnName (h : w.Lenient) {name : String}
    (hname : e.kind = .glpk → Glpk.checkName name = .ok ()) (j : Int) :
    (e.setColumnName j name).on w = (.ok (), w.after (e.nameCall j name)) := by
  unfold setColumnName checkName nameCall
  cases hk : e.kind with
  | glpk =>
    have hname : Glpk.checkName name = .ok () := hname hk
    simp only [Action.on_bind, Action.on_lift, hname]
    exact Glpk.on_tell h.glpk
  -- lp_solve checks no names
  | lpsolve =>
    simp only [Action.on_bind, Action.on_pure]
    exact LpSolve.on_tell (h.lpsolve rfl)

theorem on_setColumnKind (h : w.Lenient) (j : Int) (kind : VariableKind) :
    (e.setColumnKind j kind).on w = (.ok (), w.after (e.kindCall j kind)) := by
  unfold setColumnKind kindCall
  cases e.kind with
  | glpk => exact Glpk.on_tell h.glpk
  | lpsolve => cases kind <;> exact LpSolve.on_tell (h.lpsolve rfl)

/-- The bounds of a column are set with one call, on both engines. -/
theorem on_setColumnBounds (h : w.Lenient) (j : Int) (b : Bound) :
    (e.setColumnBounds j b).on w = (.ok (), w.after (e.boundsCall j b)) := by
  unfold setColumnBounds boundsCall
  cases e.kind with
  | glpk => exact Glpk.on_tell h.glpk
  | lpsolve =>
    unfold LpSolve.setColumnBounds
    cases b.kind <;> exact LpSolve.on_tell (h.lpsolve rfl)

theorem on_setObjective (h : w.Lenient) (j : Int) (coefficient : Float) :
    (e.setObjective j coefficient).on w = (.ok (), w.after (e.objectiveCall j coefficient)) := by
  unfold setObjective objectiveCall
  cases e.kind with
  | glpk => exact Glpk.on_tell h.glpk
  | lpsolve => exact LpSolve.on_tell (h.lpsolve rfl)

theorem on_setDirection (h : w.Compliant) (d : Direction) :
    (e.setDirection d).on w = (.ok (), w.after (e.directionCall d)) := by
  unfold setDirection directionCall
  cases e.kind with
  | glpk => exact Glpk.on_tell (h.grants _)
  | lpsolve => exact LpSolve.on_tell (h.grants _)

theorem native_after_columnCountCall (e : Engine) (w : World) :
    (w.after e.columnCountCall).native = w.native := by
  unfold columnCountCall
  cases e.kind <;> rfl

/-- The columns are counted by the engine. -/
theorem on_columnCount (h : w.Grants e.columnCountCall.function) (ho : e.Owns w.native n q) :
    e.columnCount.on w = (.ok q.columnCount, w.after e.columnCountCall) := by
  unfold columnCount columnCountCall at *
  cases hk : e.kind with
  | glpk =>
    obtain ⟨q', rfl, hq'⟩ := ho.glpk? hk
    simp only [hk] at h
    rw [Glpk.columnCount, Glpk.on_ask h, ho.number, hq']
    rfl
  | lpsolve =>
    obtain ⟨q', rfl, hq'⟩ := ho.lpsolve? hk
    simp only [hk] at h
    rw [LpSolve.columnCount, LpSolve.on_ask h, ho.number, hq']
    rfl

theorem on_rowCount (h : w.Grants e.rowCountCall.function) (ho : e.Owns w.native n q) :
    e.rowCount.on w = (.ok q.rowCount, w.after e.rowCountCall) := by
  unfold rowCount rowCountCall at *
  cases hk : e.kind with
  | glpk =>
    obtain ⟨q', rfl, hq'⟩ := ho.glpk? hk
    simp only [hk] at h
    rw [Glpk.rowCount, Glpk.on_ask h, ho.number, hq']
    rfl
  | lpsolve =>
    obtain ⟨q', rfl, hq'⟩ := ho.lpsolve? hk
    simp only [hk] at h
    rw [LpSolve.rowCount, LpSolve.on_ask h, ho.number, hq']
    rfl

/-! ## §6 Adding columns and rows -/

theorem on_pushColumns (h : w.Compliant) (p count : Nat) :
    (LpSolve.pushColumns p count).on w =
      (.ok (), w.afterAll (List.replicate count (.lpsolve (.addColumn p)))) := by
  induction count generalizing w with
  | zero => rfl
  | succ count ih =>
    rw [LpSolve.pushColumns, Action.on_bind_of_ok (Action.on_call_of_compliant h)]
    exact ih (h.after _)

/-- **Columns are added behind those that there are**, and the first new one is answered. -/
theorem on_addColumns (h : w.Compliant) (ho : e.Owns w.native n q) (count : Nat) :
    (e.addColumns count).on w =
      (.ok (q.columnCount + 1 : Int), w.afterAll (e.newColumnsCalls count)) := by
  have hneg : ¬ (count : Int) < 0 := by omega
  have hread := on_columnCount (h.grants _) ho
  unfold addColumns newColumnsCalls
  rw [if_neg hneg]
  -- without columns to add, GLPK is only asked for their number; lp_solve is asked in any case
  cases hk : e.kind with
  | glpk =>
    obtain ⟨q', rfl, hq'⟩ := ho.glpk? hk
    unfold columnCount at hread
    simp only [hk, ho.number] at hread
    simp only [Int.toNat_natCast, ho.number]
    unfold Glpk.addColumns
    by_cases hc : count = 0
    · subst hc
      simp only [if_true]
      rw [Action.on_bind_of_ok hread]
      rfl
    · rw [if_neg hc, if_neg hc, Action.on_bind_of_ok (Action.on_get w),
        Action.on_bind_of_ok (Action.on_call_of_compliant h), hq']
      rfl
  | lpsolve =>
    unfold columnCount at hread
    simp only [hk, ho.number] at hread
    simp only [Int.toNat_natCast, ho.number]
    unfold LpSolve.addColumns
    rw [Action.on_bind_of_ok hread, Action.on_bind_of_ok (on_pushColumns (h.after _) n count)]
    rfl

/-- A row with a bound is added behind those that there are, unless it would need two rows on lp_solve. -/
theorem on_addBoundedRow (h : w.Compliant) (ho : e.Owns w.native n q) {b : Bound}
    (hb : e.kind = .lpsolve → b.kind ≠ .double) :
    (e.addBoundedRow b).on w =
      (.ok (q.rowCount + 1 : Int), w.afterAll (e.rowCalls q.rowCount b)) := by
  have hread := on_rowCount (h.grants _) ho
  unfold addBoundedRow addRows setRowBounds rowCalls
  rw [if_neg (by decide)]
  cases hk : e.kind with
  | glpk =>
    obtain ⟨q', rfl, hq'⟩ := ho.glpk? hk
    simp only [ho.number]
    unfold Glpk.addRows Glpk.setRowBounds
    rw [if_neg (by decide)]
    simp only [Action.on_bind, Action.on_get, Action.on_call_of_compliant h, if_true, hq',
      Action.on_pure]
    rw [Glpk.on_tell ((h.after _).grants _)]
    rfl
  | lpsolve =>
    -- a row of lp_solve has one side, and only a bound of two sides has none to take
    have hside : ∃ type side, LpSolve.rowSide? b = some (type, side) := by
      have hne := hb hk
      unfold LpSolve.rowSide?
      cases hbk : b.kind with
      | double => exact absurd hbk hne
      | _ => exact ⟨_, _, rfl⟩
    obtain ⟨type, side, hside⟩ := hside
    unfold rowCount at hread
    simp only [hk, ho.number] at hread
    simp only [ho.number]
    unfold LpSolve.addRows LpSolve.setRowBounds
    simp only [Action.on_bind, hread, Int.toNat_one, LpSolve.pushRows,
      Action.on_call_of_compliant (h.after _), if_true, Action.on_pure, hside]
    rw [LpSolve.on_tell (((h.after _).after _).grants _)]
    dsimp only
    rw [LpSolve.on_tell ((((h.after _).after _).after _).grants _)]
    rfl

/-- The row calls leave one row more. -/
theorem rowCount_applyAll_rowCalls (ho : e.Owns w.native n q) (rows : Nat) (b : Bound) :
    (q.applyAll (e.rowCalls rows b)).rowCount = q.rowCount + 1 := by
  unfold rowCalls
  cases hk : e.kind with
  | glpk =>
    obtain ⟨q', rfl, -⟩ := ho.glpk? hk
    -- the row that is bounded is the one just added, whatever its number
    have hi : 1 ≤ (rows : Int) + 1 := by omega
    simp [Native.Problem.apply, Glpk.Problem.apply, Glpk.Problem.modifyRow, hi,
      Native.Problem.rowCount]
  | lpsolve =>
    obtain ⟨q', rfl, -⟩ := ho.lpsolve? hk
    have hi : 1 ≤ (rows : Int) + 1 := by omega
    unfold rowCountCall
    cases LpSolve.rowSide? b with
    | none =>
      simp [hk, Native.Problem.apply, LpSolve.Problem.apply, Native.Problem.rowCount]
    | some side =>
      simp [hk, Native.Problem.apply, LpSolve.Problem.apply, LpSolve.Problem.modifyRow, hi,
        Native.Problem.rowCount]

/-- **A bound takes the rows that its engine needs for it**, and their numbers are answered. -/
theorem on_addRow (h : w.Compliant) (ho : e.Owns w.native n q) (b : Bound) :
    (e.addRow b).on w =
      (.ok (rowNumbers q.rowCount (rowBounds e.kind b).length),
        w.afterAll (e.rowsCalls q.rowCount (rowBounds e.kind b))) := by
  unfold addRow rowBounds
  by_cases hdouble : e.kind = .lpsolve ∧ b.kind = .double
  · rw [if_pos hdouble, if_pos hdouble]
    -- the second row is added to the problem that has the first one
    have hfirst := on_addBoundedRow h ho (b := ⟨.upper, 0, b.upper⟩) (by simp)
    have ho₁ := ho.applyAll (ho.number ▸ isAbout_rowCalls e q.rowCount ⟨.upper, 0, b.upper⟩)
    rw [← World.afterAll_native] at ho₁
    have hsecond := on_addBoundedRow (h.afterAll _) ho₁ (b := ⟨.lower, b.lower, 0⟩) (by simp)
    rw [rowCount_applyAll_rowCalls ho] at hsecond
    rw [Action.on_bind_of_ok hfirst, Action.on_bind_of_ok hsecond]
    simp [rowsCalls, rowNumbers, List.range_succ]
  · rw [if_neg hdouble, if_neg hdouble]
    by_cases hfree : b.kind = .free ∧ !e.kind.storesFreeRows
    · rw [if_pos hfree, if_pos hfree]
      rfl
    · have hone := on_addBoundedRow h ho (b := b) (fun hk hb => hdouble ⟨hk, hb⟩)
      rw [if_neg hfree, if_neg hfree, Action.on_bind_of_ok hone]
      simp [rowsCalls, rowNumbers]

theorem on_setEntries (h : w.Compliant) (p : Nat) (es : List Entry) :
    (LpSolve.setEntries p es).on w =
      (.ok (), w.afterAll (es.map fun x => .lpsolve (.setEntry p x.row x.column x.value))) := by
  induction es generalizing w with
  | nil => rfl
  | cons x rest ih =>
    rw [LpSolve.setEntries, Action.on_bind_of_ok (LpSolve.on_tell (h.grants _))]
    exact ih (h.after _)

/-- A matrix is loaded with the calls that the engine needs for it. -/
theorem on_loadMatrix (h : w.Compliant) (t : Triplets) :
    (e.loadMatrix t).on w = (.ok (), w.afterAll (e.loadCalls t)) := by
  unfold loadMatrix loadCalls
  cases e.kind with
  | glpk => exact Glpk.on_tell (h.grants _)
  | lpsolve => exact on_setEntries h _ _

end Engine

end LinearProgram
