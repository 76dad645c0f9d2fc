import LinearProgram.Proofs.Evolution
import LinearProgram.Proofs.Representation

/-!
# Which rows a constraint has

A constraint is given by a call, and stored as rows of a problem: always one on GLPK, and on lp_solve one for
each side, unless the sides are equal. `Condition.block` says this of the bounds that a caller gives. The
model counts constraints, the problem counts rows, and the coefficients are kept by row numbers, so all three
have to be in step: `Model.InBlocks`.

`World.conditions` is the history that the rows are compared with: the conditions that were given to each
model, as the calls have them. `Model.Keeps` relates a model and its problem to such a history, and every
operation keeps it, whatever callers do with variables that were never handed out. From this follows, for
every session, that the rows of a problem are the blocks of its conditions, one behind the other, and that
nothing enters a block afterwards: `World.constraints_own_rows`.
-/

namespace LinearProgram

/-! ## §1 Blocks -/

namespace Program

/-- The bounds of the rows that hold a condition. On lp_solve, each side is a row, the upper one first;
equal sides are one row, and infinite ones are none. -/
def Condition.block (c : Condition) : EngineKind → List Bound
  | .glpk => [c.bound]
  | .lpsolve =>
    if c.lower.isInf then
      if c.upper.isInf then [] else [⟨.upper, 0, c.upper⟩]
    else if c.upper.isInf then [⟨.lower, c.lower, 0⟩]
    else if c.lower == c.upper then [⟨.fixed, c.lower, c.upper⟩]
    else [⟨.upper, 0, c.upper⟩, ⟨.lower, c.lower, 0⟩]

/-- Both sides of the condition are finite, and they are different. -/
def Condition.twoSided (c : Condition) : Bool := !c.lower.isInf && !c.upper.isInf && !(c.lower == c.upper)

variable {c : Condition} {kind : EngineKind}

/-- The bounds of the rows that an engine makes for a condition are those of its block. -/
theorem Condition.rowBounds_eq_block (h : Bound.encode c.lower c.upper = .ok c.bound) (kind : EngineKind) :
    Engine.rowBounds kind c.bound = c.block kind := by
  cases kind with
  | glpk => simp [Engine.rowBounds, Condition.block, EngineKind.storesFreeRows]
  -- the encoding leaves out a bound kind, and the block a row, in the same cases
  | lpsolve =>
    unfold Bound.encode at h
    unfold Condition.block
    split_ifs at h ⊢ <;>
    · rw [← Except.ok.inj h]
      rfl

/-- How many rows a condition has: on lp_solve, one more if it is two-sided than if it is not. -/
theorem Condition.length_block (c : Condition) (kind : EngineKind) : (c.block kind).length =
    (if (c.block kind).isEmpty then 0 else 1) + if kind = .lpsolve ∧ c.twoSided = true then 1 else 0 := by
  cases kind with
  | glpk => rfl
  | lpsolve =>
    unfold Condition.block Condition.twoSided
    split_ifs <;> simp_all

/-- The rows of valid conditions are their blocks. -/
theorem rows_eq_blocks {cs : List Condition} (h : ∀ c ∈ cs, Bound.encode c.lower c.upper = .ok c.bound)
    (kind : EngineKind) : rows kind cs = cs.flatMap fun c => (c.block kind).map fun b => (b, c.terms) := by
  unfold rows
  rw [List.flatMap_def, List.flatMap_def, List.map_congr_left fun c hc => ?_]
  rw [Condition.rowBounds_eq_block (h c hc)]

theorem map_fst_rows {cs : List Condition} (h : ∀ c ∈ cs, Bound.encode c.lower c.upper = .ok c.bound)
    (kind : EngineKind) : (rows kind cs).map (·.1) = cs.flatMap (·.block kind) := by
  simp [rows_eq_blocks h, List.map_flatMap, Function.comp_def]

/-- The conditions that have rows are as many as the rows, apart from the second rows of those that are
two-sided on lp_solve. -/
theorem length_blocks (cs : List Condition) (kind : EngineKind) : (cs.flatMap (·.block kind)).length =
    cs.countP (fun c => !(c.block kind).isEmpty) +
      match kind with
      | .glpk => 0
      | .lpsolve => cs.countP (·.twoSided) := by
  induction cs with
  | nil => cases kind <;> rfl
  | cons c rest ih =>
    have hfirst := c.length_block kind
    rw [List.flatMap_cons, List.length_append, ih, hfirst, List.countP_cons]
    -- only on lp_solve a condition may have a second row
    cases kind with
    | glpk =>
      simp [Condition.block, Nat.add_comm]
    | lpsolve =>
      rw [List.countP_cons]
      cases (c.block .lpsolve).isEmpty <;> cases c.twoSided <;> simp <;> omega

end Program

/-! ## §2 Rows of a problem -/

namespace Native.Problem

variable {q : Native.Problem} {bs : List Bound}

/-- The rows of the problem are the stored forms of bounds. -/
def HasRows (bs : List Bound) : Problem → Prop
  | .glpk q => q.rows.toList = bs.map Glpk.rowOf
  | .lpsolve q => q.rows.toList = bs.map LpSolve.rowOf
  | .deleted => False

theorem hasRows_core : q.core.HasRows bs ↔ q.HasRows bs := by cases q <;> exact Iff.rfl

theorem HasRows.rowCount (h : q.HasRows bs) : q.rowCount = bs.length := by
  cases q with
  | glpk q => simpa [Problem.rowCount] using congrArg List.length h
  | lpsolve q => simpa [Problem.rowCount] using congrArg List.length h
  | deleted => exact h.elim

/-- Calls that do not concern rows leave the rows of a problem as they are. -/
theorem HasRows.apply (h : q.HasRows bs) {c : Call} (hc : c.isRow = false) : (q.apply c).HasRows bs := by
  rcases q with q | q | _ <;> rcases c with c | c <;> cases c <;>
    simp only [Call.isRow, Bool.true_eq_false] at hc <;>
    simp only [Problem.apply, Glpk.Problem.apply, LpSolve.Problem.apply, Glpk.Problem.modifyColumn,
      LpSolve.Problem.modifyColumn] <;>
    (try split) <;> exact h

/-- Calls that do not concern rows leave them alone. -/
theorem HasRows.applyAll (h : q.HasRows bs) {cs : List Call} (hcs : ∀ c ∈ cs, c.isRow = false) :
    (q.applyAll cs).HasRows bs := by
  induction cs generalizing q with
  | nil => exact h
  | cons c rest ih =>
    exact ih (h.apply (hcs c (List.mem_cons_self ..))) fun c hc => hcs c (List.mem_cons_of_mem _ hc)

/-- Rows are added behind those that there are. -/
theorem HasRows.rowsCalls (h : q.HasRows bs) {e : Engine} (hq : q.kind? = some e.kind) (more : List Bound) :
    (q.applyAll (e.rowsCalls q.rowCount more)).HasRows (bs ++ more) := by
  rw [Problem.applyAll_rowsCalls hq]
  cases q with
  | glpk q =>
    have hrows : q.rows.toList = bs.map Glpk.rowOf := h
    simp [Problem.lengthened, HasRows, hrows]
  | lpsolve q =>
    have hrows : q.rows.toList = bs.map LpSolve.rowOf := h
    simp [Problem.lengthened, HasRows, hrows]
  | deleted => cases hq

end Native.Problem

/-- New columns do not concern rows. -/
theorem Model.isRow_newVariablesCalls (e : Engine) (d : VariableDraft) (columns : Nat) (names : List String) :
    ∀ c ∈ newVariablesCalls e d columns names, c.isRow = false := by
  have hread : e.columnCountCall.isRow = false := by
    unfold Engine.columnCountCall
    cases e.kind <;> rfl
  have hsetUp (j : Int) (names : List String) : ∀ c ∈ e.setUpAllCalls d j names, c.isRow = false := by
    intro c hc
    rcases e.setUpAllCalls_cases d j names hc with ⟨k, name, rfl⟩ | hc
    · unfold Engine.nameCall
      cases e.kind <;> rfl
    · exact (Native.Call.adjusts_of_isAttribute hc).2
  -- the columns are counted, then made, then set up
  intro c hc
  rcases List.mem_cons.mp hc with rfl | hc
  · exact hread
  rcases List.mem_append.mp hc with hc | hc
  · rcases Engine.newColumnsCalls_cases hc with rfl | rfl | rfl
    · exact hread
    · rfl
    · rfl
  · exact hsetUp _ names c hc

/-! ## §3 Conditions through a session -/

/-- The conditions that were given to each model, in order. -/
abbrev Conditions := ModelId → List Program.Condition

namespace Conditions

/-- The conditions after an event. A clone starts with those of its model, and what fails gives none. -/
def after (cs : Conditions) (e : Event) : Conditions :=
  match e.operation, e.answer with
  | .create .., .ok (.model m) => Function.update cs m []
  | .clone source, .ok (.model m) => Function.update cs m (cs source)
  | .addConstraint m l u arguments coefficients, .ok _ =>
    Function.update cs m (cs m ++ (Program.Condition.read l u arguments coefficients).toOption.toList)
  | _, _ => cs

variable {cs : Conditions} {w w' : World} {o : Operation} {a : Except Fault Answer} {m : ModelId}

/-- An operation that gives no constraint to a model leaves its conditions alone. -/
theorem after_of_spares (h : Performed w o a w') (hm : m < w.models.size) (ho : o.Spares m a)
    (calls : List Native.Call) : cs.after ⟨o, a, calls⟩ m = cs m := by
  have hnew : m ≠ w.models.size := Nat.ne_of_lt hm
  cases o with
  | create =>
    cases h with
    | refused | undone => rfl
    | created => exact Function.update_of_ne hnew ..
    | grew hgrows => exact hgrows.elim
    | solved hsolves => exact hsolves.elim
  | clone =>
    cases h with
    | refused => rfl
    | cloned => exact Function.update_of_ne hnew ..
    | grew hgrows => exact hgrows.elim
    | solved hsolves => exact hsolves.elim
  | addConstraint m' =>
    by_cases hm' : m' = m
    · obtain ⟨fault, rfl⟩ := ho hm'
      rfl
    · cases a with
      | error => rfl
      | ok => exact Function.update_of_ne (Ne.symm hm') ..
  -- only making, copying and constraining a model revise conditions
  | _ => rfl

/-- An operation only ever adds conditions. -/
theorem after_append (cs : Conditions) (h : Performed w o a w') (hm : m < w.models.size)
    (calls : List Native.Call) :
    ∃ more, cs.after ⟨o, a, calls⟩ m = cs m ++ more ∧ (¬ o.Constrains m → more = []) := by
  -- an operation that raises, or works elsewhere, adds no condition
  by_cases ho : o.Spares m a
  · exact ⟨[], by rw [after_of_spares h hm ho, List.append_nil], fun _ => rfl⟩
  obtain ⟨hconstrains, ha⟩ := Classical.not_imp.mp ho
  cases a with
  | error fault => exact absurd ⟨fault, rfl⟩ ha
  | ok answer =>
    cases o with
    | addConstraint m' =>
      obtain rfl : m' = m := hconstrains
      exact ⟨_, Function.update_self .., fun hnot => absurd rfl hnot⟩
    | _ => exact hconstrains.elim

end Conditions

/-! ## §4 What is kept -/

/-- The model and its problem keep conditions: their rows in order, the terms at the numbers of these rows,
and how many have rows at all. -/
structure Model.Keeps (model : Model) (q : Native.Problem) (cs : List Program.Condition) : Prop where
  valid : ∀ c ∈ cs, Bound.encode c.lower c.upper = .ok c.bound
  rows : q.HasRows ((Program.rows model.engine.kind cs).map (·.1))
  even : model.entries.Even
  entries : model.entries.toList = Program.entries model.engine.kind cs
  constraintCount : model.constraintCount =
    cs.countP fun c => !(Engine.rowBounds model.engine.kind c.bound).isEmpty

namespace Model.Keeps

variable {model model' : Model} {q : Native.Problem} {cs : List Program.Condition}

/-- Only the rows of the problem count, and of the model the kind of its engine, its coefficients and how
many constraints it has. -/
theorem edit (h : model.Keeps q cs) {q' : Native.Problem} (hengine : model'.engine.kind = model.engine.kind)
    (hentries : model'.entries = model.entries) (hcount : model'.constraintCount = model.constraintCount)
    (hrows : ∀ {bs}, q.HasRows bs → q'.HasRows bs) : model'.Keeps q' cs where
  valid := h.valid
  rows := hengine ▸ hrows h.rows
  even := hentries ▸ h.even
  entries := by rw [hentries, hengine, h.entries]
  constraintCount := by rw [hcount, hengine, h.constraintCount]

/-- A model without rows keeps no conditions. -/
theorem made (kind : EngineKind) (n : Nat) {calls : List Native.Call} (hcalls : ∀ c ∈ calls, c.Adjusts) :
    (Model.made kind n).Keeps ((Engine.fresh kind).applyAll calls).core [] where
  valid := nofun
  rows := by
    refine Native.Problem.hasRows_core.mpr (Native.Problem.HasRows.applyAll ?_ fun c hc => (hcalls c hc).2)
    cases kind <;> rfl
  even := ⟨rfl, rfl⟩
  entries := rfl
  constraintCount := rfl

/-- A further condition gets rows of its own. -/
theorem constrain (h : model.Keeps q cs) (hq : q.kind? = some model.engine.kind) {c : Program.Condition}
    (hvalid : Bound.encode c.lower c.upper = .ok c.bound) :
    let bounds := Engine.rowBounds model.engine.kind c.bound
    (constrained (c.terms.map fun t => ((t.1 : Int) + 1, t.2))
        (Engine.rowNumbers q.rowCount bounds.length) model).Keeps
      (q.applyAll (model.engine.rowsCalls q.rowCount bounds)).core (cs ++ [c]) := by
  intro bounds
  have hnew : Program.rows model.engine.kind [c] = bounds.map fun b => (b, c.terms) := List.append_nil _
  obtain ⟨heven, hlist⟩ := Entries.toList_addTerms_rows h.even q.rowCount bounds c.terms
  refine ⟨fun c' hc' => ?_, Native.Problem.hasRows_core.mpr ?_, heven, ?_, ?_⟩
  · rcases List.mem_append.mp hc' with hc' | hc'
    · exact h.valid c' hc'
    · exact List.mem_singleton.mp hc' ▸ hvalid
  · show Native.Problem.HasRows ((Program.rows model.engine.kind (cs ++ [c])).map (·.1)) _
    rw [Program.rows_append, List.map_append, hnew, List.map_map]
    exact (List.map_id' bounds).symm ▸ h.rows.rowsCalls hq bounds
  · refine hlist.trans ?_
    rw [h.entries, h.rows.rowCount, List.length_map, ← hnew, ← Program.entries_append]
    rfl
  · -- a constraint without a row is not counted
    have hcount : (constrained (c.terms.map fun t => ((t.1 : Int) + 1, t.2))
        (Engine.rowNumbers q.rowCount bounds.length) model).constraintCount =
          if bounds.isEmpty then model.constraintCount else model.constraintCount + 1 := by
      simp [constrained, Engine.rowNumbers]
    show _ = (cs ++ [c]).countP fun c => !(Engine.rowBounds model.engine.kind c.bound).isEmpty
    rw [hcount, h.constraintCount, List.countP_append, List.countP_singleton]
    show _ = _ + if (!bounds.isEmpty) = true then 1 else 0
    cases bounds.isEmpty <;> rfl

end Model.Keeps

namespace Conditions

variable {cs : Conditions} {w w' : World} {m : ModelId} {model : Model} {n : Nat} {q : Native.Problem}

/-- Every model that holds a problem keeps its conditions. -/
def Kept (cs : Conditions) (w : World) : Prop := ∀ ⦃m model n q⦄, w.Holds m model n q → model.Keeps q (cs m)

/-- **One operation.** If the conditions are kept, they are so after it, with the one that it gives. -/
theorem kept_of_performed (h : cs.Kept w) (hs : w.Sound) {o : Operation} {a : Except Fault Answer}
    (hp : Performed w o a w') (calls : List Native.Call) : (cs.after ⟨o, a, calls⟩).Kept w' := by
  -- a model after the operation is followed back to what it was before
  intro m₁ model₁ n₁ q₁ hh₁
  cases World.evolves_of_performed hs hp hh₁ with
  | kept hh ho =>
    rw [after_of_spares hp hh.lt_size ho]
    exact h hh
  | adjusted hh ho hm hcs =>
    rw [after_of_spares hp hh.lt_size ho]
    exact (h hh).edit (congrArg Engine.kind hm.engine) hm.entries hm.constraintCount fun hrows =>
      Native.Problem.hasRows_core.mpr (hrows.applyAll fun c hc => (hcs c hc).2)
  | @grew _ _ _ _ _ _ d names hh ho =>
    rw [after_of_spares hp hh.lt_size ho]
    exact (h hh).edit rfl rfl rfl fun hrows =>
      Native.Problem.hasRows_core.mpr (hrows.applyAll (Model.isRow_newVariablesCalls _ d _ names))
  | @constrained m lower upper arguments coefficients model n q c hh hc =>
    obtain ⟨condition, hread, hbound, hvalid, hterms, -⟩ := Program.Condition.read_of_describes hc
    have hgiven : cs.after ⟨.addConstraint m₁ lower upper arguments coefficients, .ok .done, calls⟩ m₁ =
        cs m₁ ++ [condition] := by
      show Function.update cs m₁ _ m₁ = _
      rw [Function.update_self, hread]
      rfl
    have hafter := (h hh).constrain hh.kind hvalid
    rw [hbound, ← hterms] at hafter
    rw [hgiven]
    exact hafter
  | made hcs =>
    have hgiven : ∀ {name direction options}, cs.after ⟨.create name direction options,
        .ok (.model w.models.size), calls⟩ w.models.size = [] := Function.update_self ..
    rw [hgiven]
    exact Model.Keeps.made _ _ hcs
  | @copied m model n q hh =>
    have hgiven : cs.after ⟨.clone m, .ok (.model w.models.size), calls⟩ w.models.size = cs m :=
      Function.update_self ..
    rw [hgiven]
    exact (h hh).edit rfl rfl rfl id

theorem kept_initial (cs : Conditions) : cs.Kept World.initial := by
  intro m model n q hh
  have hfound := hh.found
  simp [World.modelCore?, World.model?, World.initial] at hfound

/-- **Every session.** -/
theorem kept_nextAll (h : cs.Kept w) (hs : w.Sound) (os : List Operation) :
    ((w.events os).foldl after cs).Kept (w.nextAll os) := by
  induction os generalizing w cs with
  | nil => exact h
  | cons o rest ih => exact ih (kept_of_performed h hs (performed hs o) _) (World.sound_next hs o)

end Conditions

/-! ## §5 Constraints own their rows -/

/-- The rows of the problem are the blocks of conditions, one behind the other. Each row of a block has the
coefficients of its condition, and the model counts the blocks that have rows. -/
structure Model.InBlocks (model : Model) (q : Native.Problem) (cs : List Program.Condition) : Prop where
  rows : q.HasRows (cs.flatMap (·.block model.engine.kind))
  cells : ∀ before c behind, cs = before ++ c :: behind → ∀ i j : Nat, i < (c.block model.engine.kind).length →
    let row : Int := (before.flatMap (·.block model.engine.kind)).length + i + 1
    Entry.cell model.entries.toList row (j + 1) = Program.coefficientsAt c.terms j ∧
      Entry.cell (Entry.coalesce model.entries.toList) row (j + 1) =
        [Entry.total (Program.coefficientsAt c.terms j)].filter fun v => !(v == 0)
  inside : ∀ x ∈ model.entries.toList, (1 ≤ x.row ∧ x.row ≤ q.rowCount) ∧ 1 ≤ x.column
  constraintCount : model.constraintCount = cs.countP fun c => !(c.block model.engine.kind).isEmpty
  rowCount : q.rowCount = model.constraintCount +
    match model.engine.kind with
    | .glpk => 0
    | .lpsolve => cs.countP (·.twoSided)

/-- The rows of the problem are still the first ones, with the coefficients that they had. -/
structure Model.KeepsRows (model : Model) (q : Native.Problem) (model' : Model) (q' : Native.Problem) :
    Prop where
  rows : ∃ bs more, q.HasRows bs ∧ q'.HasRows (bs ++ more)
  cells : ∀ i j : Int, i ≤ q.rowCount → Entry.cell model'.entries.toList i j = Entry.cell model.entries.toList i j

namespace Model.Keeps

variable {model model' : Model} {q q' : Native.Problem} {cs more : List Program.Condition}

theorem rowCount (h : model.Keeps q cs) : q.rowCount = (Program.rows model.engine.kind cs).length := by
  rw [h.rows.rowCount, List.length_map]

/-- A row of a block is one of all rows, behind those of the blocks before. -/
private theorem getElem?_rows {kind : EngineKind} {before behind : List Program.Condition} {c : Program.Condition}
    {i : Nat} (h : ∀ c' ∈ before ++ c :: behind, Bound.encode c'.lower c'.upper = .ok c'.bound)
    (hi : i < (c.block kind).length) :
    (Program.rows kind (before ++ c :: behind))[(before.flatMap (·.block kind)).length + i]? =
      some ((c.block kind)[i], c.terms) := by
  -- the rows of the conditions before are as many as their blocks hold
  have hbefore : (Program.rows kind before).length = (before.flatMap (·.block kind)).length := by
    rw [← Program.map_fst_rows fun c' hc' => h c' (List.mem_append_left _ hc'), List.length_map]
  have hblock : Program.rows kind (c :: behind) =
      (c.block kind).map (fun b => (b, c.terms)) ++ Program.rows kind behind := by
    rw [← Program.Condition.rowBounds_eq_block (h c (by simp))]
    rfl
  rw [Program.rows_append, List.getElem?_append_right (by omega), hbefore, Nat.add_sub_cancel_left, hblock,
    List.getElem?_append_left (by simpa using hi)]
  simp [hi]

/-- **What keeps conditions stands in blocks.** -/
theorem inBlocks (h : model.Keeps q cs) : model.InBlocks q cs := by
  have hcount : model.constraintCount = cs.countP fun c => !(c.block model.engine.kind).isEmpty := by
    rw [h.constraintCount]
    refine List.countP_congr fun c hc => ?_
    rw [Program.Condition.rowBounds_eq_block (h.valid c hc)]
  refine ⟨Program.map_fst_rows h.valid _ ▸ h.rows, ?_, fun x hx => ?_, hcount, ?_⟩
  · rintro before c behind rfl i j hi row
    have hcell := Program.cell_entriesFrom 0 (Program.rows model.engine.kind (before ++ c :: behind))
      ((before.flatMap (·.block model.engine.kind)).length + i) j
    rw [getElem?_rows h.valid hi] at hcell
    have hrow : ((0 : Nat) : Int) + (((before.flatMap (·.block model.engine.kind)).length + i : Nat) : Int) + 1 =
        row := by
      simp only [row]
      omega
    -- rows are counted from zero here and from one in the entries
    rw [hrow] at hcell
    have hplain : Entry.cell model.entries.toList row (j + 1) = Program.coefficientsAt c.terms j := by
      rw [h.entries]
      exact hcell
    exact ⟨hplain, by rw [Entry.cell_coalesce, hplain]⟩
  · rw [h.entries] at hx
    obtain ⟨i, hi, hrow, -, -, t, -, hcolumn⟩ := Program.mem_entriesFrom hx
    rw [h.rowCount]
    omega
  · rw [h.rowCount, ← List.length_map (f := Prod.fst), Program.map_fst_rows h.valid, hcount]
    exact Program.length_blocks cs _

/-- Further conditions leave the rows of earlier ones alone. -/
theorem keepsRows (h : model.Keeps q cs) (h' : model'.Keeps q' (cs ++ more))
    (hkind : model'.engine.kind = model.engine.kind) : model.KeepsRows q model' q' where
  rows := by
    refine ⟨_, (Program.rows model.engine.kind more).map (·.1), h.rows, ?_⟩
    rw [← List.map_append, ← Program.rows_append, ← hkind]
    exact h'.rows
  cells i j hi := by
    rw [h'.entries, h.entries, hkind, Program.entries_append, Entry.cell_append]
    refine List.append_right_eq_self.mpr (Entry.cell_eq_nil fun x hx hat => ?_)
    -- the entries of further conditions stand behind the rows that there were
    obtain ⟨i', -, hrow, -⟩ := Program.mem_entriesFrom hx
    have hsame := (Entry.isAt_iff.mp hat).1
    rw [h.rowCount] at hi
    omega

end Model.Keeps

namespace World

/-- The conditions that were given to each model by operations from the start. -/
def conditions (os : List Operation) : Conditions := (initial.events os).foldl Conditions.after fun _ => []

variable {os : List Operation} {m : ModelId} {model : Model} {n : Nat} {q : Native.Problem}

/-- The conditions after one more operation follow from those before it and from how it ended. -/
theorem conditions_append (os : List Operation) (o : Operation) :
    conditions (os ++ [o]) = (conditions os).after ((initial.nextAll os).event o) := by
  unfold conditions
  rw [events_append, List.foldl_append]
  rfl

/-- An open model keeps its conditions. -/
theorem keeps_of_open (hm : (initial.nextAll os).model? m = some model) (hf : model.freed = false)
    (hn : model.engine.problem = some n) (hq : (initial.nextAll os).native.problem? n = some q) :
    (initial.nextAll os).Holds m model.core n q.core ∧ model.Keeps q (conditions os m) := by
  have hs : (initial.nextAll os).Sound := sound_nextAll sound_initial os
  obtain ⟨n', q', hh, howns⟩ := hs.holds_of_model? hm hf
  obtain rfl : n' = n := Option.some.inj (hh.number.symm.trans hn)
  obtain rfl : q' = q := Option.some.inj (howns.found.symm.trans hq)
  -- the invariant of the whole run, at the model asked for
  have hkept : model.core.Keeps q'.core (conditions os m) :=
    Conditions.kept_nextAll (Conditions.kept_initial _) sound_initial os hh
  exact ⟨hh, hkept.edit rfl rfl rfl fun hrows => Native.Problem.hasRows_core.mp hrows⟩

/-- A model that was there gets conditions only behind those that it has. -/
theorem conditions_prefix (hh : (initial.nextAll os).Holds m model n q) (later : List Operation) :
    ∃ more, conditions (os ++ later) m = conditions os m ++ more ∧
      ((∀ o ∈ later, ¬ o.Constrains m) → more = []) := by
  have hs : (initial.nextAll os).Sound := sound_nextAll sound_initial os
  induction later using List.reverseRecOn with
  | nil => exact ⟨[], by simp, fun _ => rfl⟩
  | append_singleton later o ih =>
    obtain ⟨more, hmore, hnone⟩ := ih
    have hs' : (initial.nextAll (os ++ later)).Sound := sound_nextAll sound_initial _
    -- the model is still there, open or freed, so no later one has its number
    have hthere : m < (initial.nextAll (os ++ later)).models.size := by
      rw [nextAll_append]
      rcases remains_nextAll hs hh later with hgone | ⟨_, _, hh', -⟩
      · exact hgone.lt_size
      · exact hh'.lt_size
    obtain ⟨last, hlast, hspares⟩ := Conditions.after_append (conditions (os ++ later)) (performed hs' o) hthere
      ((initial.nextAll (os ++ later)).event o).calls
    refine ⟨more ++ last, ?_, fun hall => ?_⟩
    · rw [← List.append_assoc, conditions_append, ← List.append_assoc, ← hmore]
      exact hlast
    · rw [hnone fun o' ho' => hall o' (List.mem_append_left _ ho'),
        hspares (hall o (List.mem_append_right _ (List.mem_singleton_self o)))]
      rfl

/-- A constraint that is added is a condition as the caller gave it, and one that is not added is none. -/
theorem conditions_addConstraint (os : List Operation) (m : ModelId) (l u : Number)
    (arguments : List VariableArgument) (coefficients : List Number) :
    let o : Operation := .addConstraint m l u arguments coefficients
    (∀ fault, (o.run.on (initial.nextAll os)).1 = .error fault → conditions (os ++ [o]) m = conditions os m) ∧
      ∀ a, (o.run.on (initial.nextAll os)).1 = .ok a → ∃ c,
        Program.Condition.read l u arguments coefficients = .ok c ∧
          conditions (os ++ [o]) m = conditions os m ++ [c] := by
  dsimp only
  have hperformed := performed (sound_nextAll sound_initial os) (.addConstraint m l u arguments coefficients)
  have hafter := conditions_append os (.addConstraint m l u arguments coefficients)
  unfold event at hafter
  generalize ((Operation.addConstraint m l u arguments coefficients).run.on (initial.nextAll os)).1 = answer
    at hperformed hafter ⊢
  -- only an answer revises the conditions, so the two cases are those of the answer
  refine ⟨?_, fun a ha => ?_⟩
  · rintro fault rfl
    rw [hafter]
    rfl
  · cases hperformed with
    | refused => cases ha
    | grew hgrows => exact hgrows.elim
    | solved hsolves => exact hsolves.elim
    | constrained hh hc =>
      obtain ⟨c, hread, -⟩ := Program.Condition.read_of_describes hc
      refine ⟨c, hread, ?_⟩
      rw [hafter]
      show Function.update (conditions os) m _ m = _
      rw [Function.update_self, hread]
      rfl

/-- **Constraints own their rows.** In every session, the rows of an open model's problem are the blocks of
the conditions that were given to it, in the order of the calls; each row of a block has the coefficients of
that call, added up for each variable, and no other coefficients are recorded. A call that fails gives no
condition. Whatever comes later, further conditions come behind those that there are, and only through such
calls, and the rows that there are stay with what they have. -/
theorem constraints_own_rows (os : List Operation) (hm : (initial.nextAll os).model? m = some model)
    (hf : model.freed = false) (hn : model.engine.problem = some n)
    (hq : (initial.nextAll os).native.problem? n = some q) :
    model.InBlocks q (conditions os m) ∧
    (∀ (l u : Number) (arguments : List VariableArgument) (coefficients : List Number),
      let o : Operation := .addConstraint m l u arguments coefficients
      (∀ fault, (o.run.on (initial.nextAll os)).1 = .error fault → conditions (os ++ [o]) m = conditions os m) ∧
        ∀ a, (o.run.on (initial.nextAll os)).1 = .ok a → ∃ c,
          Program.Condition.read l u arguments coefficients = .ok c ∧
            conditions (os ++ [o]) m = conditions os m ++ [c]) ∧
    ∀ later model' q', (initial.nextAll (os ++ later)).model? m = some model' → model'.freed = false →
      (initial.nextAll (os ++ later)).native.problem? n = some q' →
      ∃ more, conditions (os ++ later) m = conditions os m ++ more ∧
        ((∀ o ∈ later, ¬ o.Constrains m) → more = []) ∧ model.KeepsRows q model' q' := by
  obtain ⟨hh, hkeeps⟩ := keeps_of_open hm hf hn hq
  refine ⟨hkeeps.inBlocks, conditions_addConstraint os m, fun later model' q' hm' hf' hq' => ?_⟩
  obtain ⟨more, hmore, hnone⟩ := conditions_prefix hh later
  -- the model is still the same, as an open model is never replaced
  have hengine : model'.core.engine = model.core.engine := by
    have hlater := hm'
    rw [nextAll_append] at hlater
    rcases remains_nextAll (sound_nextAll sound_initial os) hh later with hgone | ⟨model'', q'', hh', hremains⟩
    · exact absurd ⟨model', hlater, hf'⟩ hgone.not_open
    · rw [← Option.some.inj (hh'.found.symm.trans (modelCore?_of_model? hlater))]
      exact hremains.engine
  have hn' : model'.engine.problem = some n := (congrArg Engine.problem hengine).trans hn
  obtain ⟨-, hkeeps'⟩ := keeps_of_open hm' hf' hn' hq'
  have hkind : model'.engine.kind = model.engine.kind := by
    show model'.core.engine.kind = model.core.engine.kind
    rw [hengine]
  rw [hmore] at hkeeps'
  exact ⟨more, hmore, hnone, hkeeps.keepsRows hkeeps' hkind⟩

/-- A two-sided constraint has two rows of lp_solve, an unbounded one none, and a variable that is listed
twice the sum of its coefficients. A variable and a constraint that are added later leave these rows alone. -/
theorem rows_of_mixed_constraints :
    let os : List Operation := [.create "" (.text "minimize") [.engine (.named (.text "lpsolve"))],
      .addVariables 0 2 "" (.text "continuous") (.int 1) (.int 0) (.int 9),
      .addConstraint 0 (.int 1) (.int 4) [.variable ⟨0, 0⟩, .variable ⟨0, 1⟩] [.int 2, .int 3],
      .addConstraint 0 (.float Double.negInfinity) (.float Double.infinity) [.variable ⟨0, 0⟩] [.int 1],
      .addConstraint 0 (.float Double.negInfinity) (.int 5) [.variable ⟨0, 1⟩, .variable ⟨0, 1⟩] [.int 2, .int 4]]
    let later : List Operation := [.addVariable 0 "y" (.text "integer") (.int 1) (.int 0) (.int 9),
      .addConstraint 0 (.int 7) (.int 7) [.variable ⟨0, 2⟩] [.int 1]]
    ∃ (model model' : Model) (q q' : Native.Problem), (initial.nextAll os).model? 0 = some model ∧
      (initial.nextAll os).native.problem? 1 = some q ∧
      q.HasRows [⟨.upper, 0, 4⟩, ⟨.lower, 1, 0⟩, ⟨.upper, 0, 5⟩] ∧ model.constraintCount = 2 ∧ q.rowCount = 3 ∧
      Entry.cell (Entry.coalesce model.entries.toList) 3 2 = [6] ∧
      (initial.nextAll (os ++ later)).model? 0 = some model' ∧
      (initial.nextAll (os ++ later)).native.problem? 1 = some q' ∧ model.KeepsRows q model' q' := by
  intro os later
  obtain ⟨model, hm⟩ := Option.isSome_iff_exists.mp
    (by decide +kernel : ((initial.nextAll os).model? 0).isSome = true)
  have hmodel {α : Type} (f : Model → α) {x : α} (h : ((initial.nextAll os).model? 0).map f = some x) :
      f model = x := by
    rw [hm] at h
    exact Option.some.inj h
  obtain ⟨model', hm'⟩ := Option.isSome_iff_exists.mp
    (by decide +kernel : ((initial.nextAll (os ++ later)).model? 0).isSome = true)
  have hf' : model'.freed = false := by
    have hfreed : ((initial.nextAll (os ++ later)).model? 0).map (·.freed) = some false := by decide +kernel
    rw [hm'] at hfreed
    exact Option.some.inj hfreed
  obtain ⟨q, hq⟩ := Option.isSome_iff_exists.mp
    (by decide +kernel : ((initial.nextAll os).native.problem? 1).isSome = true)
  obtain ⟨q', hq'⟩ := Option.isSome_iff_exists.mp
    (by decide +kernel : ((initial.nextAll (os ++ later)).native.problem? 1).isSome = true)
  have hkind : model.engine.kind = .lpsolve := hmodel (·.engine.kind) (by decide +kernel)
  obtain ⟨hblocks, -, hlater⟩ := constraints_own_rows os hm (hmodel (·.freed) (by decide +kernel))
    (hmodel (·.engine.problem) (by decide +kernel)) hq
  obtain ⟨-, -, -, hkeeps⟩ := hlater later model' q' hm' hf' hq'
  -- the three conditions that the calls gave, the last one split off
  have hgiven : conditions os 0 = [⟨1, 4, [(0, 2), (1, 3)]⟩,
      ⟨Double.negInfinity, Double.infinity, [(0, 1)]⟩] ++ ⟨Double.negInfinity, 5, [(1, 2), (1, 4)]⟩ :: [] := by
    decide +kernel
  have hrows := hblocks.rows
  have hcell := (hblocks.cells _ _ _ hgiven 0 1 (by rw [hkind]; decide +kernel)).2
  have hcount := hblocks.constraintCount
  have hrowCount := hblocks.rowCount
  rw [hgiven, hkind] at hrows hcount hrowCount
  rw [hkind] at hcell
  have htwo : model.constraintCount = 2 := hcount.trans (by decide +kernel)
  refine ⟨model, model', q, q', hm, hq, ?_, htwo, ?_, ?_, hm', hq', hkeeps⟩
  · convert hrows using 1
    decide +kernel
  · rw [hrowCount, htwo]
    decide +kernel
  · refine Eq.trans ?_ (hcell.trans ?_)
    · congr 1
    · decide +kernel

end World

end LinearProgram
