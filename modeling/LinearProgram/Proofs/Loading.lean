import LinearProgram.Proofs.Representation
import LinearProgram.Proofs.Validity

/-!
# Handing the matrix over to lp_solve

lp_solve is handed the coefficients of a model at every solve, entry by entry, and what was set at an
earlier solve is never cleared. This module says why that does no harm: `Model.Filled` says that every
entry that the problem has is one that the next solve sets again. It rests on new coefficients going to new
rows, so that no sum of an earlier row changes any more.

The main statement is `World.load_replaces`: after the coefficients have been handed over, the matrix of the
problem is the coalesced matrix of the model, as if it had been empty before.
-/

namespace LinearProgram

/-! ## §1 Values at positions -/

namespace Entry

/-- The value of the entry at a position, zero where there is none. -/
def valueAt (es : List Entry) (i j : Int) : Float :=
  match es.find? (isAt i j) with
  | some e => e.value
  | none => 0

end Entry

/-- If the entries that were set are the coalesced ones, in any order and any number of times, they have the
same values. -/
theorem LpSolve.Problem.entry_eq_valueAt {q : LpSolve.Problem} {es : List Entry}
    (h : ∀ e, e ∈ q.entries.toList ↔ e ∈ Entry.coalesce es) (i j : Int) :
    q.entry i j = Entry.valueAt (Entry.coalesce es) i j := by
  have htotal {e : Entry} (hat : e.isAt i j = true) (he : e ∈ Entry.coalesce es) :
      e.value = Entry.total (Entry.cell es i j) := by
    obtain ⟨hrow, hcolumn⟩ := Entry.isAt_iff.mp hat
    rw [(Entry.mem_coalesce_iff.mp he).1, hrow, hcolumn]
  -- whichever of the entries at a position was set last, its value is the total of the cell
  unfold entry Entry.valueAt
  cases hset : q.entries.toList.reverse.find? fun e => e.row == i && e.column == j with
  | some e =>
    have hat : e.isAt i j = true := List.find?_some hset
    have he := (h e).mp (List.mem_reverse.mp (List.mem_of_find?_eq_some hset))
    cases hfound : (Entry.coalesce es).find? (Entry.isAt i j) with
    | some e' =>
      exact (htotal hat he).trans
        (htotal (List.find?_some hfound) (List.mem_of_find?_eq_some hfound)).symm
    | none => exact absurd hat (List.find?_eq_none.mp hfound e he)
  | none =>
    cases hfound : (Entry.coalesce es).find? (Entry.isAt i j) with
    | some e' =>
      have he' := List.mem_reverse.mpr ((h e').mpr (List.mem_of_find?_eq_some hfound))
      exact absurd (List.find?_some hfound) (List.find?_eq_none.mp hset e' he')
    | none => rfl

/-! ## §2 Calls that hand coefficients over -/

namespace Native

def Call.isLoad : Call → Bool
  | glpk (.loadMatrix ..) | lpsolve (.setEntry ..) => true
  | _ => false

theorem Call.isLoad_of_isAttribute {c : Call} (h : c.isAttribute = true) : c.isLoad = false := by
  rcases c with c | c <;> cases c <;> first | rfl | cases h

theorem Call.isLoad_of_isQuiet {c : Call} (h : c.isQuiet = true) : c.isLoad = false := by
  rcases c with c | c <;> cases c <;> first | rfl | cases h

namespace Problem

/-- The matrix entries that lp_solve has been told, in order. -/
def told : Problem → List Entry
  | lpsolve q => q.entries.toList
  | _ => []

@[simp] theorem told_core (q : Problem) : q.core.told = q.told := by cases q <;> rfl

/-- Only a call that loads a matrix changes which matrix a problem was told. -/
theorem told_apply {c : Call} (h : c.isLoad = false) (q : Problem) : (q.apply c).told = q.told := by
  rcases q with q | q | _ <;> rcases c with c | c <;> cases c <;>
    simp only [Call.isLoad, Bool.true_eq_false] at h <;>
    simp only [apply, LpSolve.Problem.apply, LpSolve.Problem.modifyColumn, LpSolve.Problem.modifyRow] <;>
    (try split) <;> rfl

theorem told_applyAll {cs : List Call} (h : ∀ c ∈ cs, c.isLoad = false) (q : Problem) :
    (q.applyAll cs).told = q.told := by
  induction cs generalizing q with
  | nil => rfl
  | cons c rest ih =>
    rw [applyAll_cons, ih fun d hd => h d (List.mem_cons_of_mem _ hd), told_apply (h c (List.mem_cons_self ..))]

/-- New columns have no coefficients. -/
theorem told_extended (d : Model.VariableDraft) (names : List String) (q : Problem) :
    (q.extended d names).told = q.told := by
  cases q <;> rfl

/-- New rows have no coefficients. -/
theorem told_lengthened (bs : List Bound) (q : Problem) : (q.lengthened bs).told = q.told := by
  cases q <;> rfl

/-- No call takes rows or columns away. -/
theorem counts_le_apply (c : Call) (q : Problem) :
    q.columnCount ≤ (q.apply c).columnCount ∧ q.rowCount ≤ (q.apply c).rowCount := by
  rcases q with q | q | _ <;> rcases c with c | c <;> cases c <;>
    simp only [apply, Glpk.Problem.apply, LpSolve.Problem.apply, Glpk.Problem.modifyColumn,
      Glpk.Problem.modifyRow, LpSolve.Problem.modifyColumn, LpSolve.Problem.modifyRow] <;>
    (try split) <;> simp [columnCount, rowCount]

/-- Calls do not take rows or columns away. -/
theorem counts_le_applyAll (cs : List Call) (q : Problem) :
    q.columnCount ≤ (q.applyAll cs).columnCount ∧ q.rowCount ≤ (q.applyAll cs).rowCount := by
  induction cs generalizing q with
  | nil => exact ⟨Nat.le_refl _, Nat.le_refl _⟩
  | cons c rest ih =>
    obtain ⟨hcolumns, hrows⟩ := counts_le_apply c q
    obtain ⟨hcolumns', hrows'⟩ := ih (q.apply c)
    exact ⟨hcolumns.trans hcolumns', hrows.trans hrows'⟩

end Problem

end Native

namespace Engine

variable {e : Engine} {q : Native.Problem}

/-- The entries that are handed over are added to those that lp_solve has been told before. -/
theorem told_loadCalls (hq : q.kind? = some e.kind) (t : Triplets) :
    (q.applyAll (e.loadCalls t)).told = if e.kind = .lpsolve then q.told ++ t.toList else [] := by
  cases hk : e.kind with
  -- GLPK replaces the matrix, so nothing has been told entry by entry
  | glpk =>
    obtain ⟨q, rfl⟩ := Native.Problem.eq_glpk_of_kind? (hq.trans (by rw [hk]))
    unfold loadCalls
    rw [hk]
    rfl
  | lpsolve =>
    obtain ⟨q, rfl⟩ := Native.Problem.eq_lpsolve_of_kind? (hq.trans (by rw [hk]))
    rw [applyAll_loadCalls_lpsolve hk]
    exact Array.toList_append

end Engine

/-! ## §3 Filled problems -/

/-- The coefficients of a model stand at rows and columns of its problem, and what the problem has been
told of them is what it will be told again. -/
structure Model.Filled (model : Model) (q : Native.Problem) : Prop where
  even : model.entries.Even
  rows : ∀ x ∈ model.entries.toList, 1 ≤ x.row ∧ x.row ≤ q.rowCount
  columns : ∀ x ∈ model.entries.toList, 1 ≤ x.column ∧ x.column ≤ q.columnCount
  told : ∀ x ∈ q.told, ∃ x' ∈ Entry.coalesce model.entries.toList, x'.wrapped = x

/-- The coefficients of new rows are behind the others, at the numbers of the rows and the columns of the
terms. -/
theorem Entries.toList_addRows {es : Entries} (h : es.Even) (terms : List (Int × Float)) (rows : List Int) :
    (rows.foldl (Model.addTerms terms) es).Even ∧ ∃ more,
      (rows.foldl (Model.addTerms terms) es).toList = es.toList ++ more ∧
      ∀ x ∈ more, x.row ∈ rows ∧ ∃ t ∈ terms, x.column = t.1 := by
  induction rows generalizing es with
  | nil => exact ⟨h, [], (List.append_nil _).symm, fun x hx => nomatch hx⟩
  | cons i rest ih =>
    obtain ⟨heven, more, hlist, hmore⟩ := ih (h.addTerms terms i)
    refine ⟨heven, (terms.map fun t => ⟨i, t.1, t.2⟩) ++ more, ?_, fun x hx => ?_⟩
    · rw [List.foldl_cons, hlist, toList_addTerms h, List.append_assoc]
    · -- an entry of the first row, or of one of the rest
      rcases List.mem_append.mp hx with hx | hx
      · obtain ⟨t, ht, rfl⟩ := List.mem_map.mp hx
        exact ⟨List.mem_cons_self .., t, ht, rfl⟩
      · obtain ⟨hrow, hterm⟩ := hmore x hx
        exact ⟨List.mem_cons_of_mem _ hrow, hterm⟩

namespace Model.Filled

variable {model model' : Model} {q : Native.Problem}

/-- A model without coefficients, with a problem that has been told none. -/
theorem of_empty (hmodel : model.entries = .empty) (hq : q.told = []) : model.Filled q := by
  have hnone : model.entries.toList = [] := by
    rw [hmodel]
    rfl
  refine ⟨?_, ?_, ?_, ?_⟩
  · rw [hmodel]
    exact ⟨rfl, rfl⟩
  · simp [hnone]
  · simp [hnone]
  · simp [hq]

/-- Calls that tell nothing but the coefficients of the model, while it keeps them. -/
theorem revise (h : model.Filled q) (hentries : model'.entries = model.entries) {cs : List Native.Call}
    (htold : ∀ x ∈ (q.applyAll cs).told, ∃ x' ∈ Entry.coalesce model.entries.toList, x'.wrapped = x) :
    model'.Filled (q.applyAll cs).core := by
  -- no call removes rows or columns, so what fitted before fits
  obtain ⟨hcolumns, hrows⟩ := Native.Problem.counts_le_applyAll cs q
  refine ⟨hentries ▸ h.even, ?_, ?_, ?_⟩
  · rw [hentries, Native.Problem.rowCount_core]
    intro x hx
    have hrow := h.rows x hx
    omega
  · rw [hentries, Native.Problem.columnCount_core]
    intro x hx
    have hcolumn := h.columns x hx
    omega
  · rw [hentries, Native.Problem.told_core]
    exact htold

theorem edit (h : model.Filled q) (hentries : model'.entries = model.entries) {cs : List Native.Call}
    (htold : (q.applyAll cs).told = q.told) : model'.Filled (q.applyAll cs).core :=
  h.revise hentries fun x hx => h.told x (htold ▸ hx)

/-- Loading the triplets of a model fills its problem. -/
theorem load (h : model.Filled q) (hq : q.kind? = some model.engine.kind) {t : Triplets}
    (ht : model.entries.triplets = .ok t) (hentries : model'.entries = model.entries) :
    model'.Filled (q.applyAll (model.engine.loadCalls t)).core := by
  refine h.revise hentries fun x hx => ?_
  -- what was told before is handed over again, and nothing else is
  rw [Engine.told_loadCalls hq] at hx
  split at hx
  · rcases List.mem_append.mp hx with hx | hx
    · exact h.told x hx
    · exact List.mem_map.mp (Entries.toList_triplets ht ▸ hx)
  · cases hx

/-- The coefficients of a further constraint go to new rows, so the entries that were told stay. -/
theorem constrain (h : model.Filled q) (hq : q.kind? = some model.engine.kind)
    {terms : List (Int × Float)} (hterms : ∀ t ∈ terms, 1 ≤ t.1 ∧ t.1 ≤ q.columnCount) (bs : List Bound) :
    (constrained terms (Engine.rowNumbers q.rowCount bs.length) model).Filled
      (q.applyAll (model.engine.rowsCalls q.rowCount bs)).core := by
  obtain ⟨heven, more, hlist, hmore⟩ :=
    Entries.toList_addRows h.even terms (Engine.rowNumbers q.rowCount bs.length)
  rw [Native.Problem.applyAll_rowsCalls hq]
  have htold := Native.Problem.told_lengthened bs q
  have hrowCount := Native.Problem.rowCount_lengthened hq bs
  have hcolumnCount := Native.Problem.columnCount_lengthened bs q
  have hnew : ∀ x ∈ more, (q.rowCount : Int) < x.row ∧ x.row ≤ (q.rowCount + bs.length : Nat) := by
    intro x hx
    obtain ⟨i, hi, hrow⟩ := List.mem_map.mp (hmore x hx).1
    have hlt := List.mem_range.mp hi
    rw [← hrow]
    simp only [Int.ofNat_eq_natCast]
    omega
  have hentries : (constrained terms (Engine.rowNumbers q.rowCount bs.length) model).entries.toList =
      model.entries.toList ++ more := hlist
  refine ⟨heven, ?_, ?_, ?_⟩
  · rw [hentries, Native.Problem.rowCount_core, hrowCount]
    intro x hx
    rcases List.mem_append.mp hx with hx | hx
    · have hrow := h.rows x hx
      omega
    · have hrow := hnew x hx
      omega
  · rw [hentries, Native.Problem.columnCount_core, hcolumnCount]
    intro x hx
    rcases List.mem_append.mp hx with hx | hx
    · exact h.columns x hx
    · obtain ⟨-, t, ht, hcolumn⟩ := hmore x hx
      rw [hcolumn]
      exact hterms t ht
  · rw [hentries, Native.Problem.told_core, htold]
    intro x hx
    obtain ⟨x', hx', rfl⟩ := h.told x hx
    refine ⟨x', Entry.mem_coalesce_append hx' (Entry.cell_eq_nil fun y hy hat => ?_), rfl⟩
    -- the cell of an entry that was told lies in an old row
    obtain ⟨z, hz, hrow, -⟩ := Entry.exists_isAt_of_mem_coalesce hx'
    have hold := (h.rows z hz).2
    have hfresh := (hnew y hy).1
    have hsame := (Entry.isAt_iff.mp hat).1
    omega

end Model.Filled

/-! ## §4 Sessions -/

namespace World

variable {w w' : World}

def Filled (w : World) : Prop := ∀ ⦃m model n q⦄, w.Holds m model n q → model.Filled q

/-- Editing one model keeps the problems of all models filled, if its own one stays so. -/
private theorem Filled.edits (hw : w.Filled) (hs : w.Sound) {m : ModelId} {model : Model} {n : Nat}
    {q : Native.Problem} {f : Model → Model} {cs : List Native.Call} (hh : w.Holds m model n q)
    (h : Edits w w' m f n cs) (hf : (f model).freed = model.freed)
    (he : (f model).engine = model.engine) (hfilled : (f model).Filled (q.applyAll cs).core) :
    w'.Filled := by
  intro m₁ model₁ n₁ q₁ hh₁
  rcases h.holds_cases hs hh hf he hh₁ with ⟨rfl, rfl, rfl, rfl⟩ | ⟨-, hold⟩
  · exact hfilled
  · -- another model, whose problem the calls do not touch
    exact hw hold

/-- Setting attributes hands no coefficients over. -/
private theorem Filled.tune (hw : w.Filled) (hs : w.Sound) {m : ModelId} {model : Model} {n : Nat}
    {q : Native.Problem} {f : Model → Model} {cs : List Native.Call} (hh : w.Holds m model n q)
    (h : Edits w w' m f n cs) (hf : model.Retyped (f model)) (hcs : ∀ c ∈ cs, c.isAttribute = true) :
    w'.Filled := by
  have htold := Native.Problem.told_applyAll (fun c hc => Native.Call.isLoad_of_isAttribute (hcs c hc)) q
  exact hw.edits hs hh h hf.freed hf.engine ((hw hh).edit hf.entries htold)

/-- The columns of the terms of a constraint are those of variables, which the problem has. -/
private theorem Covered.of_describes (hc : w.Covered) {m : ModelId} {model : Model} {n : Nat}
    {q : Native.Problem} (hh : w.Holds m model n q) {c : Constraint} {lower upper : Number}
    {arguments : List VariableArgument} {coefficients : List Number}
    (hdescribes : c.Describes m model.kinds.length lower upper arguments coefficients) :
    ∀ t ∈ c.terms, 1 ≤ t.1 ∧ t.1 ≤ q.columnCount := by
  intro t ht
  obtain ⟨vars, cs, -, -, -, hvars, hterms⟩ := hdescribes.terms
  rw [hterms] at ht
  obtain ⟨v, hv, hcolumn⟩ := List.mem_map.mp (List.of_mem_zip ht).1
  obtain ⟨-, hfirst, hlast⟩ := hvars v hv
  -- the model knows as many variables as its problem has columns
  have hcovered := hc hh
  rw [← hcolumn, Variable.column]
  omega

/-- **Each operation keeps problems filled**, however it ends. -/
theorem filled_of_performed (hw : w.Filled) (hc : w.Covered) (hs : w.Sound) {o : Operation}
    {a : Except Fault Answer} (h : Performed w o a w') : w'.Filled := by
  cases h with
  | refused h => exact fun _ _ _ _ hh => hw ((Undisturbed.of_idling h).holds_iff.mp hh)
  | asked h => exact fun _ _ _ _ hh => hw ((Undisturbed.of_idling h).holds_iff.mp hh)
  | elapsed => exact fun _ _ _ _ hh => hw ((holds_interlude _).mp hh)
  | configured h => exact fun _ _ _ _ hh => hw (h.holds_iff.mp hh)
  | @created name _ _ d kind n _ _ _ h₁ h₂ =>
    -- nothing has been told of the new problem, neither before nor while it is named
    have hmade : (Model.made kind n).Filled (Engine.fresh kind) := .of_empty rfl (by cases kind <;> rfl)
    have htold := Native.Problem.told_applyAll (fun c hc => Native.Call.isLoad_of_isAttribute
      (Engine.isAttribute_namingCalls ⟨kind, some n, none⟩ name d c hc)) (Engine.fresh kind)
    intro m₁ model₁ n₁ q₁ hh₁
    rcases h₁.holds_cases_of_edits hs rfl h₂ rfl rfl hh₁ with ⟨rfl, rfl, rfl⟩ | ⟨-, hold⟩
    · exact hmade.edit rfl htold
    · exact hw hold
  | undone h₁ h₂ => exact fun _ _ _ _ hh₁ => hw ((h₁.holds_iff_of_frees hs rfl h₂).mp hh₁)
  | cloned hh h =>
    intro m₁ model₁ n₁ q₁ hh₁
    rcases h.holds_cases hs hh₁ with ⟨rfl, rfl, rfl, rfl⟩ | ⟨-, hold⟩
    · have hfilled := hw hh
      exact ⟨hfilled.even, hfilled.rows, hfilled.columns, hfilled.told⟩
    · exact hw hold
  | freed hh h => exact fun _ _ _ _ hh₁ => hw ((h.holds_iff hs hh).mp hh₁).2
  | freedBefore => exact hw
  | grew ho hh hn h =>
    refine hw.edits hs hh h rfl rfl ((hw hh).edit ?_ ?_)
    · rfl
    · rw [Native.Problem.applyAll_newVariablesCalls hh.kind, Native.Problem.told_extended]
  | constrained hh hdescribes h =>
    exact hw.edits hs hh h rfl rfl ((hw hh).constrain hh.kind (hc.of_describes hh hdescribes) _)
  | kindSet hk hh hok h =>
    exact hw.tune hs hh h (Variable.retyped_withKind ..) (Engine.isAttribute_kindCalls _ _ _)
  | boundsSet hb hh hp hi hk h =>
    exact hw.tune hs hh h (.refl _) (List.forall_mem_singleton.mpr (Engine.isAttribute_boundsCall _ _ _))
  | boundsIgnored hb hh hp hi h => exact fun _ _ _ _ hh => hw ((Undisturbed.of_idling h).holds_iff.mp hh)
  | coefficientSet hx hh h =>
    exact hw.tune hs hh h (.refl _) (List.forall_mem_singleton.mpr (Engine.isAttribute_objectiveCall _ _ _))
  | objectiveSet hh hargs hv hc h => exact hw.tune hs hh h (.refl _) (Engine.isAttribute_objectiveCalls _ _)
  | directionSet hd hh h =>
    exact hw.tune hs hh h (.refl _) (List.forall_mem_singleton.mpr (Engine.isAttribute_directionCall _ _))
  | solved ho hh h =>
    rcases h with ⟨hran, -⟩ | ⟨t, touched, ht, hran⟩
    · exact hw.edits hs hh hran.edits rfl rfl ((hw hh).edit rfl rfl)
    · cases touched <;> exact hw.edits hs hh hran.edits rfl rfl ((hw hh).load hh.kind ht rfl)

theorem filled_initial : initial.Filled := by
  intro m model n q hh
  have hfound := hh.found
  simp [modelCore?, model?, initial] at hfound

/-- **In every session, models have filled their problems.** -/
theorem filled_nextAll (hw : w.Filled) (ha : w.Aligned) (hs : w.Sound) (os : List Operation) :
    (w.nextAll os).Filled := by
  induction os generalizing w with
  | nil => exact hw
  | cons o rest ih =>
    exact ih (filled_of_performed hw ha.covered hs (performed hs o)) (aligned_next ha hs o) (sound_next hs o)

end World

/-! ## §5 Solves -/

namespace World

/-- The operation hands nothing over and starts no solver. -/
def Skips (w : World) (o : Operation) : Prop :=
  ∀ c ∈ w.callsSince (w.next o), c.isLoad = false ∧ c.isEntry = false

/-- The operation makes the calls `load` before any solver is started, and hands nothing over besides; right
after these calls, problem `n` is `q'`. -/
def Loads (w : World) (o : Operation) (n : Nat) (load : List Native.Call) (q' : Native.Problem) : Prop :=
  ∃ before after, w.callsSince (w.next o) = before ++ (load ++ after) ∧
    (∀ c ∈ before, c.isLoad = false ∧ c.isEntry = false) ∧ (∀ c ∈ after, c.isLoad = false) ∧
    ((before ++ load).foldl Native.Store.apply w.native).problem? n = some q'

variable {w : World} {m : ModelId} {model : Model} {n : Nat} {q : Native.Problem}

/-- A solve of a freed model comes to nothing. -/
theorem Gone.skips (hg : w.Gone m) (hs : w.Sound) {o : Operation} (ho : o.SolvesModel m) : w.Skips o := by
  have hclosed : w.Closed m := fun _ => freed_of_not_open hg.not_open
  have hworks : o.WorksOn m := by
    cases o with
    | solve | solveWithContext => exact ho
    | _ => exact ho.elim
  -- the operation is refused before the engine is reached
  obtain ⟨fault, w', hon, hidle⟩ := Operation.needsOpen hworks w hs.compliant hclosed
  unfold Skips next
  rw [hon]
  exact fun c hc => ⟨Native.Call.isLoad_of_isQuiet (hidle.quiet c hc), hidle.idle c hc⟩

/-- A solve hands the coefficients over, to the problem as it was, or does not come to that. -/
theorem Holds.skips_or_loads (hs : w.Sound) (hh : w.Holds m model n q) {o : Operation}
    (ho : o.SolvesModel m) : w.Skips o ∨ ∃ t q', model.entries.triplets = .ok t ∧
      w.Loads o n (model.engine.loadCalls t) q' ∧ q'.core = (q.applyAll (model.engine.loadCalls t)).core := by
  have h := performed hs o
  unfold Skips Loads
  generalize w.next o = w' at h
  generalize (o.run.on w).1 = a at h
  cases h with
  | refused hidle =>
    exact Or.inl fun c hc => ⟨Native.Call.isLoad_of_isQuiet (hidle.quiet c hc), hidle.idle c hc⟩
  | grew hgrows =>
    cases o with
    | solve | solveWithContext => exact hgrows.elim
    | _ => exact ho.elim
  | @solved _ m' model' n' q' _ _ ho' hh' hsolves =>
    obtain rfl : m' = m := by
      cases o with
      | solve | solveWithContext => exact ho'.symm.trans ho
      | _ => exact ho.elim
    obtain ⟨rfl, rfl, rfl⟩ := hh.unique hh'
    rcases hsolves with ⟨hran, hno⟩ | ⟨t, touched, ht, hran⟩ <;>
      obtain ⟨before, after, hcalls, hbefore, hafter⟩ := hran.calls
    · refine Or.inl fun c hc => ⟨Native.Call.isLoad_of_isQuiet ?_, hno c hc⟩
      rcases List.mem_append.mp (hcalls ▸ hc) with hc | hc
      · exact (hbefore c hc).1
      · exact (hafter c hc).1
    · -- the calls before are quiet, so the core of the problem is what it was
      have habout : ∀ c ∈ model.engine.loadCalls t, c.IsAbout n := by
        have hnumber : model.engine.number = n := by simp [Engine.number, hh.number]
        exact hnumber ▸ Engine.isAbout_loadCalls model.engine t
      have hfirst := Native.Store.core?_applyAll_of_isQuiet (fun c hc => (hbefore c hc).1) w.native n
      obtain ⟨q₁, hq₁, hsame⟩ := Option.map_eq_some_iff.mp (hfirst.trans hh.problem)
      refine Or.inr ⟨t, q₁.applyAll (model.engine.loadCalls t), ht,
        ⟨before, after, hcalls, fun c hc => ?_, fun c hc => ?_, ?_⟩, ?_⟩
      · exact ⟨Native.Call.isLoad_of_isQuiet (hbefore c hc).1, (hbefore c hc).2⟩
      · exact Native.Call.isLoad_of_isQuiet (hafter c hc).1
      · rw [List.foldl_append, Native.Store.problem?_applyAll habout, if_pos rfl, hq₁, Option.map_some]
      · rw [Native.Problem.core_applyAll, hsame]
  | _ => exact ho.elim

end World

/-- Triplets are the coalesced entries themselves if 32 bits can tell their positions. -/
theorem Entries.toList_triplets_of_wrapped {es : Entries} {t : Triplets}
    (hself : ∀ x ∈ Entry.coalesce es.toList, x.wrapped = x) (ht : es.triplets = .ok t) :
    t.toList = Entry.coalesce es.toList := by
  rw [toList_triplets ht, List.map_congr_left hself, List.map_id']

/-- When a filled problem of lp_solve has been handed the coefficients, it has the rows and columns that it
had, and its entries are the coalesced ones, provided that 32 bits can tell their positions. -/
theorem Model.Filled.entry_load {model : Model} {q q' : Native.Problem} (h : model.Filled q)
    (hkind : model.engine.kind = .lpsolve) (hq : q.kind? = some model.engine.kind)
    (hself : ∀ x ∈ Entry.coalesce model.entries.toList, x.wrapped = x) {t : Triplets}
    (ht : model.entries.triplets = .ok t) (hq' : q'.core = (q.applyAll (model.engine.loadCalls t)).core) :
    ∃ q₁, q' = .lpsolve q₁ ∧ q₁.rows.size = q.rowCount ∧ q₁.columns.size = q.columnCount ∧
      ∀ i j, q₁.entry i j = Entry.valueAt (Entry.coalesce model.entries.toList) i j := by
  obtain ⟨q₁, rfl⟩ : ∃ q₁, q' = .lpsolve q₁ := by
    refine Native.Problem.eq_lpsolve_of_kind? ?_
    rw [← Native.Problem.kind?_core, hq', Native.Problem.kind?_core, Native.Problem.kind?_applyAll, hq, hkind]
  have hcounts := Native.Problem.counts_applyAll (Engine.isShaping_loadCalls model.engine t) q
  have htold : q₁.entries.toList = q.told ++ t.toList := by
    have hsame := congrArg Native.Problem.told hq'
    rwa [Native.Problem.told_core, Native.Problem.told_core, Engine.told_loadCalls hq, if_pos hkind] at hsame
  have hload := Entries.toList_triplets_of_wrapped hself ht
  refine ⟨q₁, rfl, ?_, ?_, LpSolve.Problem.entry_eq_valueAt fun x => ?_⟩
  · have hsame := congrArg Native.Problem.rowCount hq'
    rwa [Native.Problem.rowCount_core, Native.Problem.rowCount_core, hcounts.2] at hsame
  · have hsame := congrArg Native.Problem.columnCount hq'
    rwa [Native.Problem.columnCount_core, Native.Problem.columnCount_core, hcounts.1] at hsame
  · rw [htold, hload, List.mem_append]
    -- what the problem was told at earlier solves is among what it is told now
    refine ⟨fun hx => hx.elim (fun hx => ?_) id, Or.inr⟩
    obtain ⟨x', hx', rfl⟩ := h.told x hx
    rwa [hself x' hx']

/-- In a problem whose rows and columns 32 bits can tell, they can tell the positions of the coefficients. -/
theorem Model.Filled.wrapped_eq_self {model : Model} {q : Native.Problem} (h : model.Filled q)
    (hrows : q.rowCount < 2147483648) (hcolumns : q.columnCount < 2147483648) :
    ∀ x ∈ Entry.coalesce model.entries.toList, x.wrapped = x := by
  intro x hx
  obtain ⟨x', hx', hrow, hcolumn⟩ := Entry.exists_isAt_of_mem_coalesce hx
  have hrow' := h.rows x' hx'
  have hcolumn' := h.columns x' hx'
  -- positions lie between 0 and 2^31, where wrapping changes nothing
  obtain ⟨i, hi⟩ := Int.eq_ofNat_of_zero_le (show 0 ≤ x.row by omega)
  obtain ⟨j, hj⟩ := Int.eq_ofNat_of_zero_le (show 0 ≤ x.column by omega)
  unfold Entry.wrapped
  rw [hi, hj, Entry.wrap32_of_lt (by omega), Entry.wrap32_of_lt (by omega), ← hi, ← hj]

namespace World

/-- **Setting entries replaces the matrix.** Take any session, and then a solve of an open model on lp_solve,
which has no more rows and columns than the library can count. Either the solve hands nothing over and starts
no solver; or it hands the coalesced coefficients over first, and then each entry of the problem is the
coalesced one of its position, and zero where there is none, just as if the problem had been emptied before.
Whatever happens afterwards, as long as no constraint is added to the model, a solve that hands anything
over makes the same calls for it, after which the entries are the same. -/
theorem load_replaces (os : List Operation) {m : ModelId} {o : Operation} (ho : o.SolvesModel m)
    {model : Model} {n : Nat} {q : LpSolve.Problem}
    (hm : (initial.nextAll os).model? m = some model) (hf : model.freed = false)
    (hn : model.engine.problem = some n)
    (hq : (initial.nextAll os).native.problem? n = some (.lpsolve q))
    (hrows : q.rows.size < 2147483648) (hcolumns : q.columns.size < 2147483648) :
    let w := initial.nextAll os
    w.Skips o ∨ ∃ t q₁ q₂, model.entries.triplets = .ok t ∧
      w.Loads o n (model.engine.loadCalls t) (.lpsolve q₁) ∧
      q₁.rows.size = q.rows.size ∧ q₁.columns.size = q.columns.size ∧
      (∀ i j, q₁.entry i j = Entry.valueAt (Entry.coalesce model.entries.toList) i j) ∧
      (Native.Problem.lpsolve { q with entries := #[] }).applyAll (model.engine.loadCalls t) = .lpsolve q₂ ∧
      (∀ i j, q₁.entry i j = q₂.entry i j) ∧
      ∀ later, (∀ o' ∈ later, ¬ o'.Constrains m) → ∀ o', o'.SolvesModel m →
        let w' := (w.next o).nextAll later
        w'.Skips o' ∨ ∃ q₃, w'.Loads o' n (model.engine.loadCalls t) (.lpsolve q₃) ∧
          ∀ i j, q₃.entry i j = q₁.entry i j := by
  intro w
  have hs : w.Sound := sound_nextAll sound_initial os
  have ha : w.Aligned := aligned_nextAll aligned_initial sound_initial os
  have hw : w.Filled := filled_nextAll filled_initial aligned_initial sound_initial os
  obtain ⟨n', q', hh, howns⟩ := hs.holds_of_model? hm hf
  obtain rfl : n' = n := Option.some.inj (hh.number.symm.trans hn)
  obtain rfl : q' = .lpsolve q := Option.some.inj (howns.found.symm.trans hq)
  have hkind : model.engine.kind = .lpsolve := (Option.some.inj howns.kind).symm
  have hself := (hw hh).wrapped_eq_self hrows hcolumns
  rcases hh.skips_or_loads hs ho with hskips | ⟨t, q', ht, hloads, hq'⟩
  · exact Or.inl hskips
  obtain ⟨q₁, rfl, hrows₁, hcolumns₁, hentry⟩ := (hw hh).entry_load hkind hh.kind hself ht hq'
  refine Or.inr ⟨t, q₁, _, ht, hloads, hrows₁, hcolumns₁, hentry,
    Engine.applyAll_loadCalls_lpsolve hkind _ t, fun i j => ?_, fun later hlater o' ho' => ?_⟩
  · -- an emptied problem has nothing but what it is told now
    rw [hentry, LpSolve.Problem.entry_eq_valueAt fun x => ?_]
    simp [Entries.toList_triplets_of_wrapped hself ht]
  · have hfree : ∀ o₁ ∈ o :: later, ¬ o₁.Constrains m := by
      refine List.forall_mem_cons.mpr ⟨fun hc => ?_, hlater⟩
      cases o with
      | addConstraint => exact ho
      | _ => exact hc
    have hs' : (w.nextAll (o :: later)).Sound := sound_nextAll hs _
    rcases remains_nextAll hs hh (o :: later) with hgone | ⟨model', q', hh', hremains⟩
    · exact Or.inl (hgone.skips hs' ho')
    have hengine := hremains.engine
    have hentries := hremains.entries fun ⟨o₁, ho₁, hconstrains⟩ => hfree o₁ ho₁ hconstrains
    rcases hh'.skips_or_loads hs' ho' with hskips | ⟨t', q', ht', hloads', hcore⟩
    · exact Or.inl hskips
    -- the coefficients are the same, and so are their triplets
    obtain rfl : t' = t := Except.ok.inj (ht'.symm.trans ((congrArg Entries.triplets hentries).trans ht))
    have hself' : ∀ x ∈ Entry.coalesce model'.entries.toList, x.wrapped = x := hentries ▸ hself
    obtain ⟨q₃, rfl, -, -, hentry₃⟩ := (filled_nextAll hw ha hs _ hh').entry_load
      ((congrArg Engine.kind hengine).trans hkind) hh'.kind hself' ht' hcore
    rw [hengine] at hloads'
    refine Or.inr ⟨q₃, hloads', fun i j => ?_⟩
    rw [hentry₃, hentry, hentries]

/-- The clone of a solved model starts from entries that were set before, and a column that it gets stays
empty, at its first solve and at the next one. -/
theorem load_of_clone :
    let os : List Operation := [.create "" (.text "minimize") [.engine (.named (.text "lpsolve"))],
      .addVariables 0 2 "" (.text "continuous") (.int 1) (.int 0) (.int 9),
      .addConstraint 0 (.float Double.negInfinity) (.int 5) [.variable ⟨0, 1⟩] [.int 2], .solve 0 none,
      .clone 0, .addVariable 1 "" (.text "integer") (.int 1) (.int 0) (.int 9)]
    let w := initial.nextAll os
    let w' := (w.next (.solve 1 none)).nextAll [.setDirection 1 (.text "maximize")]
    ∃ load q₁ q₃, w.Loads (.solve 1 none) 2 load (.lpsolve q₁) ∧
      [q₁.entry 1 1, q₁.entry 1 2, q₁.entry 1 3] = [0, 2, 0] ∧
      w'.Loads (.solve 1 none) 2 load (.lpsolve q₃) ∧ ∀ i j, q₃.entry i j = q₁.entry i j := by
  intro os w w'
  obtain ⟨model, hm⟩ := Option.isSome_iff_exists.mp (by decide +kernel : (w.model? 1).isSome = true)
  have hmodel {α : Type} (f : Model → α) {x : α} (h : (w.model? 1).map f = some x) : f model = x := by
    rw [hm] at h
    exact Option.some.inj h
  obtain ⟨p, hp⟩ := Option.isSome_iff_exists.mp
    (by decide +kernel : (w.native.problem? 2).isSome = true)
  have hproblem {α : Type} (f : Native.Problem → α) {x : α} (h : (w.native.problem? 2).map f = some x) :
      f p = x := by
    rw [hp] at h
    exact Option.some.inj h
  obtain ⟨q, rfl⟩ := Native.Problem.eq_lpsolve_of_kind? (hproblem (·.kind?) (by decide +kernel))
  have hrows : q.rows.size = 1 := hproblem (·.rowCount) (by decide +kernel)
  have hcolumns : q.columns.size = 3 := hproblem (·.columnCount) (by decide +kernel)
  have hstarts {w : World} (h : (w.callsSince (w.next (.solve 1 none))).any (·.isEntry) = true) :
      ¬ w.Skips (.solve 1 none) := by
    intro hskips
    obtain ⟨c, hc, hentry⟩ := List.any_eq_true.mp h
    exact Bool.noConfusion ((hskips c hc).2.symm.trans hentry)
  -- the first solve of the clone
  rcases load_replaces os (o := .solve 1 none) rfl hm (hmodel (·.freed) (by decide +kernel))
    (hmodel (·.engine.problem) (by decide +kernel)) hp (by omega) (by omega) with
    hskips | ⟨t, q₁, q₂, -, hloads, -, -, hentry, -, -, hlater⟩
  · exact absurd hskips (hstarts (by decide +kernel))
  -- and a second one after a change that adds no row
  rcases hlater [.setDirection 1 (.text "maximize")] (by simp [Operation.Constrains]) (.solve 1 none) rfl with
    hskips | ⟨q₃, hloads₃, hsame⟩
  · exact absurd hskips (hstarts (by decide +kernel))
  refine ⟨_, q₁, q₃, hloads, ?_, hloads₃, hsame⟩
  rw [hentry, hentry, hentry]
  exact hmodel (fun model => [1, 2, 3].map (Entry.valueAt (Entry.coalesce model.entries.toList) 1))
    (by decide +kernel)

end World

end LinearProgram
