import LinearProgram.Proofs.Shape
import LinearProgram.Proofs.Stored

/-!
# Models that represent a program

`Represents` ties a model and its problem to the program that the caller has described: the problem stores
the program, the model knows the kinds of its columns, and the coefficients that the model has collected
are the terms of all conditions, at the rows that the conditions have.

Every operation keeps this, for all models at once, while `Programs.after` follows the programs. So at
every point of a session each open model represents the program that the session has built for it.
-/

namespace LinearProgram

/-! ## §1 Reading arguments -/

namespace Program

/-- All bounds are numbers, and all terms are about columns of the program. -/
structure Valid (p : Program) : Prop where
  columns : ∀ c ∈ p.columns, Bound.encode c.lower c.upper = .ok c.bound
  conditions : ∀ c ∈ p.conditions, Bound.encode c.lower c.upper = .ok c.bound
  terms : ∀ c ∈ p.conditions, ∀ t ∈ c.terms, t.1 < p.columns.length

theorem valid_fresh (d : Direction) : (fresh d).Valid := ⟨by simp [fresh], by simp [fresh], by simp [fresh]⟩

private theorem encode_binary : Bound.encode 0 1 = .ok Bound.binary :=
  World.eq_ok_of_toOption (by decide +kernel)

/-- Bounds that have a stored form are doubles that have it. -/
theorem encodeNumbers_eq_ok {lower upper : Number} {b : Bound}
    (h : Bound.encodeNumbers lower upper = .ok b) :
    ∃ l u, lower.toDouble = .ok l ∧ upper.toDouble = .ok u ∧ Bound.encode l u = .ok b := by
  unfold Bound.encodeNumbers at h
  cases hl : lower.toDouble with
  | error fault =>
    rw [hl] at h
    cases h
  | ok l =>
    cases hu : upper.toDouble with
    | error fault =>
      rw [hl, hu] at h
      cases h
    | ok u =>
      rw [hl, hu] at h
      exact ⟨l, u, rfl, rfl, h⟩

/-- A column whose bounds can be encoded has bounds that can be encoded under any kind. -/
theorem Column.withKind_valid {c : Column} (h : Bound.encode c.lower c.upper = .ok c.bound)
    (kind : VariableKind) :
    Bound.encode (c.withKind kind).lower (c.withKind kind).upper = .ok (c.withKind kind).bound := by
  unfold withKind Column.bound
  -- a binary column has bounds of its own, any other keeps those it had
  by_cases hk : kind = .binary
  · rw [if_pos hk]
    exact encode_binary.trans (congrArg Except.ok (boundOf_eq encode_binary).symm)
  · rw [if_neg hk]
    exact h

theorem Column.withCoefficient_kind (x : Float) (c : Column) : (c.withCoefficient x).kind = c.kind := rfl

theorem Column.withBounds_kind (l u : Float) (c : Column) : (c.withBounds l u).kind = c.kind := by
  unfold withBounds
  split <;> rfl

/-- With bounds that can be encoded, a column has such bounds, whether or not it takes them. -/
theorem Column.withBounds_valid {c : Column} (h : Bound.encode c.lower c.upper = .ok c.bound)
    {l u : Float} {b : Bound} (hb : Bound.encode l u = .ok b) :
    Bound.encode (c.withBounds l u).lower (c.withBounds l u).upper = .ok (c.withBounds l u).bound := by
  unfold withBounds Column.bound
  -- bounds given to a binary column are ignored
  by_cases hk : c.kind = .binary
  · rw [if_pos hk]
    exact h
  · rw [if_neg hk]
    exact hb.trans (congrArg Except.ok (boundOf_eq hb).symm)

/-- What the description of a new variable says is the column that the caller describes. -/
theorem Column.read_of_draft {kind : Datum} {coefficient lower upper : Number} {d : Model.VariableDraft}
    (h : Model.VariableDraft.read kind coefficient lower upper = .ok d) :
    ∃ c, Column.read kind coefficient lower upper = .ok c ∧ c.kind = d.kind ∧
      c.bound = (if d.kind = .binary then Bound.binary else d.bound) ∧ c.coefficient = d.coefficient ∧
      Bound.encode c.lower c.upper = .ok c.bound := by
  unfold Model.VariableDraft.read at h
  cases hkind : (Choice.read kind : Except Fault VariableKind) with
  | error fault =>
    rw [hkind] at h
    cases h
  | ok k =>
  cases hbound : Bound.encodeNumbers lower upper with
  | error fault =>
    rw [hkind, hbound] at h
    cases h
  | ok b =>
  cases hx : coefficient.toDouble with
  | error fault =>
    rw [hkind, hbound, hx] at h
    cases h
  | ok x =>
  rw [hkind, hbound, hx] at h
  cases h
  obtain ⟨l, u, hl, hu, hencode⟩ := encodeNumbers_eq_ok hbound
  -- the column is continuous first, and takes its kind with what that sets
  let plain : Column := ⟨.continuous, l, u, x⟩
  have hplain : plain.bound = b := boundOf_eq hencode
  have hvalid : Bound.encode plain.lower plain.upper = .ok plain.bound := by
    rw [hplain]
    exact hencode
  refine ⟨plain.withKind k, ?_, ?_, ?_, ?_, withKind_valid hvalid k⟩
  · unfold Column.read
    rw [hkind, hl, hu, hx]
    rfl
  · unfold withKind
    split <;> rfl
  · unfold withKind
    split
    · exact boundOf_eq encode_binary
    · exact hplain
  · unfold withKind
    split <;> rfl

theorem columnsOf_variables (vars : List Variable) :
    columnsOf (vars.map .variable) = vars.map fun v => v.index.toNat := by
  induction vars with
  | nil => rfl
  | cons v rest ih => simp [columnsOf, ih]

/-- What the arguments of a constraint describe is a condition, with the same bounds and terms. -/
theorem Condition.read_of_describes {c : Constraint} {m : ModelId} {count : Nat} {lower upper : Number}
    {arguments : List VariableArgument} {coefficients : List Number}
    (h : c.Describes m count lower upper arguments coefficients) :
    ∃ condition, Condition.read lower upper arguments coefficients = .ok condition ∧
      condition.bound = c.bound ∧ Bound.encode condition.lower condition.upper = .ok condition.bound ∧
      c.terms = condition.terms.map (fun t => ((t.1 : Int) + 1, t.2)) ∧
      ∀ t ∈ condition.terms, t.1 < count := by
  obtain ⟨l, u, hl, hu, hencode⟩ := encodeNumbers_eq_ok h.bound
  obtain ⟨vars, cs, rfl, hcs, -, hvars, hterms⟩ := h.terms
  have hbound : boundOf l u = c.bound := boundOf_eq hencode
  let condition : Condition := ⟨l, u, (vars.map fun v => v.index.toNat).zip cs⟩
  have hvalid : Bound.encode condition.lower condition.upper = .ok condition.bound :=
    hencode.trans (congrArg Except.ok hbound.symm)
  refine ⟨condition, ?_, hbound, hvalid, ?_, ?_⟩
  · unfold Condition.read
    rw [hl, hu, hcs, columnsOf_variables]
    rfl
  · -- columns are counted from zero here and from one in the terms
    have hzip : condition.terms = (vars.zip cs).map (Prod.map (fun v => v.index.toNat) id) :=
      List.zip_map_left ..
    rw [hterms, hzip, List.zip_map_left, List.map_map]
    refine List.map_congr_left fun t ht => ?_
    have hindex := hvars t.1 (List.of_mem_zip ht).1
    simp only [Prod.map, id_eq, Function.comp_apply, Variable.column, Prod.mk.injEq, and_true]
    omega
  · intro t ht
    obtain ⟨hfirst, -⟩ := List.of_mem_zip ht
    obtain ⟨v, hv, hsame⟩ := List.mem_map.mp hfirst
    have hindex := hvars v hv
    omega

end Program

/-! ## §2 The coefficients of a model -/

namespace Entries

theorem Even.addTerms {es : Entries} (h : es.Even) (terms : List (Int × Float)) (i : Int) :
    (Model.addTerms terms es i).Even := by
  unfold Model.addTerms
  exact ⟨by simp [h.rows], by simp [h.columns]⟩

/-- Terms that are added to a row are entries at its number. -/
theorem toList_addTerms {es : Entries} (h : es.Even) (terms : List (Int × Float)) (i : Int) :
    (Model.addTerms terms es i).toList = es.toList ++ terms.map fun t => ⟨i, t.1, t.2⟩ := by
  -- every term of the row is stored with the number of the row
  have hnew : (List.replicate terms.length i).zip (terms.map (·.1)) = terms.map fun t => (i, t.1) := by
    induction terms with
    | nil => rfl
    | cons t rest ih => simp [List.replicate_succ, ih]
  unfold Model.addTerms toList
  rw [List.zip_append (h.rows.trans h.columns.symm), hnew, List.zip_append (by simp [h.rows, h.columns]),
    List.map_append, List.zip_map', List.map_map]
  rfl

/-- The coefficients of rows that are added go to the numbers of these rows. -/
theorem toList_addTerms_rows {es : Entries} (h : es.Even) (k : Nat) (bs : List Bound)
    (terms : List (Nat × Float)) :
    let es' := (Engine.rowNumbers k bs.length).foldl
      (Model.addTerms (terms.map fun t => ((t.1 : Int) + 1, t.2))) es
    es'.Even ∧ es'.toList = es.toList ++ Program.entriesFrom k (bs.map fun b => (b, terms)) := by
  induction bs generalizing es k with
  | nil => exact ⟨h, (List.append_nil _).symm⟩
  | cons b rest ih =>
    -- the rows behind the first one are numbered from the next one on
    have hnumbers : Engine.rowNumbers k (b :: rest).length =
        ((k : Int) + 1) :: Engine.rowNumbers (k + 1) rest.length := by
      unfold Engine.rowNumbers
      rw [List.length_cons, List.range_succ_eq_map, List.map_cons, List.map_map]
      congr 1
      refine List.map_congr_left fun i _ => ?_
      simp only [Function.comp_apply, Int.ofNat_eq_natCast]
      omega
    obtain ⟨heven, hlist⟩ := ih (h.addTerms _ ((k : Int) + 1)) (k + 1)
    intro es'
    have hes' : es' = (Engine.rowNumbers (k + 1) rest.length).foldl
        (Model.addTerms (terms.map fun t => ((t.1 : Int) + 1, t.2)))
        (Model.addTerms (terms.map fun t => ((t.1 : Int) + 1, t.2)) es ((k : Int) + 1)) := by
      simp only [es', hnumbers, List.foldl_cons]
    rw [hes']
    refine ⟨heven, ?_⟩
    rw [hlist, toList_addTerms h, List.append_assoc, List.map_map]
    rfl

end Entries

/-! ## §3 Representing a program -/

/-- The model with its problem represents a program. -/
structure Model.Represents (model : Model) (q : Native.Problem) (p : Program) : Prop where
  kinds : model.kinds = p.columns.map (·.kind)
  stores : q.Stores p
  even : model.entries.Even
  entries : model.entries.toList = Program.entries model.engine.kind p.conditions
  valid : p.Valid

namespace Program

/-- The columns after a change are the old ones and the one that was changed. -/
theorem mem_modify {p : Program} {j : Nat} {f : Column → Column} {c : Column}
    (h : c ∈ (p.modify j f).columns) : c ∈ p.columns ∨ ∃ c' ∈ p.columns, c = f c' := by
  obtain ⟨i, hi⟩ := List.mem_iff_getElem?.mp h
  have hmodified : (p.columns.modify j f)[i]? = some c := hi
  rw [List.getElem?_modify] at hmodified
  obtain ⟨c', hc', rfl⟩ := Option.map_eq_some_iff.mp hmodified
  -- the changed column, or one of the others
  by_cases hji : j = i
  · rw [if_pos hji]
    exact Or.inr ⟨c', List.mem_of_getElem? hc', rfl⟩
  · rw [if_neg hji]
    exact Or.inl (List.mem_of_getElem? hc')

/-- A change of a column that keeps its bounds numbers keeps the program valid. -/
theorem Valid.modify {p : Program} (h : p.Valid) {f : Column → Column}
    (hf : ∀ c, Bound.encode c.lower c.upper = .ok c.bound →
      Bound.encode (f c).lower (f c).upper = .ok (f c).bound) (j : Nat) : (p.modify j f).Valid where
  columns c hc := by
    rcases mem_modify hc with hc | ⟨c', hc', rfl⟩
    · exact h.columns c hc
    · exact hf c' (h.columns c' hc')
  conditions := h.conditions
  terms c hc t ht := by
    rw [show (p.modify j f).columns.length = p.columns.length from List.length_modify ..]
    exact h.terms c hc t ht

/-- A change that does not change the column in question changes nothing. -/
theorem modify_eq_self {p : Program} {j : Nat} {f : Column → Column}
    (hf : ∀ c, p.columns[j]? = some c → f c = c) : p.modify j f = p := by
  have hcolumns : p.columns.modify j f = p.columns := by
    apply List.ext_getElem?
    intro i
    rw [List.getElem?_modify]
    -- only column `j` could have changed, and `f` keeps it
    by_cases hji : j = i
    · subst hji
      cases hc : p.columns[j]? with
      | none => rfl
      | some c => simp [hf c hc]
    · simp [hji]
  unfold modify
  rw [hcolumns]

/-- The kinds of the columns after a change of one of them. -/
theorem kinds_modify (p : Program) (j : Nat) {f : Column → Column} (hf : ∀ c, (f c).kind = c.kind) :
    (p.modify j f).columns.map (·.kind) = p.columns.map (·.kind) := by
  apply List.ext_getElem?
  intro i
  show ((p.columns.modify j f).map _)[i]? = _
  rw [List.getElem?_map, List.getElem?_map, List.getElem?_modify]
  cases p.columns[i]? with
  | none => rfl
  | some c =>
    by_cases hji : j = i
    · simp [hji, hf]
    · simp [hji]

/-- The kinds of the columns follow the changes of a program. -/
theorem kinds_modify_withKind (p : Program) (j : Nat) (kind : VariableKind) :
    (p.columns.map (·.kind)).set j kind =
      (p.modify j (Column.withKind kind)).columns.map (·.kind) := by
  apply List.ext_getElem?
  intro i
  show _ = ((p.columns.modify j (Column.withKind kind)).map _)[i]?
  rw [List.getElem?_set', List.getElem?_map, List.getElem?_map, List.getElem?_modify]
  -- whatever the column was, its kind is now the one given
  have hkind (c : Column) : (c.withKind kind).kind = kind := by
    unfold Column.withKind
    split <;> rfl
  cases p.columns[i]? with
  | none => simp
  | some c =>
    by_cases hji : j = i
    · simp [hji, hkind]
    · simp [hji]

/-- Setting coefficients of the objective changes neither kinds nor bounds. -/
theorem Valid.setObjective {p : Program} (h : p.Valid) (terms : List (Nat × Float)) :
    (p.setObjective terms).Valid ∧
      (p.setObjective terms).columns.map (·.kind) = p.columns.map (·.kind) ∧
      (p.setObjective terms).conditions = p.conditions := by
  -- coefficient by coefficient; none of them touches kinds or conditions
  induction terms generalizing p with
  | nil => exact ⟨h, rfl, rfl⟩
  | cons t rest ih =>
    obtain ⟨hvalid, hkinds, hconditions⟩ :=
      ih (h.modify (f := Column.withCoefficient t.2) (fun c hc => hc) t.1)
    exact ⟨hvalid, hkinds.trans (kinds_modify p t.1 (Column.withCoefficient_kind t.2)), hconditions⟩

end Program

namespace Model.Represents

variable {model : Model} {q : Native.Problem} {p : Program}

/-- Only kinds, coefficients and the kind of the engine count of a model, and of a problem its core. -/
theorem edit {model' : Model} {q' : Native.Problem} {p' : Program} (h : model.Represents q p)
    (hkinds : model'.kinds = p'.columns.map (·.kind)) (hentries : model'.entries = model.entries)
    (hengine : model'.engine.kind = model.engine.kind) (hconditions : p'.conditions = p.conditions)
    (hstores : q'.Stores p') (hvalid : p'.Valid) : model'.Represents q'.core p' where
  kinds := hkinds
  stores := hstores.core
  even := hentries ▸ h.even
  entries := by rw [hentries, hengine, hconditions, h.entries]
  valid := hvalid

/-- A model that was just made and named represents the program without columns. -/
theorem made (kind : EngineKind) (n : Nat) (name : String) (d : Direction) :
    (Model.made kind n).Represents
      ((Engine.fresh kind).applyAll (namingCalls ⟨kind, some n, none⟩ name d)).core (Program.fresh d) where
  kinds := rfl
  stores := (Native.Problem.Stores.fresh ⟨kind, some n, none⟩ name d).core
  even := ⟨rfl, rfl⟩
  entries := rfl
  valid := Program.valid_fresh d

/-- Adding columns of one description. -/
theorem grow (h : model.Represents q p) (hq : q.kind? = some model.engine.kind) (m : ModelId)
    (names : List String) {d : VariableDraft} {c : Program.Column} (hkind : c.kind = d.kind)
    (hbound : c.bound = if d.kind = .binary then Bound.binary else d.bound)
    (hcoefficient : c.coefficient = d.coefficient)
    (hvalid : Bound.encode c.lower c.upper = .ok c.bound) :
    (grown m q.columnCount names d.kind model).Represents
      (q.applyAll (newVariablesCalls model.engine d q.columnCount names)).core
      { p with columns := p.columns ++ List.replicate names.length c } := by
  refine h.edit ?_ rfl rfl rfl (h.stores.newVariablesCalls hq d names hkind hbound hcoefficient)
    ⟨fun c' hc' => ?_, h.valid.conditions, fun c' hc' t ht => ?_⟩
  · show model.kinds ++ List.replicate names.length d.kind = _
    rw [List.map_append, h.kinds, List.map_replicate, hkind]
  · -- an old column, or one of the new ones, which are all alike
    rcases List.mem_append.mp hc' with hc' | hc'
    · exact h.valid.columns c' hc'
    · rw [List.eq_of_mem_replicate hc']
      exact hvalid
  · rw [List.length_append]
    exact Nat.lt_add_right _ (h.valid.terms c' hc' t ht)

/-- Adding a constraint. -/
theorem constrain (h : model.Represents q p) (hq : q.kind? = some model.engine.kind)
    {c : Program.Condition} (hvalid : Bound.encode c.lower c.upper = .ok c.bound)
    (hterms : ∀ t ∈ c.terms, t.1 < p.columns.length) :
    let bounds := Engine.rowBounds model.engine.kind c.bound
    (constrained (c.terms.map fun t => ((t.1 : Int) + 1, t.2))
        (Engine.rowNumbers q.rowCount bounds.length) model).Represents
      (q.applyAll (model.engine.rowsCalls q.rowCount bounds)).core
      { p with conditions := p.conditions ++ [c] } := by
  intro bounds
  obtain ⟨heven, hlist⟩ := Entries.toList_addTerms_rows h.even q.rowCount bounds c.terms
  -- the rows of the new condition: one for each bound, all with its terms
  have hrows : Program.rows model.engine.kind [c] = bounds.map fun b => (b, c.terms) :=
    List.append_nil _
  refine ⟨h.kinds, (h.stores.rowsCalls hq c).core, heven, ?_, h.valid.columns, fun c' hc' => ?_,
    fun c' hc' => ?_⟩
  · refine hlist.trans ?_
    rw [h.entries, h.stores.rowCount hq, ← hrows, ← Program.entries_append]
    rfl
  · rcases List.mem_append.mp hc' with hc' | hc'
    · exact h.valid.conditions c' hc'
    · rw [List.mem_singleton.mp hc']
      exact hvalid
  · rcases List.mem_append.mp hc' with hc' | hc'
    · exact h.valid.terms c' hc'
    · rw [List.mem_singleton.mp hc']
      exact hterms

/-- Changing the kind of a column, or of none if there is no such column. -/
theorem setKind (h : model.Represents q p) (hq : q.kind? = some model.engine.kind) (j : Nat)
    (kind : VariableKind) :
    (Variable.withKind j kind model).Represents
      (q.applyAll (Variable.kindCalls model.engine (j + 1) kind)).core
      (p.modify j (Program.Column.withKind kind)) := by
  -- outside of the list there is nothing to set, in the model as in the program
  have hkinds : (Variable.withKind j kind model).kinds = model.kinds.set j kind := by
    unfold Variable.withKind place?
    rw [if_pos (by omega), Int.toNat_natCast]
    by_cases hj : j < model.kinds.length
    · rw [if_pos hj]
    · rw [if_neg hj, List.set_eq_of_length_le (by omega)]
  refine h.edit ?_ ?_ (congrArg _ (Variable.withKind_engine ..)) rfl (h.stores.kindCalls hq j kind)
    (h.valid.modify (fun c hc => Program.Column.withKind_valid hc kind) j)
  · rw [hkinds, h.kinds]
    exact Program.kinds_modify_withKind p j kind
  · unfold Variable.withKind
    cases place? model.kinds.length j <;> rfl

/-- Bounding a column that is not binary. -/
theorem setBounds (h : model.Represents q p) (hq : q.kind? = some model.engine.kind) {j : Nat} {l u : Float}
    {b : Bound} (hb : Bound.encode l u = .ok b) (hj : ∀ c, p.columns[j]? = some c → c.kind ≠ .binary) :
    model.Represents (q.applyAll [model.engine.boundsCall (j + 1) b]).core
      (p.modify j (Program.Column.withBounds l u)) :=
  h.edit (h.kinds.trans (Program.kinds_modify p j (Program.Column.withBounds_kind l u)).symm) rfl rfl rfl
    (h.stores.boundsCall hq hb hj)
    (h.valid.modify (fun _ hc => Program.Column.withBounds_valid hc hb) j)

/-- Setting the objective coefficient of a column, or of none if there is no such column. -/
theorem setCoefficient (h : model.Represents q p) (hq : q.kind? = some model.engine.kind) (j : Nat)
    (x : Float) :
    model.Represents (q.applyAll [model.engine.objectiveCall (j + 1) x]).core
      (p.modify j (Program.Column.withCoefficient x)) :=
  h.edit (h.kinds.trans (Program.kinds_modify p j (Program.Column.withCoefficient_kind x)).symm) rfl rfl rfl
    (h.stores.objectiveCall hq j x)
    (h.valid.modify (f := Program.Column.withCoefficient x) (fun _ hc => hc) j)

/-- Setting coefficients of the objective. -/
theorem setObjective (h : model.Represents q p) (hq : q.kind? = some model.engine.kind)
    {terms : List (Variable × Float)} (hterms : ∀ t ∈ terms, 0 ≤ t.1.index) :
    model.Represents (q.applyAll (objectiveCalls model.engine terms)).core
      (p.setObjective (terms.map fun t => (t.1.index.toNat, t.2))) := by
  obtain ⟨hvalid, hkinds, hconditions⟩ :=
    h.valid.setObjective (terms.map fun t => (t.1.index.toNat, t.2))
  exact h.edit (h.kinds.trans hkinds.symm) rfl rfl hconditions (h.stores.objectiveCalls hq terms hterms) hvalid

/-- Setting the direction. -/
theorem setDirection (h : model.Represents q p) (hq : q.kind? = some model.engine.kind) (d : Direction) :
    model.Represents (q.applyAll [model.engine.directionCall d]).core { p with direction := d } :=
  h.edit h.kinds rfl rfl rfl (h.stores.directionCall hq d)
    ⟨h.valid.columns, h.valid.conditions, h.valid.terms⟩

/-- Handing the matrix over for a solve. -/
theorem load (h : model.Represents q p) (hq : q.kind? = some model.engine.kind) {t : Triplets}
    (ht : model.entries.triplets = .ok t) (touched : Bool) :
    ((if touched then renewed else id) model).Represents (q.applyAll (model.engine.loadCalls t)).core p := by
  -- the entries stored are those of the program, by the invariant
  have hload : t.toList =
      (Entry.coalesce (Program.entries model.engine.kind p.conditions)).map Entry.wrapped := by
    rw [Entries.toList_triplets ht, h.entries]
  have hstores := h.stores.loadCalls hq hload
  cases touched with
  | false => exact h.edit h.kinds rfl rfl rfl hstores h.valid
  | true => exact h.edit h.kinds rfl rfl rfl hstores h.valid

end Model.Represents

/-! ## §4 Revisions -/

/-- A place that counts from the front is the index itself. -/
private theorem eq_toNat_of_place? {count i : Nat} {index : Int} (h : 0 ≤ index)
    (hp : place? count index = some i) : i = index.toNat := by
  unfold place? at hp
  rw [if_pos h] at hp
  split at hp
  · exact (Option.some.inj hp).symm
  · cases hp

private theorem Variable.column_eq_succ {v : Variable} (h : 0 ≤ v.index) :
    v.column = (v.index.toNat : Int) + 1 := by
  rw [Int.toNat_of_nonneg h]
  rfl

/-- The operation revises the program, and the model and the problem represent the result. -/
def Operation.Revises (o : Operation) (p : Program) (model : Model) (q : Native.Problem) : Prop :=
  ∃ p', o.revise p = .ok p' ∧ model.Represents q p'

namespace Model.Represents

variable {model : Model} {q : Native.Problem} {p : Program}

theorem kinds_length (h : model.Represents q p) : model.kinds.length = p.columns.length := by
  rw [h.kinds, List.length_map]

/-- The kind that the model keeps for a place is the kind of the column there. -/
theorem kind_eq (h : model.Represents q p) {count i : Nat} {index : Int} (hindex : 0 ≤ index)
    (hplace : place? count index = some i) {k : VariableKind} (hi : model.kinds[i]? = some k)
    {c : Program.Column} (hc : p.columns[index.toNat]? = some c) : c.kind = k := by
  rw [eq_toNat_of_place? hindex hplace, h.kinds, List.getElem?_map, hc] at hi
  exact Option.some.inj hi

/-- Adding columns revises the model, its problem and the program alike. -/
theorem revises_grow (h : model.Represents q p) (hq : q.kind? = some model.engine.kind) {m : ModelId}
    {names : List String} {d : VariableDraft} {o : Operation} (ho : o.Grows m names.length d) :
    o.subject? = some m ∧ o.Revises p (grown m q.columnCount names d.kind model)
      (q.applyAll (newVariablesCalls model.engine d q.columnCount names)).core := by
  cases o with
  | addVariable m' name kind c l u =>
    obtain ⟨rfl, hcount, hread⟩ := ho
    obtain ⟨column, hcolumn, hkind, hbound, hcoefficient, hvalid⟩ := Program.Column.read_of_draft hread
    refine ⟨rfl, _, ?_, h.grow hq m' names hkind hbound hcoefficient hvalid⟩
    rw [Operation.revise, hcolumn, hcount]
    rfl
  | addVariables m' k stem kind c l u =>
    obtain ⟨rfl, hcount, hread⟩ := ho
    obtain ⟨column, hcolumn, hkind, hbound, hcoefficient, hvalid⟩ := Program.Column.read_of_draft hread
    refine ⟨rfl, _, ?_, h.grow hq m' names hkind hbound hcoefficient hvalid⟩
    rw [Operation.revise, hcolumn, hcount]
    rfl
  | _ => exact ho.elim

/-- Adding a constraint revises the model, its problem and the program alike. -/
theorem revises_constraint (h : model.Represents q p) (hq : q.kind? = some model.engine.kind) {m : ModelId}
    {lower upper : Number} {arguments : List VariableArgument} {coefficients : List Number} {c : Constraint}
    (hc : c.Describes m model.kinds.length lower upper arguments coefficients) :
    (Operation.addConstraint m lower upper arguments coefficients).Revises p
      (constrained c.terms (Engine.rowNumbers q.rowCount (c.rowBounds model.engine).length) model)
      (q.applyAll (model.engine.rowsCalls q.rowCount (c.rowBounds model.engine))).core := by
  rw [h.kinds_length] at hc
  -- the condition that the program reads is the constraint that the model read
  obtain ⟨condition, hread, hbound, hvalid, hterms, hrange⟩ := Program.Condition.read_of_describes hc
  have hafter := h.constrain hq hvalid hrange
  rw [hbound, ← hterms] at hafter
  refine ⟨_, ?_, hafter⟩
  rw [Operation.revise, hread]
  rfl

/-- Changing a kind revises the model, its problem and the program alike. -/
theorem revises_kind (h : model.Represents q p) (hq : q.kind? = some model.engine.kind) {v : Variable}
    (hv : 0 ≤ v.index) {kind : Datum} {k : VariableKind}
    (hk : (Choice.read kind : Except Fault VariableKind) = .ok k) :
    (Operation.setKind v kind).Revises p (Variable.withKind v.index k model)
      (q.applyAll (Variable.kindCalls model.engine v.column k)).core := by
  have hafter := h.setKind hq v.index.toNat k
  rw [← Variable.column_eq_succ hv, Int.toNat_of_nonneg hv] at hafter
  refine ⟨_, ?_, hafter⟩
  rw [Operation.revise, hk]
  rfl

/-- Setting the kind of a variable that the model does not have revises nothing. -/
theorem revises_kind_of_no_place (h : model.Represents q p) (hq : q.kind? = some model.engine.kind)
    {v : Variable} (hv : 0 ≤ v.index) (hplace : place? model.kinds.length v.index = none)
    (k : VariableKind) : (Variable.withKind v.index k model).Represents
      (q.applyAll (Variable.kindCalls model.engine v.column k)).core p := by
  -- past the last column nothing is changed
  have hnone : p.columns.length ≤ v.index.toNat := by
    rw [place?, if_pos hv, h.kinds_length] at hplace
    by_contra hlt
    rw [if_pos (Nat.not_le.mp hlt)] at hplace
    cases hplace
  have hsame : p.modify v.index.toNat (Program.Column.withKind k) = p :=
    Program.modify_eq_self fun c hc => absurd hc (by simp [hnone])
  have hafter := h.setKind hq v.index.toNat k
  rwa [← Variable.column_eq_succ hv, Int.toNat_of_nonneg hv, hsame] at hafter

/-- Changing bounds revises the model, its problem and the program alike. -/
theorem revises_bounds (h : model.Represents q p) (hq : q.kind? = some model.engine.kind) {v : Variable}
    (hv : 0 ≤ v.index) {lower upper : Number} {b : Bound} (hb : Bound.encodeNumbers lower upper = .ok b)
    {count i : Nat} (hplace : place? count v.index = some i) {k : VariableKind}
    (hi : model.kinds[i]? = some k) (hk : k ≠ .binary) :
    (Operation.setBounds v lower upper).Revises p model
      (q.applyAll [model.engine.boundsCall v.column b]).core := by
  obtain ⟨l, u, hl, hu, hencode⟩ := Program.encodeNumbers_eq_ok hb
  have hafter := h.setBounds hq hencode fun c hc => (h.kind_eq hv hplace hi hc).symm ▸ hk
  rw [← Variable.column_eq_succ hv] at hafter
  refine ⟨_, ?_, hafter⟩
  rw [Operation.revise, hl, hu]
  rfl

/-- A binary column keeps the bounds that it has. -/
theorem revise_bounds_of_binary (h : model.Represents q p) {v : Variable} (hv : 0 ≤ v.index)
    {lower upper : Number} {b : Bound} (hb : Bound.encodeNumbers lower upper = .ok b) {count i : Nat}
    (hplace : place? count v.index = some i) (hi : model.kinds[i]? = some .binary) :
    (Operation.setBounds v lower upper).revise p = .ok p := by
  obtain ⟨l, u, hl, hu, hencode⟩ := Program.encodeNumbers_eq_ok hb
  -- bounds of a binary variable change nothing
  have hsame : p.modify v.index.toNat (Program.Column.withBounds l u) = p := by
    refine Program.modify_eq_self fun c hc => ?_
    unfold Program.Column.withBounds
    rw [if_pos (h.kind_eq hv hplace hi hc)]
  rw [Operation.revise, hl, hu]
  exact congrArg Except.ok hsame

theorem revises_coefficient (h : model.Represents q p) (hq : q.kind? = some model.engine.kind)
    {v : Variable} (hv : 0 ≤ v.index) {coefficient : Number} {x : Float}
    (hx : coefficient.toDouble = .ok x) :
    (Operation.setCoefficient v coefficient).Revises p model
      (q.applyAll [model.engine.objectiveCall v.column x]).core := by
  have hafter := h.setCoefficient hq v.index.toNat x
  rw [← Variable.column_eq_succ hv] at hafter
  refine ⟨_, ?_, hafter⟩
  rw [Operation.revise, hx]
  rfl

/-- Setting the objective revises the model, its problem and the program alike. -/
theorem revises_objective (h : model.Represents q p) (hq : q.kind? = some model.engine.kind) {m : ModelId}
    {coefficients : List Number} {vars : List Variable} {cs : List Float}
    (hvars : ∀ v ∈ vars, 0 ≤ v.index) (hcs : coefficients.mapM Number.toDouble = .ok cs) :
    (Operation.setObjective m coefficients (vars.map .variable)).Revises p model
      (q.applyAll (objectiveCalls model.engine (vars.zip cs))).core := by
  have hindices : ∀ t ∈ vars.zip cs, 0 ≤ t.1.index := fun t ht => hvars t.1 (List.of_mem_zip ht).1
  -- columns are numbered from the indices of the variables
  have hzip : (vars.map fun v => v.index.toNat).zip cs =
      (vars.zip cs).map fun t => (t.1.index.toNat, t.2) := List.zip_map_left ..
  refine ⟨_, ?_, h.setObjective hq hindices⟩
  rw [Operation.revise, hcs, Program.columnsOf_variables, ← hzip]
  rfl

theorem revises_direction (h : model.Represents q p) (hq : q.kind? = some model.engine.kind) {m : ModelId}
    {direction : Datum} {d : Direction} (hd : (Choice.read direction : Except Fault Direction) = .ok d) :
    (Operation.setDirection m direction).Revises p model
      (q.applyAll [model.engine.directionCall d]).core := by
  refine ⟨_, ?_, h.setDirection hq d⟩
  rw [Operation.revise, hd]
  rfl

end Model.Represents

/-! ## §5 Programs through a session -/

namespace Programs

/-- Every model that holds a problem represents its program. -/
def Fits (ps : Programs) (w : World) : Prop :=
  ∀ ⦃m model n q⦄, w.Holds m model n q → ∃ p, ps m = some p ∧ model.Represents q p

theorem set_eq_self {ps : Programs} {m : ModelId} {p : Program} (h : ps m = some p) :
    ps.set m (some p) = ps := by
  funext k
  unfold set
  split
  · next hk => rw [hk, h]
  · rfl

variable {ps : Programs} {w w' : World} {m : ModelId} {model : Model} {n : Nat} {q : Native.Problem}

/-- A revision that succeeds sets the program of its model. -/
theorem after_of_revise {p p' : Program} {o : Operation} (hps : ps m = some p)
    (ho : o.subject? = some m) (hr : o.revise p = .ok p') (answer : Answer) (calls : List Native.Call) :
    ps.after ⟨o, .ok answer, calls⟩ = ps.set m (some p') := by
  -- the operations with a subject that answer by revising its program
  have hset : ps.answered o answer = ps.set m ((ps m).bind fun p => (o.revise p).toOption) := by
    unfold answered
    cases o with
    | create | clone | free | setParameters | solve | solveWithContext | inquire | meanwhile => cases ho
    | _ =>
      cases ho
      rfl
  show ps.answered o answer = _
  rw [hset, hps, Option.bind_some, hr]
  rfl

/-- An operation whose answers change no program changes none when it fails either. -/
theorem after_of_answered {o : Operation} (ho : ∀ answer, ps.answered o answer = ps)
    (a : Except Fault Answer) (calls : List Native.Call) : ps.after ⟨o, a, calls⟩ = ps := by
  cases a with
  | error fault => rfl
  | ok answer => exact ho answer

/-- No solve changes a program. -/
theorem after_of_solves {o : Operation} (ho : o.SolvesModel m) (a : Except Fault Answer)
    (calls : List Native.Call) : ps.after ⟨o, a, calls⟩ = ps := by
  refine after_of_answered (fun _ => ?_) a calls
  cases o with
  | solve | solveWithContext => rfl
  | _ => exact ho.elim

theorem Fits.undisturbed (h : ps.Fits w) (hu : World.Undisturbed w w') : ps.Fits w' :=
  fun _ _ _ _ hh => h (hu.holds_iff.mp hh)

/-- After an edit, the model represents another program, and the other models still represent theirs. -/
theorem Fits.edits (h : ps.Fits w) (hs : w.Sound) {f : Model → Model} {cs : List Native.Call}
    {p' : Program} (hh : w.Holds m model n q) (he : World.Edits w w' m f n cs)
    (hfreed : (f model).freed = model.freed) (hengine : (f model).engine = model.engine)
    (hp : (f model).Represents (q.applyAll cs).core p') : (ps.set m (some p')).Fits w' := by
  intro m₁ model₁ n₁ q₁ hh₁
  -- the model edited, or another one, whose program stays
  rcases he.holds_cases hs hh hfreed hengine hh₁ with ⟨rfl, rfl, rfl, rfl⟩ | ⟨hne, hold⟩
  · exact ⟨p', set_self .., hp⟩
  · rw [set_of_ne ps hne]
    exact h hold

/-- A new model represents a program of its own. -/
theorem Fits.makes (h : ps.Fits w) (hs : w.Sound) {p : Program} (hm : World.Makes w w' model q)
    (hp : model.Represents q p) : (ps.set w.models.size (some p)).Fits w' := by
  intro m₁ model₁ n₁ q₁ hh₁
  rcases hm.holds_cases hs hh₁ with ⟨rfl, rfl, rfl, rfl⟩ | ⟨hne, hold⟩
  · exact ⟨p, set_self .., hp⟩
  · rw [set_of_ne ps hne]
    exact h hold

/-- After an edit that revises the program of its model, all models represent their programs. -/
theorem Fits.revises (h : ps.Fits w) (hs : w.Sound) {f : Model → Model} {cs : List Native.Call}
    (hh : w.Holds m model n q) (he : World.Edits w w' m f n cs)
    (hfreed : (f model).freed = model.freed) (hengine : (f model).engine = model.engine) {o : Operation}
    (ho : o.subject? = some m)
    (hrevises : ∀ p, model.Represents q p → o.Revises p (f model) (q.applyAll cs).core)
    (answer : Answer) (calls : List Native.Call) : (ps.after ⟨o, .ok answer, calls⟩).Fits w' := by
  obtain ⟨p, hps, hrep⟩ := h hh
  obtain ⟨p', hrevise, hafter⟩ := hrevises p hrep
  rw [after_of_revise hps ho hrevise]
  exact h.edits hs hh he hfreed hengine hafter

/-- A model that was made and then named represents the program without columns. -/
theorem Fits.created (h : ps.Fits w) (hs : w.Sound) {w₁ : World} {kind : EngineKind} {name : String}
    {d : Direction} (h₁ : World.Makes w w₁ (Model.made kind n) (Engine.fresh kind))
    (h₂ : World.Edits w₁ w' w.models.size id n (Model.namingCalls ⟨kind, some n, none⟩ name d)) :
    (ps.set w.models.size (some (Program.fresh d))).Fits w' := by
  intro m₁ model₁ n₁ q₁ hh₁
  -- the model made, with a fresh program, or an older one
  rcases h₁.holds_cases_of_edits hs rfl h₂ rfl rfl hh₁ with ⟨rfl, rfl, rfl⟩ | ⟨hne, hold⟩
  · exact ⟨_, set_self .., Model.Represents.made kind n name d⟩
  · rw [set_of_ne ps hne]
    exact h hold

/-- A solve may load the matrix again; the programs stay. -/
theorem Fits.solved (h : ps.Fits w) (hs : w.Sound) (hh : w.Holds m model n q)
    {a : Except Fault SolveResult} (hsolves : Model.Solves w m model n (a, w')) : ps.Fits w' := by
  obtain ⟨p, hps, hrep⟩ := h hh
  rw [← set_eq_self hps]
  rcases hsolves with ⟨hran, -⟩ | ⟨t, touched, ht, hran⟩
  · exact h.edits hs hh hran.edits rfl rfl (hrep.edit hrep.kinds rfl rfl rfl hrep.stores hrep.valid)
  · have hafter := hrep.load hh.kind ht touched
    cases touched <;> exact h.edits hs hh hran.edits rfl rfl hafter

end Programs

/-- The variables that an operation names are ones that a model may have handed out. -/
def Operation.Proper : Operation → Prop
  | setKind v _ | setBounds v .. | setCoefficient v _ => 0 ≤ v.index
  | _ => True

namespace Programs

/-- **One operation.** If all models represent their programs, they do so after an operation, for the
programs after it. -/
theorem fits_of_performed {ps : Programs} {w w' : World} (h : ps.Fits w) (hs : w.Sound)
    {o : Operation} (ho : o.Proper) {a : Except Fault Answer} (hp : Performed w o a w')
    (calls : List Native.Call) : (ps.after ⟨o, a, calls⟩).Fits w' := by
  cases hp with
  | refused hidle => exact h.undisturbed (.of_idling hidle)
  | asked hidle =>
    rw [after_of_answered fun _ => rfl]
    exact h.undisturbed (.of_idling hidle)
  | elapsed => exact fun _ _ _ _ hh => h ((World.holds_interlude _).mp hh)
  | configured hu =>
    rw [after_of_answered fun _ => rfl]
    exact h.undisturbed hu
  | @created name direction options d kind n w₁ _ hd h₁ h₂ =>
    have hnew : ps.after ⟨.create name direction options, .ok (.model w.models.size), calls⟩ =
        ps.set w.models.size (some (Program.fresh d)) := by
      show ps.set w.models.size _ = _
      rw [hd]
      rfl
    rw [hnew]
    exact h.created hs h₁ h₂
  | undone h₁ h₂ => exact fun _ _ _ _ hh₁ => h ((h₁.holds_iff_of_frees hs rfl h₂).mp hh₁)
  | @cloned m model n q _ hh hm =>
    obtain ⟨p, hps, hrep⟩ := h hh
    have hnew : (ps.after ⟨.clone m, .ok (.model w.models.size), calls⟩) =
        ps.set w.models.size (some p) := by rw [← hps]; rfl
    rw [hnew]
    exact h.makes hs hm ⟨hrep.kinds, hrep.stores, hrep.even, hrep.entries, hrep.valid⟩
  | freed hh hf => exact fun _ _ _ _ hh₁ => h ((hf.holds_iff hs hh).mp hh₁).2
  | freedBefore =>
    rw [after_of_answered fun _ => rfl]
    exact h
  | grew hgrows hh hn he =>
    subst hn
    obtain ⟨p, -, hrep⟩ := h hh
    exact h.revises hs hh he rfl rfl (hrep.revises_grow hh.kind hgrows).1
      (fun _ hrep => (hrep.revises_grow hh.kind hgrows).2) _ _
  | constrained hh hc he =>
    exact h.revises hs hh he rfl rfl rfl (fun _ hrep => hrep.revises_constraint hh.kind hc) _ _
  | @kindSet v kind k model n q _ a hk hh ha he =>
    cases a with
    | ok =>
      exact h.revises hs hh he (Variable.withKind_freed ..) (Variable.withKind_engine ..) rfl
        (fun _ hrep => hrep.revises_kind hh.kind ho hk) _ _
    | error fault =>
      -- the kind of a variable that the model does not have was not set
      have hplace : place? model.kinds.length v.index = none :=
        Option.eq_none_iff_forall_ne_some.mpr fun i hi => nomatch ha i hi
      obtain ⟨p, hps, hrep⟩ := h hh
      have hedits := h.edits hs hh he (Variable.withKind_freed ..) (Variable.withKind_engine ..)
        (hrep.revises_kind_of_no_place hh.kind ho hplace k)
      rwa [set_eq_self hps] at hedits
  | boundsSet hb hh hp hi hk he =>
    exact h.revises hs hh he rfl rfl rfl (fun _ hrep => hrep.revises_bounds hh.kind ho hb hp hi hk) _ _
  | boundsIgnored hb hh hp hi hidle =>
    obtain ⟨p, hps, hrep⟩ := h hh
    rw [after_of_revise hps rfl (hrep.revise_bounds_of_binary ho hb hp hi), set_eq_self hps]
    exact h.undisturbed (.of_idling hidle)
  | coefficientSet hx hh he =>
    exact h.revises hs hh he rfl rfl rfl (fun _ hrep => hrep.revises_coefficient hh.kind ho hx) _ _
  | objectiveSet hh hargs hv hc he =>
    subst hargs
    exact h.revises hs hh he rfl rfl rfl
      (fun _ hrep => hrep.revises_objective hh.kind (fun v hmem => (hv v hmem).2.1) hc) _ _
  | directionSet hd hh he =>
    exact h.revises hs hh he rfl rfl rfl (fun _ hrep => hrep.revises_direction hh.kind hd) _ _
  | solved hsolver hh hsolves =>
    rw [after_of_solves hsolver]
    exact h.solved hs hh hsolves

theorem fits_initial (ps : Programs) : ps.Fits World.initial := by
  intro m model n q hh
  have hfound := hh.found
  simp [World.modelCore?, World.model?, World.initial] at hfound

/-- **Every session.** Whatever a caller does, each open model represents the program that was built for
it. -/
theorem fits_nextAll {ps : Programs} {w : World} (h : ps.Fits w) (hs : w.Sound) {os : List Operation}
    (hos : ∀ o ∈ os, o.Proper) : ((w.events os).foldl Programs.after ps).Fits (w.nextAll os) := by
  induction os generalizing w ps with
  | nil => exact h
  | cons o rest ih =>
    have hfirst : (ps.after (w.event o)).Fits (w.next o) :=
      fits_of_performed h hs (hos o (List.mem_cons_self ..)) (performed hs o) _
    exact ih hfirst (World.sound_next hs o) fun o ho => hos o (List.mem_cons_of_mem _ ho)

end Programs

end LinearProgram
