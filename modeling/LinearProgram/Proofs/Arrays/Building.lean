import LinearProgram.Proofs.Arrays.Matrix
import LinearProgram.Proofs.Batch
import LinearProgram.Proofs.Dropped
import LinearProgram.Proofs.Table

/-!
# A model under construction

A model that is built from arrays is a new one, to which columns and then rows are added, one by one. While this goes
on, it represents the part of the program that has been added, and its variables have the names that are generated
for their positions: `World.Builds`. No step fails but for a bound that is NaN, and then nothing has happened in
this step. So all columns and all rows are added, or those before the first one with such a bound.
-/

namespace LinearProgram

open Native LinearProgram.Action

/-! ## §1 Operations that answer -/

namespace World

variable {w w₁ w₂ w' : World}

/-- Operations give these answers, one after the other, and lead to a state. -/
def Answers (w : World) (os : List Operation) (answers : List Answer) (w' : World) : Prop :=
  (w.events os).map (·.answer) = answers.map .ok ∧ w.nextAll os = w'

theorem Answers.nil (w : World) : w.Answers [] [] w := ⟨rfl, rfl⟩

/-- An operation that wraps the answer of an action comes first. -/
theorem Answers.cons {α : Type} {a : Action α} {f : α → Answer} {o : Operation} {x : α} {os : List Operation}
    {answers : List Answer} (ho : o.run = f <$> a) (ha : a.on w = (.ok x, w₁)) (hrest : w₁.Answers os answers w') :
    w.Answers (o :: os) (f x :: answers) w' := by
  have hfirst : o.run.on w = (.ok (f x), w₁) := by
    rw [ho, on_map, ha]
    rfl
  have hnext : w.next o = w₁ := congrArg Prod.snd hfirst
  obtain ⟨hanswers, hstate⟩ := hrest
  refine ⟨?_, by rw [nextAll_cons, hnext, hstate]⟩
  -- the first answer stands before those of the rest
  rw [events, hnext, List.map_cons, List.map_cons, hanswers]
  exact congrArg (· :: answers.map Except.ok) (congrArg Prod.fst hfirst)

/-- Answers to two sequences of operations are answers to both together. -/
theorem Answers.append {os os' : List Operation} {answers answers' : List Answer} (h₁ : w.Answers os answers w₁)
    (h₂ : w₁.Answers os' answers' w') : w.Answers (os ++ os') (answers ++ answers') w' := by
  obtain ⟨hanswers, rfl⟩ := h₁
  obtain ⟨hanswers', rfl⟩ := h₂
  refine ⟨?_, nextAll_append w os os'⟩
  rw [events_append, List.map_append, List.map_append, hanswers, hanswers']

end World

/-! ## §2 The program of arrays -/

namespace Bound

/-- One of the two bounds is no number. -/
def HasNaN (lower upper : Float) : Prop := lower.isNaN = true ∨ upper.isNaN = true

instance (lower upper : Float) : Decidable (HasNaN lower upper) := inferInstanceAs (Decidable (_ ∨ _))

theorem encode_of_hasNaN {lower upper : Float} (h : HasNaN lower upper) :
    encode lower upper = .error (.nanBound lower upper) := by
  unfold encode
  rw [if_pos ((Bool.or_eq_true _ _).mpr h)]

/-- Bounds without NaN can be encoded. -/
theorem encode_of_not_hasNaN {lower upper : Float} (h : ¬ HasNaN lower upper) :
    encode lower upper = .ok (Program.boundOf lower upper) := by
  obtain ⟨b, hb⟩ : ∃ b, encode lower upper = .ok b := by
    unfold encode
    rw [if_neg (mt (Bool.or_eq_true _ _).mp h)]
    split_ifs <;> exact ⟨_, rfl⟩
  rw [hb, Program.boundOf_eq hb]

end Bound

/-- The column that the arrays give: whether it is integer, its coefficient, and its bounds. -/
def Program.Column.given : Bool × Float × Float × Float → Program.Column
  | (integer, c, l, u) => ⟨if integer then .integer else .continuous, l, u, c⟩

/-- The terms that stand in row `i`. -/
def Compressed.terms (A : Compressed) (i : Nat) : List (Nat × Float) := (A.row i).map fun t => (t.1.toNat, t.2)

/-- The conditions that the arrays give, from row `i` on: their bounds, and the terms that stand in the rows. -/
def Program.Condition.given (A : Compressed) (i : Nat) (rows : List (Float × Float)) : List Program.Condition :=
  (rows.zipIdx i).map fun (b, k) => ⟨b.1, b.2, A.terms k⟩

namespace Operation

def addColumn (m : ModelId) : Bool × Float × Float × Float → Operation
  | (integer, c, l, u) =>
    let kind : VariableKind := if integer then .integer else .continuous
    .addVariable m "" (.text (Choice.name kind)) (.float c) (.float l) (.float u)

def addCondition (m : ModelId) (c : Program.Condition) : Operation :=
  .addConstraint m (.float c.lower) (.float c.upper) (c.terms.map fun t => .variable ⟨m, t.1⟩)
    (c.terms.map fun t => .float t.2)

end Operation

/-- Columns that exist are columns in the terms. -/
theorem Compressed.terms_lt {A : Compressed} {i width : Nat} (h : ∀ t ∈ A.row i, 0 ≤ t.1 ∧ t.1 < width) :
    ∀ t ∈ A.terms i, t.1 < width := by
  intro t ht
  obtain ⟨t', ht', rfl⟩ := List.mem_map.mp ht
  have hin := h t' ht'
  dsimp only
  omega

theorem Compressed.map_float_row (A : Compressed) (i : Nat) :
    ((A.row i).map fun (_, x) => Number.float x) = (A.terms i).map fun t => .float t.2 := by
  rw [terms, List.map_map]
  rfl

/-- Doubles are converted to themselves. -/
theorem mapM_toDouble_float {α : Type} (terms : List (α × Float)) :
    (terms.map fun t => Number.float t.2).mapM Number.toDouble = .ok (terms.map (·.2)) := by
  induction terms with
  | nil => rfl
  | cons t rest ih =>
    rw [List.map_cons, List.mapM_cons, ih]
    rfl

/-- Reading the description of a variable whose kind is known depends on its bounds only. -/
theorem Model.VariableDraft.read_floats (kind : VariableKind) (c l u : Float) :
    VariableDraft.read (.text (Choice.name kind)) (.float c) (.float l) (.float u) =
      (Bound.encode l u).map fun bound => ⟨kind, bound, c⟩ := by
  have hkind := Choice.read_name (Choice.ofName?_name_variableKind kind)
  have hnumbers : Bound.encodeNumbers (.float l) (.float u) = Bound.encode l u := rfl
  unfold VariableDraft.read
  rw [hkind, hnumbers]
  cases Bound.encode l u <;> rfl

/-! ## §3 A model under construction -/

/-- The names that are generated for the first positions of a model. -/
def VariableName.generated (count : Nat) : List String := (List.range count).map fun i => candidate i 0

theorem VariableName.generated_succ (count : Nat) : generated (count + 1) = generated count ++ [candidate count 0] := by
  unfold generated
  rw [List.range_succ, List.map_append, List.map_singleton]

/-- The first name that is generated for the next position is free. -/
theorem VariableName.candidate_notMem_generated (count : Nat) : candidate count 0 ∉ generated count := by
  intro h
  obtain ⟨i, hi, hsame⟩ := List.mem_map.mp h
  have hlt := List.mem_range.mp hi
  have heq : i = count := candidate_zero_injective hsame
  omega

/-- In the state, the open model `m` represents a program whose variables all have generated names. -/
structure World.Builds (w : World) (m : ModelId) (model : Model) (n : Nat) (q : Problem) (p : Program) : Prop where
  compliant : w.Compliant
  found : w.model? m = some model
  unfreed : model.freed = false
  owned : model.engine.Owns w.native n q
  represents : model.Represents q p
  settled : p.Settled
  names : model.names = VariableName.generated p.columns.length
  stored : q.columnNames = VariableName.generated p.columns.length

namespace World.Builds

variable {w : World} {m : ModelId} {model : Model} {n : Nat} {q : Problem} {p : Program}

theorem columnCount (h : w.Builds m model n q p) : q.columnCount = p.columns.length :=
  h.represents.stores.columnCount

/-- The generated name of the next position is picked. -/
theorem on_pickNames (h : w.Builds m model n q p) (hcount : p.columns.length < 2 ^ 63) (w' : World) :
    (Model.pickNames model.engine model.names (fun _ => "") 1 q.columnCount).on w' =
      (.ok [VariableName.candidate p.columns.length 0], w') := by
  -- all names in use are generated ones for earlier positions, so the first candidate is free
  have hpick : VariableName.pick model.names "" q.columnCount = .ok (VariableName.candidate p.columns.length 0) := by
    rw [h.names, h.columnCount]
    exact congrArg Except.ok (VariableName.generate_of_notMem (VariableName.candidate_notMem_generated _))
  have hcheck : (model.engine.checkName (VariableName.candidate p.columns.length 0)).on w' = (.ok (), w') := by
    unfold Engine.checkName Glpk.checkName Glpk.longestName
    have hshort := VariableName.utf8ByteSize_candidate_zero hcount
    cases model.engine.kind with
    | glpk =>
      dsimp only
      rw [if_neg (by omega), on_lift]
    | lpsolve => rfl
  unfold Model.pickNames
  rw [hpick, on_bind_of_ok (on_lift _ w'), on_bind_of_ok hcheck]
  rfl

/-- A column without NaN among its bounds is added. -/
theorem addColumn (h : w.Builds m model n q p) (hcount : p.columns.length < 2 ^ 63)
    (integer : Bool) (c : Float) {l u : Float} (hbounds : ¬ Bound.HasNaN l u) :
    let kind : VariableKind := if integer then .integer else .continuous
    ∃ w' model' q', (Model.addVariable m "" (.text (Choice.name kind)) (.float c) (.float l) (.float u)).on w =
        (.ok ⟨m, p.columns.length⟩, w') ∧
      w'.Builds m model' n q' { p with columns := p.columns ++ [.given (integer, c, l, u)] } ∧
      model'.engine = model.engine := by
  intro kind
  let name := VariableName.candidate p.columns.length 0
  let d : Model.VariableDraft := ⟨kind, Program.boundOf l u, c⟩
  have hencode := Bound.encode_of_not_hasNaN hbounds
  have hbinary : kind ≠ .binary := by cases integer <;> exact nofun
  have hd : Model.VariableDraft.read (.text (Choice.name kind)) (.float c) (.float l) (.float u) = .ok d := by
    rw [Model.VariableDraft.read_floats, hencode]
    rfl
  -- the description was read and a name picked, so that nothing can fail any more
  have hadd := Model.on_addVariable_of_picked h.compliant h.found h.unfreed h.owned hd (h.on_pickNames hcount)
  rw [h.columnCount] at hadd
  have howned := owns_edit (m := m) h.owned d [name] (Model.grown m q.columnCount [name] d.kind)
  have hrepresents := h.represents.grow (c := .given (integer, c, l, u)) h.owned.kind m [name] (d := d) rfl
    (if_neg hbinary).symm rfl hencode
  rw [Problem.applyAll_newVariablesCalls h.owned.kind] at hrepresents
  rw [h.columnCount] at howned hrepresents
  refine ⟨_, Model.grown m p.columns.length [name] d.kind model, q.extended d [name], hadd, ?_, rfl⟩
  exact
    { compliant := (h.compliant.afterAll _).modifyModel m _
      found := model?_edit h.found _ _
      unfreed := h.unfreed
      owned := howned
      represents := { hrepresents with stores := hrepresents.stores.of_core }
      settled := h.settled.append (fun hk => absurd hk hbinary) 1
      names := by
        rw [List.length_append]
        exact (congrArg (· ++ [name]) h.names).trans (VariableName.generated_succ _).symm
      stored := by
        rw [Problem.columnNames_extended h.owned.kind, h.stored, List.length_append]
        exact (VariableName.generated_succ _).symm }

/-- A condition without NaN among its bounds, and with terms in columns that there are, is added. -/
theorem addCondition (h : w.Builds m model n q p) {c : Program.Condition}
    (hterms : ∀ t ∈ c.terms, t.1 < p.columns.length) (hbounds : ¬ Bound.HasNaN c.lower c.upper) :
    ∃ w' model' q', (Model.addConstraint m (.float c.lower) (.float c.upper)
        (c.terms.map fun t => .variable ⟨m, t.1⟩) (c.terms.map fun t => .float t.2)).on w = (.ok (), w') ∧
      w'.Builds m model' n q' { p with conditions := p.conditions ++ [c] } ∧ model'.engine = model.engine := by
  let vars : List Variable := c.terms.map fun t => ⟨m, t.1⟩
  let cs : List Float := c.terms.map (·.2)
  have hencode : Bound.encode c.lower c.upper = .ok c.bound := Bound.encode_of_not_hasNaN hbounds
  have hkinds : model.kinds.length = p.columns.length := by rw [h.represents.kinds, List.length_map]
  have hvars : ∀ v ∈ vars, v.model = m ∧ 0 ≤ v.index ∧ v.index < model.kinds.length := by
    intro v hv
    obtain ⟨t, ht, rfl⟩ := List.mem_map.mp hv
    have hlt := hterms t ht
    exact ⟨rfl, Int.natCast_nonneg _, Int.ofNat_lt.mpr (hkinds ▸ hlt)⟩
  have hnumbers : Bound.encodeNumbers (.float c.lower) (.float c.upper) = .ok c.bound := hencode
  have hcs : (c.terms.map fun t => Number.float t.2).mapM Number.toDouble = .ok cs := mapM_toDouble_float c.terms
  have hlengths : Model.checkLengths (vars.map .variable) (c.terms.map fun t => Number.float t.2) = .ok () := by
    unfold Model.checkLengths
    rw [if_pos (by simp [vars])]
  have hentered : (vars.map Variable.column).zip cs = c.terms.map fun t => ((t.1 : Int) + 1, t.2) := by
    rw [List.map_map, List.zip_map']
    rfl
  -- the engine gets the rows first, and then the model keeps their coefficients
  obtain ⟨-, hon⟩ := Model.on_addConstraint_of_checked h.found h.unfreed hlengths hnumbers hcs
    (Model.on_checkVariables_of_own hvars w)
  let bs := Engine.rowBounds model.engine.kind c.bound
  let calls := model.engine.rowsCalls q.rowCount bs
  have hfound : (w.afterAll calls).model? m = some model := by
    rw [afterAll_model?]
    exact h.found
  obtain ⟨l, hlast⟩ := Model.on_enterRows hfound ((vars.map Variable.column).zip cs)
    (Engine.rowNumbers q.rowCount bs.length)
  rw [on_bind_of_ok (Engine.on_addRow h.compliant h.owned c.bound), hlast, hentered] at hon
  have hrepresents := h.represents.constrain h.owned.kind hencode hterms
  have howned := h.owned.applyAll (h.owned.number ▸ Engine.isAbout_rowsCalls model.engine q.rowCount bs)
  rw [← afterAll_native] at howned
  let grow := Model.constrained (c.terms.map fun t => ((t.1 : Int) + 1, t.2)) (Engine.rowNumbers q.rowCount bs.length)
  have hfound' : ({ (w.afterAll calls).modifyModel m grow with writings := l } : World).model? m = some (grow model) :=
    model?_edit h.found calls grow
  have hargs : (c.terms.map fun t => VariableArgument.variable ⟨m, t.1⟩) = vars.map .variable := List.map_map.symm
  refine ⟨_, grow model, q.applyAll calls, hargs ▸ hon, ?_, rfl⟩
  exact
    { compliant := (h.compliant.afterAll calls).modifyModel m grow
      found := hfound'
      unfreed := h.unfreed
      owned := howned
      represents := { hrepresents with stores := hrepresents.stores.of_core }
      settled := h.settled
      names := h.names
      stored := (Problem.columnNames_applyAll (Engine.isNaming_rowsCalls _ _ _) q).trans h.stored }

end World.Builds

/-! ## §4 The start and the end -/

namespace World

variable {w w₁ : World} {m : ModelId} {model : Model} {n : Nat} {q : Problem} {p : Program}

/-- A model that was just made is under construction. -/
theorem builds_of_create (hs : w.Sound) {name : String} {direction : Datum} {options : List ModelOption}
    (h : (Model.create name direction options).on w = (.ok m, w₁)) :
    ∃ d model n q, w₁.Builds m model n q (Program.fresh d) := by
  rcases Model.create_cases hs name direction options with ⟨fault, hon⟩ | ⟨d, -, hcreation⟩
  · cases h.symm.trans hon
  rw [h] at hcreation
  rcases hcreation with ⟨fault, w', hon, -⟩ | ⟨fault, w', w'', kind, n, hon, -⟩ |
    ⟨w', w'', kind, n, hon, hmakes, hedits, -⟩
  · cases hon
  · cases hon
  cases hon
  -- the fresh problem is named and given its direction; neither is about columns
  obtain rfl := hmakes.eq_next rfl
  have hh := hedits.holds hmakes.holds_new rfl rfl
  obtain ⟨model, q, hm, hf, ho, hmodel, hq⟩ := hh.owns
  have hrepresents : model.core.Represents q.core (Program.fresh d) :=
    hmodel ▸ hq ▸ Model.Represents.made kind w.native.next name d
  have hnames : model.core.names = [] := by rw [hmodel]; rfl
  have hstored : q.core.columnNames = [] := by
    rw [hq, Problem.columnNames_core, Problem.columnNames_applyAll fun c hc =>
      Call.isNaming_of_isAttribute (Engine.isAttribute_namingCalls _ _ _ c hc)]
    cases kind <;> rfl
  exact ⟨d, model, _, q,
    { compliant := hedits.compliant
      found := hm
      unfreed := hf
      owned := ho
      represents :=
        { kinds := hrepresents.kinds
          stores := hrepresents.stores.of_core
          even := hrepresents.even
          entries := hrepresents.entries
          valid := hrepresents.valid }
      settled := by simp [Program.Settled, Program.fresh]
      names := hnames
      stored := (Problem.columnNames_core q).symm.trans hstored }⟩

/-- The model can be freed, and then its problem is deleted. -/
theorem Builds.on_free (h : w.Builds m model n q p) :
    ∃ w', (Model.free m).on w = (.ok (), w') ∧
      (w'.model? m).map (fun model => (model.freed, model.engine.problem)) = some (true, none) ∧
      w'.native.problem? n = some .deleted := by
  refine ⟨_, Model.on_free (h.compliant.grants _) h.found h.unfreed h.owned.problem, ?_, ?_⟩
  · -- the model stays, freed and without a problem
    have hfound : (Model.afterFree w m model).model? m =
        some { model with engine := { model.engine with problem := none }, freed := true } :=
      model?_edit h.found [Model.deleteCall model.engine] _
    rw [hfound]
    rfl
  · rw [Model.native_afterFree, h.owned.number, Store.problem?_modify, if_pos rfl, h.owned.found]
    rfl

end World

/-! ## §5 All columns, then all rows -/

namespace Model

/-- With NaN among its bounds, no variable is added. -/
theorem on_addVariable_of_hasNaN (m : ModelId) (kind : VariableKind) (c : Float) {l u : Float}
    (h : Bound.HasNaN l u) (w : World) :
    (addVariable m "" (.text (Choice.name kind)) (.float c) (.float l) (.float u)).on w =
      (.error (.nanBound l u), w) := by
  unfold addVariable
  rw [VariableDraft.read_floats, Bound.encode_of_hasNaN h]
  exact on_bind_of_error (on_lift _ w) _

/-- With NaN among its bounds, no constraint is added. -/
theorem on_addConstraint_of_hasNaN (m : ModelId) {l u : Float} (h : Bound.HasNaN l u) {vars : List VariableArgument}
    {cs : List Number} (hlengths : vars.length = cs.length) (w : World) :
    (addConstraint m (.float l) (.float u) vars cs).on w = (.error (.nanBound l u), w) := by
  have hnumbers : Bound.encodeNumbers (.float l) (.float u) = .error (.nanBound l u) := Bound.encode_of_hasNaN h
  unfold addConstraint checkLengths
  rw [if_pos hlengths, hnumbers, on_bind_of_ok (on_lift _ w)]
  exact on_bind_of_error (on_lift _ w) _

/-- The columns of a row are looked up among all variables. -/
theorem rowVariables_eq (m : ModelId) {A : Compressed} {i width : Nat} (h : ∀ t ∈ A.row i, 0 ≤ t.1 ∧ t.1 < width) :
    rowVariables (newVariables m 0 width) (A.row i) = .ok ((A.terms i).map fun t => .variable ⟨m, t.1⟩) := by
  unfold Compressed.terms
  generalize A.row i = row at h ⊢
  -- each column number in range picks the variable of that column
  induction row with
  | nil => rfl
  | cons t rest ih =>
    obtain ⟨hfirst, hlast⟩ := h t (List.mem_cons_self ..)
    have hplace : place? (newVariables m 0 width).length t.1 = some t.1.toNat := by
      unfold place? newVariables
      rw [List.length_map, List.length_range, if_pos hfirst, if_pos (by omega)]
    have hvariable : (newVariables m 0 width)[t.1.toNat]? = some ⟨m, t.1.toNat⟩ := by
      have hlt : t.1.toNat < width := by omega
      simp [newVariables, hlt]
    unfold rowVariables
    rw [hplace, Option.bind_some, hvariable, ih fun t ht => h t (List.mem_cons_of_mem _ ht)]
    rfl

end Model

namespace World.Builds

variable {w : World} {m : ModelId} {model : Model} {n : Nat} {q : Problem} {p : Program}

/-- Columns without NaN among their bounds are all added. -/
theorem addColumns (h : w.Builds m model n q p) {columns : List (Bool × Float × Float × Float)}
    (hcount : p.columns.length + columns.length < 2 ^ 63)
    (hbounds : ∀ x ∈ columns, ¬ Bound.HasNaN x.2.2.1 x.2.2.2) :
    let vars := Model.newVariables m p.columns.length columns.length
    ∃ w' model' q', (Model.addArrayColumns m columns).on w = (.ok vars, w') ∧
      w.Answers (columns.map (Operation.addColumn m)) (vars.map fun v => .variables [v]) w' ∧
      w'.Builds m model' n q' { p with columns := p.columns ++ columns.map Program.Column.given } ∧
      model'.engine = model.engine := by
  -- what is left of the columns gets shorter while the program grows, and `Builds` holds at every point
  induction columns generalizing w model q p with
  | nil => exact ⟨w, model, q, rfl, .nil w, by simpa using h, rfl⟩
  | cons column rest ih =>
    obtain ⟨integer, c, l, u⟩ := column
    rw [List.length_cons] at hcount
    obtain ⟨w₁, model₁, q₁, hadd, h₁, hengine₁⟩ :=
      h.addColumn (by omega) integer c (hbounds _ (List.mem_cons_self ..))
    have hlength : (p.columns ++ [Program.Column.given (integer, c, l, u)]).length = p.columns.length + 1 := by simp
    obtain ⟨w', model', q', hon, hanswers, h', hengine⟩ :=
      ih h₁ (by dsimp only; omega) fun x hx => hbounds x (List.mem_cons_of_mem _ hx)
    dsimp only at hon hanswers h'
    rw [hlength, Nat.cast_succ] at hon hanswers
    rw [List.append_assoc, List.singleton_append] at h'
    refine ⟨w', model', q', ?_, ?_, h', hengine.trans hengine₁⟩
    · unfold Model.addArrayColumns
      rw [on_bind_of_ok hadd, on_bind_of_ok hon, List.length_cons, Model.newVariables_succ]
      rfl
    · rw [List.length_cons, Model.newVariables_succ]
      exact .cons (f := fun v => .variables [v]) rfl hadd hanswers

/-- With NaN among the bounds of a column, adding the columns fails there. -/
theorem addColumns_of_hasNaN (h : w.Builds m model n q p) {columns : List (Bool × Float × Float × Float)}
    (hcount : p.columns.length + columns.length < 2 ^ 63)
    (hbounds : ∃ x ∈ columns, Bound.HasNaN x.2.2.1 x.2.2.2) :
    ∃ l u w' model' q' p', (Model.addArrayColumns m columns).on w = (.error (.nanBound l u), w') ∧
      w'.Builds m model' n q' p' := by
  induction columns generalizing w model q p with
  | nil => exact absurd hbounds (by simp)
  | cons column rest ih =>
    obtain ⟨integer, c, l, u⟩ := column
    unfold Model.addArrayColumns
    by_cases hfirst : Bound.HasNaN l u
    · -- the bad pair is refused before the engine sees it
      exact ⟨l, u, w, model, q, p, on_bind_of_error (Model.on_addVariable_of_hasNaN m _ c hfirst w) _, h⟩
    · rw [List.length_cons] at hcount
      obtain ⟨w₁, model₁, q₁, hadd, h₁, -⟩ := h.addColumn (by omega) integer c hfirst
      -- this column is sound and is added, so the bad one lies behind it
      have hrest := ((List.exists_mem_cons_iff ..).mp hbounds).resolve_left hfirst
      obtain ⟨l', u', w', model', q', p', hon, h'⟩ :=
        ih h₁ (by dsimp only; rw [List.length_append, List.length_singleton]; omega) hrest
      exact ⟨l', u', w', model', q', p', by rw [on_bind_of_ok hadd, on_bind_of_error hon], h'⟩

variable {A : Compressed}

/-- Rows without NaN among their bounds are all added, each with what stands in it. -/
theorem addRows (h : w.Builds m model n q p) (hA : ∀ i, ∀ t ∈ A.row i, 0 ≤ t.1 ∧ t.1 < p.columns.length)
    {rows : List (Float × Float)} (hbounds : ∀ b ∈ rows, ¬ Bound.HasNaN b.1 b.2) (i : Nat) :
    let conditions := Program.Condition.given A i rows
    ∃ w' model' q',
      (Model.addArrayRows m A (Model.newVariables m 0 p.columns.length) i rows).on w = (.ok (), w') ∧
      w.Answers (conditions.map (Operation.addCondition m)) (conditions.map fun _ => .done) w' ∧
      w'.Builds m model' n q' { p with conditions := p.conditions ++ conditions } ∧
      model'.engine = model.engine := by
  -- on the rows still to add; `i` is the number of the next one
  induction rows generalizing w model q p i with
  | nil => exact ⟨w, model, q, rfl, .nil w, by simpa [Program.Condition.given] using h, rfl⟩
  | cons bounds rest ih =>
    let c : Program.Condition := ⟨bounds.1, bounds.2, A.terms i⟩
    obtain ⟨w₁, model₁, q₁, hadd, h₁, hengine₁⟩ :=
      h.addCondition (c := c) (Compressed.terms_lt (hA i)) (hbounds _ (List.mem_cons_self ..))
    obtain ⟨w', model', q', hon, hanswers, h', hengine⟩ :=
      ih h₁ hA (fun b hb => hbounds b (List.mem_cons_of_mem _ hb)) (i + 1)
    dsimp only at hon h'
    -- the conditions stand in the order of the rows
    rw [List.append_assoc, List.singleton_append] at h'
    refine ⟨w', model', q', ?_, ?_, h', hengine.trans hengine₁⟩
    · unfold Model.addArrayRows
      dsimp only
      rw [Model.rowVariables_eq m (hA i), on_bind_of_ok (on_lift _ w), A.map_float_row, on_bind_of_ok hadd, hon]
    · exact .cons (f := fun _ => .done) rfl hadd hanswers

/-- With NaN among the bounds of a row, adding the rows fails there. -/
theorem addRows_of_hasNaN (h : w.Builds m model n q p)
    (hA : ∀ i, ∀ t ∈ A.row i, 0 ≤ t.1 ∧ t.1 < p.columns.length) {rows : List (Float × Float)}
    (hbounds : ∃ b ∈ rows, Bound.HasNaN b.1 b.2) (i : Nat) :
    ∃ l u w' model' q' p',
      (Model.addArrayRows m A (Model.newVariables m 0 p.columns.length) i rows).on w =
        (.error (.nanBound l u), w') ∧
      w'.Builds m model' n q' p' := by
  induction rows generalizing w model q p i with
  | nil => exact absurd hbounds (by simp)
  | cons bounds rest ih =>
    let c : Program.Condition := ⟨bounds.1, bounds.2, A.terms i⟩
    unfold Model.addArrayRows
    dsimp only
    rw [Model.rowVariables_eq m (hA i), on_bind_of_ok (on_lift _ w), A.map_float_row]
    by_cases hfirst : Bound.HasNaN bounds.1 bounds.2
    · -- refused, with the rows before it in place
      exact ⟨_, _, w, model, q, p,
        on_bind_of_error (Model.on_addConstraint_of_hasNaN m hfirst (by simp) w) _, h⟩
    · obtain ⟨w₁, model₁, q₁, hadd, h₁, -⟩ := h.addCondition (c := c) (Compressed.terms_lt (hA i)) hfirst
      have hrest := ((List.exists_mem_cons_iff ..).mp hbounds).resolve_left hfirst
      obtain ⟨l, u, w', model', q', p', hon, h'⟩ := ih h₁ hA hrest (i + 1)
      exact ⟨l, u, w', model', q', p', by rw [on_bind_of_ok hadd, hon], h'⟩

/-- Columns and rows without NaN among their bounds are all added to a new model. -/
theorem addAll {d : Direction} (h : w.Builds m model n q (Program.fresh d)) (hA : A.Sized)
    {columns : List (Bool × Float × Float × Float)} {rows : List (Float × Float)} (hwidth : columns.length = A.width)
    (hcount : A.width < 2 ^ 63) (hcolumns : ∀ x ∈ columns, ¬ Bound.HasNaN x.2.2.1 x.2.2.2)
    (hrows : ∀ b ∈ rows, ¬ Bound.HasNaN b.1 b.2) :
    let conditions := Program.Condition.given A 0 rows
    ∃ w' model' q', (Model.addArrayColumns m columns >>= fun vars => Model.addArrayRows m A vars 0 rows).on w =
        (.ok (), w') ∧
      w.Answers (columns.map (Operation.addColumn m) ++ conditions.map (Operation.addCondition m))
        (((Model.newVariables m 0 A.width).map fun v => .variables [v]) ++ conditions.map fun _ => .done) w' ∧
      w'.Builds m model' n q' ⟨d, columns.map Program.Column.given, conditions⟩ ∧ model'.engine = model.engine := by
  obtain ⟨w₁, model₁, q₁, hfirst, hanswers₁, h₁, hengine₁⟩ :=
    h.addColumns (by rw [hwidth]; simpa [Program.fresh] using hcount) hcolumns
  -- the rows are written over exactly the columns just added
  have hlength : (columns.map Program.Column.given).length = A.width := (List.length_map _).trans hwidth
  obtain ⟨w', model', q', hsecond, hanswers, h', hengine⟩ :=
    h₁.addRows (fun i t ht => hlength ▸ hA.mem_row ht) hrows 0
  rw [hwidth] at hfirst hanswers₁
  have hsecond : (Model.addArrayRows m A (Model.newVariables m 0 A.width) 0 rows).on w₁ = (.ok (), w') :=
    hlength ▸ hsecond
  exact ⟨w', model', q', (on_bind_of_ok hfirst _).trans hsecond, hanswers₁.append hanswers, h', hengine.trans hengine₁⟩

/-- With NaN among the bounds of a column or a row, adding them all fails there. -/
theorem addAll_of_hasNaN {d : Direction} (h : w.Builds m model n q (Program.fresh d)) (hA : A.Sized)
    {columns : List (Bool × Float × Float × Float)} {rows : List (Float × Float)} (hwidth : columns.length = A.width)
    (hcount : A.width < 2 ^ 63)
    (hnan : (∃ b ∈ rows, Bound.HasNaN b.1 b.2) ∨ ∃ x ∈ columns, Bound.HasNaN x.2.2.1 x.2.2.2) :
    ∃ l u w' model' q' p',
      (Model.addArrayColumns m columns >>= fun vars => Model.addArrayRows m A vars 0 rows).on w =
        (.error (.nanBound l u), w') ∧
      w'.Builds m model' n q' p' := by
  have hcount' : (Program.fresh d).columns.length + columns.length < 2 ^ 63 := by
    rw [hwidth]
    simpa [Program.fresh] using hcount
  -- rows come after all columns, so that a column with NaN is found first
  by_cases hcolumns : ∃ x ∈ columns, Bound.HasNaN x.2.2.1 x.2.2.2
  · obtain ⟨l, u, w', model', q', p', hon, h'⟩ := h.addColumns_of_hasNaN hcount' hcolumns
    exact ⟨l, u, w', model', q', p', on_bind_of_error hon _, h'⟩
  · obtain ⟨w₁, model₁, q₁, hfirst, -, h₁, -⟩ :=
      h.addColumns hcount' fun x hx hnan => hcolumns ⟨x, hx, hnan⟩
    have hlength : (columns.map Program.Column.given).length = A.width := (List.length_map _).trans hwidth
    obtain ⟨l, u, w', model', q', p', hsecond, h'⟩ :=
      h₁.addRows_of_hasNaN (fun i t ht => hlength ▸ hA.mem_row ht) (hnan.resolve_right hcolumns) 0
    rw [hwidth] at hfirst
    have hsecond : (Model.addArrayRows m A (Model.newVariables m 0 A.width) 0 rows).on w₁ =
        (.error (.nanBound l u), w') := hlength ▸ hsecond
    exact ⟨l, u, w', model', q', p', (on_bind_of_ok hfirst _).trans hsecond, h'⟩

end World.Builds

end LinearProgram
