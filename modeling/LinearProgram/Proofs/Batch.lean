import LinearProgram.Proofs.Naming

/-!
# Variables in a batch and one by one

A batch of variables is named before any column is there: the positions are foretold, and each name that is
settled counts as taken for the names after it. Added one by one, the variables find their positions and the
taken names in the model. Both come to the same names, and so to the same columns.

States are compared apart from the record of the calls, which differ, and from the revision of the model, which
counts the additions.
-/

namespace LinearProgram

open Native LinearProgram.Action

/-! ## §1 States apart from calls and revisions -/

namespace World

variable {w w' : World} {m : ModelId} {n : Nat}

/-- The state without the record of the calls. -/
def silent (w : World) : World := { w with calls := #[] }

/-- The state without the record of the calls and without the revision of a model. -/
def unrevised (m : ModelId) (w : World) : World :=
  (w.modifyModel m fun model => { model with revision := 0 }).silent

/-- The state with further variables of a model, whose problem is `n`, from position `index` on. -/
def extended (m : ModelId) (n : Nat) (d : Model.VariableDraft) (index : Nat) (names : List String) (w : World) :
    World :=
  { w with native := w.native.modify n (·.extended d names) }.modifyModel m fun model =>
    Model.withColumns m index d.kind names.length { model with names := model.names ++ names }

/-- Adding variables neither looks at the revision nor changes it. -/
theorem unrevised_extended (m : ModelId) (n : Nat) (d : Model.VariableDraft) (index : Nat) (names : List String)
    (w : World) :
    (w.extended m n d index names).unrevised m = (w.unrevised m).extended m n d index names := by
  let bare : World := { w with native := w.native.modify n (·.extended d names), calls := #[] }
  let grow (model : Model) : Model :=
    Model.withColumns m index d.kind names.length { model with names := model.names ++ names }
  let reset (model : Model) : Model := { model with revision := 0 }
  -- growing the model and resetting its revision touch different fields
  calc (bare.modifyModel m grow).modifyModel m reset
      = bare.modifyModel m (reset ∘ grow) := modifyModel_modifyModel ..
    _ = bare.modifyModel m (grow ∘ reset) := rfl
    _ = (bare.modifyModel m reset).modifyModel m grow := (modifyModel_modifyModel ..).symm

theorem extended_nil (m : ModelId) (n : Nat) (d : Model.VariableDraft) (index : Nat) (w : World) :
    w.extended m n d index [] = w := by
  have hnative : w.native.modify n (·.extended d []) = w.native := by
    rw [Store.modify_congr fun q => Problem.extended_nil d q, Store.modify_id]
  -- no names, hence no new variables and no new columns
  have hmodel : (fun model : Model => Model.withColumns m index d.kind ([] : List String).length
      { model with names := model.names ++ [] }) = id := by
    funext model
    simp [Model.withColumns]
  rw [extended, hmodel, modifyModel_id, hnative]

/-- Adding some columns and then more is adding all of them. -/
theorem extended_extended (m : ModelId) (n : Nat) (d : Model.VariableDraft) (index : Nat) (xs ys : List String)
    (w : World) :
    (w.extended m n d index xs).extended m n d (index + xs.length) ys = w.extended m n d index (xs ++ ys) := by
  let bare : World := { w with native := (w.native.modify n (·.extended d xs)).modify n (·.extended d ys) }
  let grow (index : Nat) (names : List String) (model : Model) : Model :=
    Model.withColumns m index d.kind names.length { model with names := model.names ++ names }
  have hnative : bare = { w with native := w.native.modify n (·.extended d (xs ++ ys)) } := by
    have hcomp : ((fun q => q.extended d ys) ∘ fun q => q.extended d xs) =
        fun q : Problem => q.extended d (xs ++ ys) :=
      funext fun q => Problem.extended_extended d xs ys q
    simp only [bare, Store.modify_modify, hcomp]
  have hmodel : grow (index + xs.length) ys ∘ grow index xs = grow index (xs ++ ys) := by
    funext model
    simp [grow, Model.withColumns, Model.newVariables_add, List.replicate_append_replicate]
  -- the problem and the model are extended twice, each apart from the other
  calc (bare.modifyModel m (grow index xs)).modifyModel m (grow (index + xs.length) ys)
      = bare.modifyModel m (grow index (xs ++ ys)) := by rw [modifyModel_modifyModel, hmodel]
    _ = w.extended m n d index (xs ++ ys) := by rw [hnative]; rfl

/-- What adding variables leaves, apart from calls and revisions. -/
theorem unrevised_edit {model : Model} {q : Problem} (ho : model.engine.Owns w.native n q) (d : Model.VariableDraft)
    (names : List String) :
    ((w.afterAll (Model.newVariablesCalls model.engine d q.columnCount names)).modifyModel m
      (Model.grown m q.columnCount names d.kind)).unrevised m =
        (w.unrevised m).extended m n d q.columnCount names := by
  have hcalls := Model.isAbout_newVariablesCalls model.engine d q.columnCount names
  rw [ho.number] at hcalls
  -- all calls concern problem `n`, which they extend
  have hnative : (w.afterAll (Model.newVariablesCalls model.engine d q.columnCount names)).native =
      w.native.modify n (·.extended d names) := by
    rw [afterAll_native, Store.foldl_apply_of_isAbout hcalls]
    exact Store.modify_congr_of_problem? ho.found (Problem.applyAll_newVariablesCalls ho.kind d names)
  rw [← unrevised_extended, afterAll_eq]
  rw [afterAll_native] at hnative
  unfold unrevised
  rw [modifyModel_modifyModel, hnative, extended, modifyModel_modifyModel]
  rfl

/-- Asking for the number of columns leaves a trace in the record of the calls only. -/
theorem silent_after_columnCountCall (e : Engine) (w : World) : (w.after e.columnCountCall).silent = w.silent := by
  have hnative := Engine.native_after_columnCountCall e w
  unfold silent
  rw [hnative]
  rfl

theorem unrevised_after_columnCountCall (e : Engine) (w : World) :
    (w.after e.columnCountCall).unrevised m = w.unrevised m :=
  congrArg (·.modifyModel m fun model => { model with revision := 0 }) (silent_after_columnCountCall e w)

theorem model?_edit {model : Model} (hm : w.model? m = some model) (cs : List Call) (f : Model → Model) :
    ((w.afterAll cs).modifyModel m f).model? m = some (f model) := by
  have hmodel : w.models[m]? = some model := hm
  unfold model? modifyModel
  simp [Array.getElem?_modify, hmodel]

/-- The engine owns its problem with the new columns. -/
theorem owns_edit {model : Model} {q : Problem} (ho : model.engine.Owns w.native n q) (d : Model.VariableDraft)
    (names : List String) (f : Model → Model) :
    model.engine.Owns ((w.afterAll (Model.newVariablesCalls model.engine d q.columnCount names)).modifyModel m f).native
      n (q.extended d names) := by
  have hcalls := Model.isAbout_newVariablesCalls model.engine d q.columnCount names
  rw [ho.number] at hcalls
  have hall := ho.applyAll hcalls
  rw [Problem.applyAll_newVariablesCalls ho.kind, ← afterAll_native] at hall
  exact hall

end World

/-! ## §2 One by one -/

namespace Model

variable {w : World} {m : ModelId} {model : Model} {n : Nat} {q : Native.Problem} {stem : String} {kind : Datum}
  {coefficient lower upper : Number} {d : VariableDraft}

/-- The name that a variable of a batch is given for its position. -/
def stemmed (stem : String) (index : Nat) : String := if stem.isEmpty then "" else stem ++ toString index

/-- Add variables one by one, each under the name for the position that it will have. -/
def addOneByOne (m : ModelId) (stem : String) (kind : Datum) (coefficient lower upper : Number) :
    Nat → Action (List Variable)
  | 0 => pure []
  | count + 1 => do
    let index ← variableCount m
    let v ← addVariable m (stemmed stem index) kind coefficient lower upper
    return v :: (← addOneByOne m stem kind coefficient lower upper count)

/-- An open model is asked for its number of variables with one call. -/
theorem on_variableCount (h : w.Compliant) (hm : w.model? m = some model) (hf : model.freed = false)
    (ho : model.engine.Owns w.native n q) :
    (variableCount m).on w = (.ok q.columnCount, w.after model.engine.columnCountCall) := by
  unfold variableCount
  rw [on_bind_of_ok (on_openModel_of_open hm hf)]
  exact Engine.on_columnCount (h.grants _) ho

/-- The first name of a batch is settled as the name of a single variable is. -/
theorem on_pickNames_succ (e : Engine) (taken : List String) (given : Nat → String) (count index : Nat) :
    (∃ fault, (∀ w, (pickNames e taken (fun _ => given index) 1 index).on w = (.error fault, w)) ∧
      ∀ w, (pickNames e taken given (count + 1) index).on w = (.error fault, w)) ∨
    ∃ name r, (∀ w, (pickNames e taken (fun _ => given index) 1 index).on w = (.ok [name], w)) ∧
      (∀ w, (pickNames e (taken ++ [name]) given count (index + 1)).on w = (r, w)) ∧
      ∀ w, (pickNames e taken given (count + 1) index).on w = (r.map (name :: ·), w) := by
  cases hpick : VariableName.pick taken (given index) index with
  | error fault =>
    refine .inl ⟨fault, fun w => ?_, fun w => ?_⟩
    all_goals
      unfold pickNames
      rw [hpick]
      rfl
  | ok name =>
    -- whether the engine takes a name does not depend on the state
    obtain ⟨r, hcheck⟩ : ∃ r, ∀ w, (e.checkName name).on w = (r, w) := by
      unfold Engine.checkName
      cases e.kind with
      | glpk => exact ⟨_, fun w => Action.on_lift _ w⟩
      | lpsolve => exact ⟨.ok (), fun w => rfl⟩
    cases r with
    | error fault =>
      refine .inl ⟨fault, fun w => ?_, fun w => ?_⟩
      all_goals
        unfold pickNames
        rw [hpick, on_bind_of_ok (on_lift _ w), on_bind_of_error (hcheck w)]
    | ok =>
      obtain ⟨r, hrest, -⟩ := on_pickNames e (taken ++ [name]) given count (index + 1)
      refine .inr ⟨name, r, fun w => ?_, hrest, fun w => ?_⟩
      · unfold pickNames
        rw [hpick, on_bind_of_ok (on_lift _ w), on_bind_of_ok (hcheck w)]
        rfl
      · unfold pickNames
        rw [hpick, on_bind_of_ok (on_lift _ w), on_bind_of_ok (hcheck w), on_bind, hrest]
        cases r <;> rfl

/-- One variable under a name that can be settled. -/
theorem on_addVariable_of_picked (h : w.Compliant) (hm : w.model? m = some model) (hf : model.freed = false)
    (ho : model.engine.Owns w.native n q) (hd : VariableDraft.read kind coefficient lower upper = .ok d)
    {given name : String}
    (hpick : ∀ w, (pickNames model.engine model.names (fun _ => given) 1 q.columnCount).on w = (.ok [name], w)) :
    (addVariable m given kind coefficient lower upper).on w =
      (.ok ⟨m, q.columnCount⟩,
        (w.afterAll (newVariablesCalls model.engine d q.columnCount [name])).modifyModel m
          (grown m q.columnCount [name] d.kind)) := by
  obtain ⟨-, -, hadd⟩ := on_addColumns_of_picked h hm hf ho hpick d
  unfold addVariable
  rw [hd, on_bind_of_ok (on_lift _ w), on_bind_of_ok hadd]
  simp

/-- One variable under a name that cannot be settled. -/
theorem on_addVariable_of_refused (h : w.Compliant) (hm : w.model? m = some model) (hf : model.freed = false)
    (ho : model.engine.Owns w.native n q) (hd : VariableDraft.read kind coefficient lower upper = .ok d)
    {given : String} {fault : Fault}
    (hpick : ∀ w, (pickNames model.engine model.names (fun _ => given) 1 q.columnCount).on w = (.error fault, w)) :
    (addVariable m given kind coefficient lower upper).on w =
      (.error fault, w.after model.engine.columnCountCall) := by
  unfold addVariable
  rw [hd, on_bind_of_ok (on_lift _ w), on_bind_of_error (on_addColumns_of_refused h hm hf ho hpick d)]

/-- One variable after another, under the names that a batch of them would have. The induction is on the number of
variables, each of which leaves a state where the others are still to be named. -/
theorem on_addOneByOne (h : w.Compliant) (hm : w.model? m = some model) (hf : model.freed = false)
    (ho : model.engine.Owns w.native n q) (hd : VariableDraft.read kind coefficient lower upper = .ok d)
    {count : Nat} {r : Except Fault (List String)}
    (hpick : ∀ w, (pickNames model.engine model.names (stemmed stem) count q.columnCount).on w = (r, w)) :
    ∃ w', (addOneByOne m stem kind coefficient lower upper count).on w =
        (r.map fun _ => newVariables m q.columnCount count, w') ∧
      ∀ names, r = .ok names →
        w'.unrevised m = (w.unrevised m).extended m n d q.columnCount names ∧
        ∃ model', w'.model? m = some model' ∧ model'.revision = model.revision + count := by
  induction count generalizing w model q r with
  | zero =>
    obtain rfl : .ok [] = r := congrArg Prod.fst (hpick w)
    refine ⟨w, rfl, ?_⟩
    rintro names ⟨⟩
    exact ⟨(World.extended_nil ..).symm, model, hm, rfl⟩
  | succ count ih =>
    let w₀ := w.after model.engine.columnCountCall
    have hnative : w₀.native = w.native := Engine.native_after_columnCountCall _ w
    have ho₀ : model.engine.Owns w₀.native n q := hnative ▸ ho
    unfold addOneByOne
    rw [on_bind_of_ok (on_variableCount h hm hf ho)]
    rcases on_pickNames_succ model.engine model.names (stemmed stem) count q.columnCount with
      ⟨fault, hsingle, hbatch⟩ | ⟨name, r', hsingle, hrest, hbatch⟩
    · obtain rfl : r = .error fault := congrArg Prod.fst ((hpick w).symm.trans (hbatch w))
      exact ⟨_, on_bind_of_error (on_addVariable_of_refused (h.after _) hm hf ho₀ hd hsingle) _, nofun⟩
    · obtain rfl : r = r'.map (name :: ·) := congrArg Prod.fst ((hpick w).symm.trans (hbatch w))
      have hadd := on_addVariable_of_picked (w := w₀) (h.after _) hm hf ho₀ hd hsingle
      rw [on_bind_of_ok hadd]
      -- the state that the variables after this one find
      let w₁ := (w₀.afterAll (newVariablesCalls model.engine d q.columnCount [name])).modifyModel m
        (grown m q.columnCount [name] d.kind)
      have hm₁ : w₁.model? m = some (grown m q.columnCount [name] d.kind model) :=
        World.model?_edit (w := w₀) hm _ _
      have ho₁ := World.owns_edit (m := m) ho₀ d [name] (grown m q.columnCount [name] d.kind)
      have hnext : (q.extended d [name]).columnCount = q.columnCount + 1 :=
        Native.Problem.columnCount_extended ho.kind d [name]
      obtain ⟨w', hrun, hafter⟩ := ih (w := w₁) ((h.after _).afterAll _) hm₁ hf ho₁ (r := r') (by rwa [hnext])
      refine ⟨w', ?_, ?_⟩
      · rw [on_bind, hrun, hnext]
        cases r' with
        | error fault => rfl
        | ok names => simp [newVariables_succ]; rfl
      · intro names hnames
        cases r' with
        | error fault => cases hnames
        | ok rest =>
          cases hnames
          obtain ⟨hunrevised, model', hm', hrevision⟩ := hafter rest rfl
          refine ⟨?_, model', hm', ?_⟩
          · rw [hunrevised, World.unrevised_edit ho₀, hnext, World.unrevised_after_columnCountCall]
            exact World.extended_extended m n d q.columnCount [name] rest _
          · rw [hrevision]
            show model.revision + 1 + count = _
            omega

/-! ## §3 The batch -/

/-- **A batch is its variables one by one.** Whatever is asked of an open model, a batch of at least one variable and
the single additions in its place give the same answer. If it is the variables, both end in the same state, apart
from the calls and from the revision of the model, which the batch raises by one and the others by their number.
If it is a fault, the batch has added nothing. -/
theorem addVariables_oneByOne (hw : w.Reached) (hm : w.model? m = some model) (hf : model.freed = false)
    {count : Nat} (hcount : 0 < count) (stem : String) (kind : Datum) (coefficient lower upper : Number) :
    ∃ answer w₁ w₂, (addVariables m count stem kind coefficient lower upper).on w = (answer, w₁) ∧
      (addOneByOne m stem kind coefficient lower upper count).on w = (answer, w₂) ∧
      (∀ vars, answer = .ok vars → w₁.unrevised m = w₂.unrevised m ∧
        ∃ model₁ model₂, w₁.model? m = some model₁ ∧ model₁.revision = model.revision + 1 ∧
          w₂.model? m = some model₂ ∧ model₂.revision = model.revision + count) ∧
      ∀ fault, answer = .error fault → w₁.silent = w.silent := by
  have h : w.Compliant := hw.sound.compliant
  obtain ⟨n, q, -, ho⟩ := hw.sound.holds_of_model? hm hf
  unfold addVariables
  rw [if_neg (by omega)]
  cases hd : VariableDraft.read kind coefficient lower upper with
  | error fault =>
    -- the description is read before anything else, and so by the first single addition
    obtain ⟨count, rfl⟩ : ∃ k, count = k + 1 := ⟨count - 1, by omega⟩
    refine ⟨.error fault, w, w.after model.engine.columnCountCall, ?_, ?_, nofun, fun _ _ => rfl⟩
    · exact on_bind_of_error (on_lift _ w) _
    · unfold addOneByOne addVariable
      rw [on_bind_of_ok (on_variableCount h hm hf ho), hd, on_bind, on_bind_of_error (on_lift _ _)]
  | ok d =>
    obtain ⟨r, hpick, -⟩ := on_pickNames model.engine model.names (stemmed stem) count q.columnCount
    obtain ⟨w₂, hrun, hafter⟩ := on_addOneByOne h hm hf ho hd hpick
    rw [on_bind_of_ok (on_lift _ w), Int.toNat_natCast]
    cases r with
    | error fault =>
      refine ⟨.error fault, w.after model.engine.columnCountCall, w₂, on_addColumns_of_refused h hm hf ho hpick d,
        hrun, nofun, fun _ _ => World.silent_after_columnCountCall _ w⟩
    | ok names =>
      obtain ⟨-, -, hadd⟩ := on_addColumns_of_picked h hm hf ho hpick d
      obtain ⟨hsame, model₂, hm₂, hrevision⟩ := hafter names rfl
      refine ⟨.ok (newVariables m q.columnCount count), _, w₂, hadd, hrun, fun _ _ => ⟨?_, ?_⟩, nofun⟩
      · rw [World.unrevised_edit ho, hsame]
      · exact ⟨_, model₂, World.model?_edit hm _ _, rfl, hm₂, hrevision⟩

/-- Variables that users have named like generated ones stand in the way of both alike. -/
theorem oneByOne_of_lookalikes :
    let os : List Operation :=
      [.create "lookalikes" (.text "minimize") [], .addVariable 0 "V2" (.text "binary") .one .zero .one,
        .addVariable 0 "" (.text "integer") .one .zero .one]
    let w := World.initial.nextAll os
    ∃ model w₁ w₂, w.Reached ∧ w.model? 0 = some model ∧ model.freed = false ∧
      (addVariables 0 2 "" (.text "integer") .one .zero .one).on w = (.ok [⟨0, 2⟩, ⟨0, 3⟩], w₁) ∧
      (addOneByOne 0 "" (.text "integer") .one .zero .one 2).on w = (.ok [⟨0, 2⟩, ⟨0, 3⟩], w₂) ∧
      w₁.unrevised 0 = w₂.unrevised 0 ∧
      (w₂.model? 0).map (·.names) = some ["V2", "V1", "V2_1", "V3"] := by
  intro os w
  have hseen : (w.model? 0).map (·.freed) = some false := by decide +kernel
  obtain ⟨model, hm, hf⟩ := Option.map_eq_some_iff.mp hseen
  have hreached : w.Reached := ⟨os, rfl⟩
  obtain ⟨answer, w₁, w₂, hbatch, hsingles, hok, -⟩ :=
    addVariables_oneByOne hreached hm hf (show 0 < 2 by decide) "" (.text "integer") .one .zero .one
  have hanswer : ((addOneByOne 0 "" (.text "integer") .one .zero .one 2).on w).1.toOption =
      some [⟨0, 2⟩, ⟨0, 3⟩] := by decide +kernel
  have hnames : (((addOneByOne 0 "" (.text "integer") .one .zero .one 2).on w).2.model? 0).map (·.names) =
      some ["V2", "V1", "V2_1", "V3"] := by decide +kernel
  -- the batch and the single calls answer alike, so the evaluated answer is that of both
  rw [hsingles] at hanswer hnames
  obtain rfl : answer = .ok [⟨0, 2⟩, ⟨0, 3⟩] := World.eq_ok_of_toOption hanswer
  exact ⟨model, w₁, w₂, hreached, hm, hf, hbatch, hsingles, (hok _ rfl).1, hnames⟩

end Model

end LinearProgram
