import LinearProgram.Proofs.Twins.Engine

/-!
# Models of twins

What models, variables and results do with alike engines is alike. The theorems follow the operations from
their parts: each is the sequence of its steps, and an operation that finds its model open knows that it was
open from the start.
-/

namespace LinearProgram

open LinearProgram.Action

variable {π : Pairing} {v v' : World}

/-- What stands in a list of variables: variables of paired models at one position, or the same plain value. -/
inductive VariableArgument.Alike (π : Pairing) : VariableArgument → VariableArgument → Prop
  | variable {x x' : Variable} (h : x.Alike π x') : Alike π (.variable x) (.variable x')
  | plain (d : Datum) : Alike π (.plain d) (.plain d)

theorem Variable.Alike.column {x x' : Variable} (h : x.Alike π x') : x.column = x'.column :=
  congrArg (· + 1) h.index

/-- Lists that are related item by item have one image. -/
private theorem map_eq_map {α β γ : Type} {R : α → β → Prop} {f : α → γ} {g : β → γ} {l : List α} {l' : List β}
    (h : List.Forall₂ R l l') (hf : ∀ {a b}, R a b → f a = g b) : l.map f = l'.map g := by
  induction h with
  | nil => rfl
  | cons hr _ ih => rw [List.map_cons, List.map_cons, hf hr, ih]

/-! ## §1 Models -/

namespace Model

variable {m m' : ModelId}

theorem alike_isValid (hm : π.models m m') : Action.Alike (Twins π v v') Eq (isValid m) (isValid m') :=
  (alike_model hm).bind fun _ _ h => .pure (by rw [h.freed])

theorem alike_name (hm : π.models m m') : Action.Alike (Twins π v v') Eq (name m) (name m') :=
  (alike_openModel hm).bind fun _ _ h => h.engine.name

theorem alike_direction (hm : π.models m m') : Action.Alike (Twins π v v') Eq (direction m) (direction m') :=
  (alike_openModel hm).bind fun _ _ h => h.engine.direction

theorem alike_setDirection (hm : π.models m m') (d : Datum) :
    Action.Alike (Twins π v v') Eq (setDirection m d) (setDirection m' d) :=
  (Alike.lift _).step fun _ => (alike_openModel hm).bind fun _ _ h => h.engine.setDirection _

theorem alike_variableCount (hm : π.models m m') :
    Action.Alike (Twins π v v') Eq (variableCount m) (variableCount m') :=
  (alike_openModel hm).bind fun _ _ h => h.engine.columnCount

theorem alike_countConstraints (hm : π.models m m') :
    Action.Alike (Twins π v v') Eq (countConstraints m) (countConstraints m') :=
  (alike_openModel hm).bind fun _ _ h => .pure h.alike.constraintCount

theorem alike_listVariables (hm : π.models m m') :
    Action.Alike (Twins π v v') (List.Forall₂ (Variable.Alike π)) (listVariables m) (listVariables m') :=
  (alike_openModel hm).bind fun _ _ h => .pure h.alike.vars

theorem alike_constraintMatrix (hm : π.models m m') :
    Action.Alike (Twins π v v') Eq (constraintMatrix m) (constraintMatrix m') :=
  (alike_openModel hm).bind fun _ _ h => h.engine.rowCount.step fun _ => h.engine.columnCount.step fun _ => by
    rw [h.alike.entries]
    exact .lift _

theorem alike_touch (hm : π.models m m') : Action.Alike (Twins π v v') Eq (touch m) (touch m') :=
  alike_updateModel hm (fun _ => rfl) (fun _ => rfl) fun x x' h =>
    { h with revision := by show x.revision + 1 = x'.revision + 1 + π.shift; rw [h.revision]; omega }

/-- The same entries are assigned or refused on both sides. -/
theorem alike_assignParameters (hm : π.models m m') (entries : List (String × Datum)) :
    Action.Alike (Twins π v v') Eq (assignParameters m entries) (assignParameters m' entries) := by
  -- assigned one after the other; the first fault ends it on both sides
  induction entries with
  | nil => exact .pure rfl
  | cons entry rest ih =>
    refine (alike_model hm).bind fun x x' h => ?_
    rw [h.parameters]
    refine (Alike.lift _).step fun p => Alike.step ?_ fun _ => ih
    exact alike_updateModel hm (fun _ => rfl) (fun _ => rfl) fun _ _ h => { h with parameters := rfl }

/-! ## §2 Adding variables -/

/-- The same names are picked, as the same ones are taken. -/
theorem alike_pickNames {e e' : Engine} (he : e.Alike π e') (taken : List String) (given : Nat → String)
    (count index : Nat) :
    Action.Alike (Twins π v v') Eq (pickNames e taken given count index)
      (pickNames e' taken given count index) := by
  induction count generalizing taken index with
  | zero => exact .pure rfl
  | succ count ih =>
    exact (Alike.lift _).step fun name => (he.checkName name).step fun _ => (ih _ _).step fun _ => .pure rfl

theorem alike_setUpColumn (hm : π.models m m') {e e' : Engine} (he : e.Alike π e') (j : Int) (name : String)
    (d : VariableDraft) :
    Action.Alike (Twins π v v') (Variable.Alike π) (setUpColumn m e j name d) (setUpColumn m' e' j name d) := by
  refine (he.setColumnName j name).step fun _ => (he.setColumnKind j d.kind).step fun _ =>
    (he.setColumnBounds j _).step fun _ => (he.setObjective j d.coefficient).step fun _ => ?_
  refine Alike.step (alike_updateModel hm (fun _ => rfl) (fun _ => rfl) fun x x' h => ?_) fun _ => .pure ⟨hm, rfl⟩
  exact {
    h with
    kinds := congrArg (· ++ [d.kind]) h.kinds
    vars := List.rel_append h.vars (.cons ⟨hm, rfl⟩ .nil) }

theorem alike_setUpColumns (hm : π.models m m') {e e' : Engine} (he : e.Alike π e') (d : VariableDraft) (j : Int)
    (names : List String) :
    Action.Alike (Twins π v v') (List.Forall₂ (Variable.Alike π)) (setUpColumns m e d j names)
      (setUpColumns m' e' d j names) := by
  induction names generalizing j with
  | nil => exact .pure .nil
  | cons name rest ih =>
    exact (alike_setUpColumn hm he j name d).bind fun _ _ hx =>
      (ih (j + 1)).bind fun _ _ hxs => .pure (.cons hx hxs)

/-- **Adding columns** ends alike on both sides. -/
theorem alike_addColumns (hm : π.models m m') (count : Nat) (given : Nat → String) (d : VariableDraft) :
    Action.Alike (Twins π v v') (List.Forall₂ (Variable.Alike π)) (addColumns m count given d)
      (addColumns m' count given d) := by
  refine (alike_openModel hm).bind fun x x' h => h.engine.columnCount.step fun index => ?_
  rw [h.alike.names]
  -- equal names are reserved, so equal names are picked
  refine (alike_pickNames h.engine _ given count index).step fun names => ?_
  refine (h.engine.addColumns count).step fun first => ?_
  refine Alike.step (alike_updateModel hm (fun _ => rfl) (fun _ => rfl) fun _ _ h =>
    { h with names := congrArg (· ++ names) h.names }) fun _ => ?_
  exact (alike_setUpColumns hm h.engine d first names).bind fun _ _ hvars =>
    (alike_touch hm).step fun _ => .pure hvars

theorem alike_addVariable (hm : π.models m m') (name : String) (kind : Datum) (coefficient lower upper : Number) :
    Action.Alike (Twins π v v') (Variable.Alike π) (addVariable m name kind coefficient lower upper)
      (addVariable m' name kind coefficient lower upper) := by
  refine (Alike.lift _).step fun d => (alike_addColumns hm 1 _ d).bind fun vars vars' hvars => .pure ?_
  cases hvars with
  | nil => exact ⟨hm, rfl⟩
  | cons hx _ => exact hx

theorem alike_addVariables (hm : π.models m m') (count : Int) (stem : String) (kind : Datum)
    (coefficient lower upper : Number) :
    Action.Alike (Twins π v v') (List.Forall₂ (Variable.Alike π))
      (addVariables m count stem kind coefficient lower upper)
      (addVariables m' count stem kind coefficient lower upper) := by
  unfold addVariables
  split
  · exact .fail _
  · exact (Alike.lift _).step fun d => alike_addColumns hm _ _ d

end Model

/-! ## §3 Variables -/

namespace Variable.Alike

variable {x x' : Variable} (h : x.Alike π x')

include h

theorem name : Action.Alike (Twins π v v') Eq x.name x'.name := by
  refine (alike_openModel h.model).bind fun _ _ ho => ?_
  rw [h.column]
  exact ho.engine.columnName _

theorem kind : Action.Alike (Twins π v v') Eq x.kind x'.kind := by
  refine (alike_openModel h.model).bind fun model model' ho => ?_
  rw [ho.alike.kinds, h.index]
  split
  · exact .pure rfl
  · exact .fail _

/-- The kind is noted under the place of the variable, on both sides. -/
theorem setKind (kind : Datum) : Action.Alike (Twins π v v') Eq (x.setKind kind) (x'.setKind kind) := by
  refine (Alike.lift _).step fun k => (alike_openModel h.model).bind fun model model' ho => ?_
  rw [h.column]
  refine (ho.engine.setColumnKind _ k).step fun _ => ?_
  have hput (i : Nat) : Action.Alike (Twins π v v') Eq
      (Action.updateModel x.model fun model => { model with kinds := model.kinds.set i k })
      (Action.updateModel x'.model fun model => { model with kinds := model.kinds.set i k }) :=
    alike_updateModel h.model (fun _ => rfl) (fun _ => rfl) fun y y' hy =>
      { hy with kinds := congrArg (fun kinds : List VariableKind => kinds.set i k) hy.kinds }
  dsimp only
  rw [ho.alike.kinds, h.index]
  -- in both cases the kind is put in its place last, if there is a place for it
  by_cases hbinary : k = .binary
  · rw [if_pos hbinary, if_pos hbinary]
    refine (ho.engine.setColumnBounds _ _).step fun _ => ?_
    cases place? model'.kinds.length x'.index with
    | some i => exact hput i
    | none => exact .fail _
  · rw [if_neg hbinary, if_neg hbinary]
    cases place? model'.kinds.length x'.index with
    | some i => exact hput i
    | none => exact .fail _

theorem bounds : Action.Alike (Twins π v v') Eq x.bounds x'.bounds := by
  refine h.kind.step fun k => ?_
  split
  · exact .pure rfl
  · refine (alike_openModel h.model).bind fun _ _ ho => ?_
    rw [h.column]
    exact ho.engine.columnBounds _

theorem setBounds (lower upper : Number) :
    Action.Alike (Twins π v v') Eq (x.setBounds lower upper) (x'.setBounds lower upper) := by
  refine (Alike.lift _).step fun bound => h.kind.step fun k => ?_
  split
  · exact alike_debug _ _ _ _
  · refine (alike_openModel h.model).bind fun _ _ ho => ?_
    rw [h.column]
    exact ho.engine.setColumnBounds _ _

theorem coefficient : Action.Alike (Twins π v v') Eq x.coefficient x'.coefficient := by
  refine (alike_openModel h.model).bind fun _ _ ho => ?_
  rw [h.column]
  exact ho.engine.objective _

theorem setCoefficient (coefficient : Number) :
    Action.Alike (Twins π v v') Eq (x.setCoefficient coefficient) (x'.setCoefficient coefficient) := by
  refine (Alike.lift _).step fun c => (alike_openModel h.model).bind fun _ _ ho => ?_
  rw [h.column]
  exact ho.engine.setObjective _ _

theorem display : Action.Alike (Twins π v v') Eq x.display x'.display := by
  refine (Model.alike_isValid h.model).step fun valid => ?_
  rw [h.index]
  cases valid with
  | true => exact h.name.step fun _ => .pure rfl
  | false => exact .pure rfl

end Variable.Alike

/-! ## §4 The objective and the constraints -/

namespace Model

variable {m m' : ModelId}

/-- The first foreign variable stands at the same place on both sides. -/
theorem alike_checkVariables (hm : π.models m m') (count : Nat) {arguments arguments' : List VariableArgument}
    (h : List.Forall₂ (VariableArgument.Alike π) arguments arguments') :
    Action.Alike (Twins π v v') (List.Forall₂ (Variable.Alike π)) (checkVariables m count arguments)
      (checkVariables m' count arguments') := by
  induction h with
  | nil => exact .pure .nil
  | cons hx _ ih =>
    cases hx with
    | plain d => exact .fail _
    | @«variable» x x' hx =>
      unfold checkVariables
      -- own variables are paired with own ones
      have hiff : (x.model = m ∧ 0 ≤ x.index ∧ x.index < count) ↔
          (x'.model = m' ∧ 0 ≤ x'.index ∧ x'.index < count) := by
        rw [π.models_iff hx.model hm, hx.index]
      by_cases hown : x.model = m ∧ 0 ≤ x.index ∧ x.index < count
      · rw [if_pos hown, if_pos (hiff.mp hown)]
        exact ih.bind fun _ _ hxs => .pure (.cons hx hxs)
      · rw [if_neg hown, if_neg (fun h => hown (hiff.mpr h))]
        -- refused with the same text, for which the same name is asked
        exact hx.display.step fun _ => .fail _

theorem alike_setObjectives {e e' : Engine} (he : e.Alike π e') {vars vars' : List Variable}
    (h : List.Forall₂ (Variable.Alike π) vars vars') (cs : List Float) :
    Action.Alike (Twins π v v') Eq (setObjectives e (vars.zip cs)) (setObjectives e' (vars'.zip cs)) := by
  -- along the variables; coefficients may run out first
  induction h generalizing cs with
  | nil => exact .pure rfl
  | cons hx _ ih =>
    cases cs with
    | nil => exact .pure rfl
    | cons c cs =>
      unfold setObjectives
      rw [List.zip_cons_cons, List.zip_cons_cons]
      dsimp only
      rw [hx.column]
      exact (he.setObjective _ c).step fun _ => ih cs

/-- Lists of arguments that go together have one length. -/
theorem checkLengths_congr {arguments arguments' : List VariableArgument}
    (h : List.Forall₂ (VariableArgument.Alike π) arguments arguments') (cs : List Number) :
    checkLengths arguments cs = checkLengths arguments' cs := by
  unfold checkLengths
  rw [h.length_eq]

/-- **Setting the objective** ends alike on both sides. -/
theorem alike_setObjective (hm : π.models m m') (cs : List Number) {arguments arguments' : List VariableArgument}
    (h : List.Forall₂ (VariableArgument.Alike π) arguments arguments') :
    Action.Alike (Twins π v v') Eq (setObjective m cs arguments) (setObjective m' cs arguments') := by
  unfold setObjective
  rw [checkLengths_congr h]
  refine (Alike.lift _).step fun _ => (Alike.lift _).step fun cs => (alike_openModel hm).bind fun x x' ho => ?_
  rw [ho.alike.kinds]
  exact (alike_checkVariables hm _ h).bind fun _ _ hvars => alike_setObjectives ho.engine hvars cs

theorem alike_appendRows (hm : π.models m m') (columns cs : List Number) (rows : List Int) :
    Action.Alike (Twins π v v') Eq (appendRows m columns cs rows) (appendRows m' columns cs rows) := by
  induction rows with
  | nil => exact .pure rfl
  | cons i rest ih =>
    unfold appendRows
    refine (alike_model hm).bind fun x x' h => ?_
    rw [h.entries]
    dsimp only
    refine Alike.step (alike_updateModel hm (fun _ => rfl) (fun _ => rfl) fun _ _ h => { h with entries := rfl })
      fun _ => ?_
    split
    · exact .fail _
    · exact ih

/-- **Adding a constraint** ends alike on both sides. -/
theorem alike_addConstraint (hm : π.models m m') (lower upper : Number)
    {arguments arguments' : List VariableArgument}
    (h : List.Forall₂ (VariableArgument.Alike π) arguments arguments') (cs : List Number) :
    Action.Alike (Twins π v v') Eq (addConstraint m lower upper arguments cs)
      (addConstraint m' lower upper arguments' cs) := by
  unfold addConstraint
  rw [checkLengths_congr h]
  refine (Alike.lift _).step fun _ => (Alike.lift _).step fun bound => (Alike.lift _).step fun cs => ?_
  refine (alike_openModel hm).bind fun x x' ho => ?_
  rw [ho.alike.kinds]
  refine (alike_checkVariables hm _ h).bind fun vars vars' hvars => (ho.engine.addRow bound).step fun rows => ?_
  -- paired variables have the same columns
  have hcolumns : vars.map (fun v => Number.int v.column) = vars'.map fun v => Number.int v.column :=
    map_eq_map hvars fun hx => congrArg Number.int hx.column
  rw [hcolumns]
  refine (alike_appendRows hm _ _ rows).step fun _ => ?_
  -- no rows: nothing to count
  split
  · exact (alike_debug _ _ _ _).step fun _ => alike_touch hm
  · refine Alike.step ?_ fun _ => alike_touch hm
    exact alike_updateModel hm (fun _ => rfl) (fun _ => rfl) fun _ _ h =>
      { h with constraintCount := congrArg (· + 1) h.constraintCount }

end Model

/-! ## §5 Solving -/

/-- Telling lp_solve something answers and leaves the models alone, whether it listens or not. -/
theorem LpSolve.on_tell_models (c : LpSolve.Call) (w : World) :
    ∃ u, (LpSolve.tell c).on w = (.ok (), u) ∧ u.models = w.models := by
  unfold LpSolve.tell
  rw [on_bind, on_call]
  cases spend (Native.Call.lpsolve c).function w.allowance with
  | none => exact ⟨w, rfl, rfl⟩
  | some allowance => exact ⟨_, rfl, rfl⟩

namespace Model

variable {m m' : ModelId}

theorem alike_interpret (report : EngineReport) :
    Action.Alike (Twins π v v') Eq (interpret report) (interpret report) := by
  unfold interpret
  cases report with
  | known o => exact Alike.lift _
  | undocumented engine code => exact (alike_logError _ _ _ _).step fun _ => .lift _

/-- The same method is noted, as the kinds are the same. -/
theorem alike_noteMethod {x x' : Model} (hk : x.engine.kind = x'.engine.kind) (given : Option Datum) :
    Action.Alike (Twins π v v') Eq (noteMethod x given) (noteMethod x' given) := by
  unfold noteMethod
  cases given with
  | none => exact .pure rfl
  | some d =>
    dsimp only
    rw [hk]
    split
    · exact .pure rfl
    · exact alike_debug _ _ _ _

theorem alike_prepare {x x' : Model} (ho : OpenAlike π v v' m m' x x') (given : Option Datum) :
    Action.Alike (Twins π v v') Eq (prepare x given) (prepare x' given) := by
  -- the method depends on kinds and parameters, which agree
  have hsetting : resolveMethod x given = resolveMethod x' given := by
    unfold resolveMethod
    rw [ho.alike.kinds, ho.alike.parameters]
  unfold prepare
  rw [hsetting, ho.alike.entries]
  exact (Alike.lift _).step fun setting => (Alike.lift _).step fun triplets =>
    (ho.engine.loadMatrix triplets).step fun _ => (Alike.lift _).step fun method =>
      (alike_debug _ _ _ _).step fun _ => .pure rfl

theorem alike_conclude (hm : π.models m m') (method : Method) (report : EngineReport) :
    Action.Alike (Twins π v v') (SolveResult.Alike π) (conclude m method report) (conclude m' method report) := by
  refine (alike_touch hm).step fun _ => (alike_model hm).bind fun y y' hy => ?_
  refine Alike.step (alike_debug _ _ _ _) fun _ => Alike.step (alike_interpret report) fun status => ?_
  exact Alike.pure ⟨hm, hy.revision, rfl, rfl⟩

/-- A prepared solve ends alike on both sides. -/
theorem alike_finish (hm : π.models m m') {x x' : Model} (ho : OpenAlike π v v' m m' x x') (method : Method) :
    Action.Alike (Twins π v v') (SolveResult.Alike π) (finish m x method) (finish m' x' method) := by
  unfold finish
  rw [ho.alike.parameters]
  have htarget : (Target.model m).outline = (Target.model m').outline := rfl
  exact Alike.step (alike_registered htarget fun h => ho.engine.solve method _ _) fun report =>
    alike_conclude hm method report

/-- **Solving** ends alike on both sides. -/
theorem alike_solve (hm : π.models m m') (given : Option Datum) :
    Action.Alike (Twins π v v') (SolveResult.Alike π) (solve m given) (solve m' given) :=
  (alike_openModel hm).bind fun _ _ ho => (alike_noteMethod ho.engine.kind given).step fun _ =>
    (alike_prepare ho given).step fun method => alike_finish hm ho method

/-- What is told of a fault depends on the context only. -/
theorem alike_retell (c : ContextId) (fault : Fault) :
    Action.Alike (Twins π v v') (SolveResult.Alike π) (retell c fault) (retell c fault) := by
  unfold retell
  split
  · refine (alike_contextError c).step fun cause => ?_
    -- the fault retold, or the one there was
    cases cause with
    | some cause => exact .fail _
    | none => exact .fail _
  · exact .fail _

/-- An engine that was found may be put back with another handle, if both twins get the same. -/
private theorem twins_putEngine (hm : π.models m m') {w w' : World} {x x' : Model} (hr : Twins π v v' w w')
    (hx : w.model? m = some x) (hx' : w'.model? m' = some x') (he : x.engine.Alike π x'.engine) {e e' : Engine}
    (hp : e.problem = x.engine.problem) (hk : e.kind = x.engine.kind) (hp' : e'.problem = x'.engine.problem)
    (hk' : e'.kind = x'.engine.kind) (habort : e.abort = e'.abort) :
    Agree Eq (.ok ()) (.ok () : Except Fault Unit) ∧
      Twins π v v' (w.modifyModel m fun model => { model with engine := e })
        (w'.modifyModel m' fun model => { model with engine := e' }) := by
  refine ⟨.ok rfl, hr.trans (.of_modifyModel hr.alike hm ?_ ?_ ?_)⟩
  · intro y hy
    -- the model changed is the one that was read
    cases hx.symm.trans hy
    simp [Model.owner, hp, hk]
  · intro y hy
    cases hx'.symm.trans hy
    simp [Model.owner, hp', hk']
  · intro y y' hy hy' h
    cases hx.symm.trans hy
    cases hx'.symm.trans hy'
    refine { h with engine := fun _ => ⟨hk.trans (he.kind.trans hk'.symm), ?_, habort⟩ }
    simpa [Engine.number, hp, hp'] using he.number

/-- The handle for polls is put into the engine; on lp_solve, the problem keeps it. -/
theorem alike_setAbort (hm : π.models m m') (hv : v.Open m) (hv' : v'.Open m') (handle : Option Handle) :
    Action.Alike (Twins π v v') Eq (setAbort m handle) (setAbort m' handle) := by
  intro w w' hr
  obtain ⟨x, hx, hf⟩ := (hr.left.open_iff m).mpr hv
  obtain ⟨x', hx', hf'⟩ := (hr.right.open_iff m').mpr hv'
  have he : x.engine.Alike π x'.engine := by
    have hsame := hr.alike.models hm
    rw [hx, hx'] at hsame
    cases hsame with
    | some h => exact h.engine hf
  unfold setAbort
  rw [on_bind_of_ok (on_model_of_some hx), on_bind_of_ok (on_model_of_some hx')]
  cases hk : x.engine.kind with
  | glpk =>
    have hk' : x'.engine.kind = .glpk := he.kind ▸ hk
    unfold Engine.setAbort
    rw [hk, hk']
    exact twins_putEngine hm hr hx hx' he rfl hk.symm rfl hk'.symm rfl
  | lpsolve =>
    have hk' : x'.engine.kind = .lpsolve := he.kind ▸ hk
    have htell : Action.Alike (Twins π v v') Eq (LpSolve.tell (.abortHook x.engine.number handle))
        (LpSolve.tell (.abortHook x'.engine.number handle)) :=
      LpSolve.alike_tell ⟨rfl, .cons he.number .nil⟩ rfl
    obtain ⟨-, hr'⟩ := htell w w' hr
    unfold Engine.setAbort
    rw [hk, hk']
    obtain ⟨u, hu, hmodels⟩ := LpSolve.on_tell_models (.abortHook x.engine.number handle) w
    obtain ⟨u', hu', hmodels'⟩ := LpSolve.on_tell_models (.abortHook x'.engine.number handle) w'
    rw [hu, hu'] at hr'
    dsimp only
    rw [on_bind_of_ok (on_bind_of_ok hu fun _ => pure x.engine),
      on_bind_of_ok (on_bind_of_ok hu' fun _ => pure x'.engine)]
    -- the call changes no models, so that the engines are still there
    have hfound : u.model? m = some x := by rw [World.model?, hmodels]; exact hx
    have hfound' : u'.model? m' = some x' := by rw [World.model?, hmodels']; exact hx'
    exact twins_putEngine hm hr' hfound hfound' he rfl rfl rfl rfl he.abort

/-- **Solving under a context** ends alike on both sides, as they share the context. -/
theorem alike_solveWithContext (hm : π.models m m') (c : ContextId) (given : Option Datum) :
    Action.Alike (Twins π v v') (SolveResult.Alike π) (solveWithContext m c given)
      (solveWithContext m' c given) := by
  unfold solveWithContext
  refine (alike_contextError c).step fun cause => ?_
  cases cause with
  | some cause => exact .fail _
  | none =>
    refine (alike_openModel hm).bind fun _ _ ho => ?_
    have htarget : (Target.context c).outline = (Target.context c).outline := rfl
    -- the handles are equal, as the registries are up to the models in them
    exact alike_registered htarget fun h => (alike_setAbort hm ho.left ho.right (some h)).step fun _ =>
      ((alike_solve hm given).recovering (alike_retell c)).ensuring (alike_setAbort hm ho.left ho.right none)

end Model

/-! ## §6 Results -/

namespace SolveResult.Alike

variable {r r' : SolveResult} (h : r.Alike π r')

include h

theorem isValid : Action.Alike (Twins π v v') Eq r.isValid r'.isValid := by
  refine (alike_model h.model).bind fun x x' hx => .pure ?_
  have hsame : (x.revision == r.revision) = (x'.revision == r'.revision) := by
    rw [hx.revision, h.revision, Bool.eq_iff_iff, beq_iff_eq, beq_iff_eq]
    omega
  rw [hx.freed, hsame]

/-- Results that are alike reach engines that are alike, or neither is current. -/
theorem engine : Action.Alike (Twins π v v') (Engine.Alike π) r.engine r'.engine := by
  refine (alike_openModel h.model).bind fun x x' ho => ?_
  -- the revisions are shifted by the same number on both sides
  have hiff : x.revision = r.revision ↔ x'.revision = r'.revision := by
    rw [ho.alike.revision, h.revision]
    omega
  by_cases hvalid : x.revision = r.revision
  · rw [if_pos hvalid, if_pos (hiff.mp hvalid)]
    exact .pure ho.engine
  · rw [if_neg hvalid, if_neg (fun h' => hvalid (hiff.mpr h'))]
    exact .fail _

/-- Variables that are alike have one column. -/
theorem column {x x' : VariableArgument} (hx : x.Alike π x') :
    Action.Alike (Twins π v v') Eq (r.column x) (r'.column x') := by
  cases hx with
  | plain d => exact .fail _
  | @«variable» x x' hx =>
    simp only [SolveResult.column]
    have hiff := π.models_iff hx.model h.model
    -- a variable of the model, or one that is refused by its text
    by_cases hown : x.model = r.model
    · rw [if_pos hown, if_pos (hiff.mp hown)]
      exact .pure hx.column
    · rw [if_neg hown, if_neg (fun h' => hown (hiff.mpr h'))]
      exact hx.display.step fun _ => .fail _

theorem primal {x x' : VariableArgument} (hx : x.Alike π x') :
    Action.Alike (Twins π v v') Eq (r.primal x) (r'.primal x') := by
  refine h.engine.bind fun e e' he => (h.column hx).step fun j => ?_
  rw [h.method]
  exact he.primal j _

theorem dual {x x' : VariableArgument} (hx : x.Alike π x') :
    Action.Alike (Twins π v v') Eq (r.dual x) (r'.dual x') := by
  refine h.engine.bind fun e e' he => (h.column hx).step fun j => ?_
  rw [h.method]
  exact he.dual j _

theorem objective : Action.Alike (Twins π v v') Eq r.objective r'.objective := by
  refine h.engine.bind fun e e' he => ?_
  rw [h.method]
  exact he.objectiveValue _

omit h in
private theorem columnValues {e e' : Engine} (he : e.Alike π e') (method : Method) (count : Nat) (j : Int) :
    Action.Alike (Twins π v v') Eq (columnValues e method count j) (columnValues e' method count j) := by
  induction count generalizing j with
  | zero => exact .pure rfl
  | succ count ih => exact (he.primal j method).step fun _ => (ih (j + 1)).step fun _ => .pure rfl

theorem values : Action.Alike (Twins π v v') Eq r.values r'.values := by
  refine h.engine.bind fun e e' he => he.columnCount.step fun count => ?_
  rw [h.method]
  exact columnValues he _ count 1

theorem solution : Action.Alike (Twins π v v') Eq r.solution r'.solution :=
  h.objective.step fun _ => h.values.step fun _ => .pure (by rw [h.status, h.method])

theorem display : Action.Alike (Twins π v v') Eq r.display r'.display :=
  h.isValid.step fun _ => .pure (by rw [h.status, h.method])

theorem report : Action.Alike (Twins π v v') Eq r.report r'.report := by
  unfold SolveResult.report
  rw [h.status, h.method]
  refine h.isValid.step fun valid => ?_
  cases valid with
  | true => exact h.values.step fun _ => h.objective.step fun _ => .pure rfl
  | false => exact .pure rfl

end SolveResult.Alike

end LinearProgram
