import LinearProgram.Proofs.Engine.Starting
import LinearProgram.Proofs.Solve.Course
import LinearProgram.Proofs.Table
import LinearProgram.Proofs.Twins.Engine

/-!
# The method of a solve

The method that is dispatched is the given one, or else that of the parameters, and `auto` stands for the integer
search as soon as some variable is not continuous. On GLPK it decides which solvers are started. On lp_solve it
decides nothing: the calls of a solve are a function of the model, of the registry and of the context, in which no
method occurs.
-/

namespace LinearProgram

open LinearProgram.Action

/-! ## §1 Solvers that a solve starts -/

/-- Nothing stands in the way of a solve: the coefficients can be handed over, no setting is missing, the context
is not done, the registry has room, and runs return. -/
structure World.Unhindered (w : World) (model : Model) (c? : Option ContextId) : Prop where
  triplets : ∃ t, model.entries.triplets = .ok t
  verbose : ∃ d, model.parameters.verbose = .ok d
  presolve : ∃ d, model.parameters.presolve = .ok d
  live : ∀ c, c? = some c → (w.contexts.error w.clock c).1 = none
  regular : w.registry.Regular
  room : c?.toList.length < w.registry.room
  timed : w.Timed
  returns : w.script.Returns

theorem World.Made.starts {w w₁ : World} {cs : List Native.Call} (h : w.Made cs w₁)
    (hidle : ∀ c ∈ cs, c.isEntry = false) : w.Starts [] True w₁ := by
  have hcalls : w.callsSince w₁ = cs := callsSince_of_calls cs h.calls
  exact .of_idle (.of_calls cs h.calls) (hcalls ▸ hidle)

namespace Model

variable {w : World} {m : ModelId} {model : Model} {method? : Option Method}
  {outcome : Except Fault SolveResult × World}

/-- The solvers of a solve with the method that there is. -/
def solvers (model : Model) (method? : Option Method) (s : Script) : List Solver :=
  method?.elim [] fun method => model.engine.kind.solvers method model.parameters s

/-- The solvers of the method are started in order, and all of them if the solve answers or is not hindered. -/
theorem Course.starts (h : Course w m model method? outcome)
    (hk : w.kindAt model.engine.number = some model.engine.kind) :
    w.Starts (model.solvers method? w.script) ((∃ r, outcome.1 = .ok r) ∨ w.Unhindered model none) outcome.2 := by
  cases h with
  | undecided h hidle => exact (h.starts hidle).mono fun _ => trivial
  | unloaded ht h =>
    refine (h.starts (by simp)).broken _ ?_
    rintro (⟨r, ⟨⟩⟩ | hu)
    obtain ⟨t, ht'⟩ := hu.triplets
    cases ht.symm.trans ht'
  | @unregistered _ t fault w' ht hr h =>
    refine (h.starts (isEntry_loadCalls model.engine t)).broken _ ?_
    rintro (⟨r, ⟨⟩⟩ | hu)
    have hroom : 0 < w.registry.room := hu.room
    have hnone := (Registry.room_of_register_error hr).2
    omega
  | @ran method t h r w₁ report w₂ answer w' ht hr h₁ hrun h₂ _ hanswer =>
    have hbefore := (h₁.starts (isEntry_loadCalls model.engine t)).of_registry
    have hk₁ : w₁.kindAt model.engine.number = some model.engine.kind := (h₁.kindAt _).trans hk
    have hran := Engine.runs_solve h₁.compliant hk₁ method model.parameters (some h)
    have hscript : w₁.script = w.script := h₁.script
    rw [Runs, hrun, hscript] at hran
    refine (hbefore.trans (hran.mono ?_)).andThen (.of_calls h₂.calls)
    rintro (⟨result, hresult⟩ | hu)
    · exact ⟨_, (hanswer result hresult).2⟩
    · -- the engine reports, since runs return
      obtain ⟨verbose, hv⟩ := hu.verbose
      obtain ⟨presolve, hp⟩ := hu.presolve
      have hgoing : w₁.Going := ⟨h₁.compliant, by rw [World.Timed, h₁.clock]; exact hu.timed⟩
      obtain ⟨x, w₃, hon, -⟩ := Engine.solve_enters hv hp model.engine method (some h) w₁ hgoing
        (hscript ▸ hu.returns)
      exact ⟨x, congrArg Prod.fst (hrun.symm.trans hon)⟩

/-- A result has the method that the course was for. -/
theorem Course.method_eq (h : Course w m model method? outcome) {r : SolveResult} (hr : outcome.1 = .ok r) :
    method? = some r.method := by
  cases h with
  | undecided | unloaded | unregistered => cases hr
  | ran _ _ _ _ _ _ hanswer => exact congrArg some (hanswer r hr).1.symm

/-- A solution by the integer search that counts as optimal was searched for. -/
theorem Course.search_of_optimal (h : Course w m model method? outcome)
    (hk : w.kindAt model.engine.number = some model.engine.kind) (hglpk : model.engine.kind = .glpk)
    {r : SolveResult} (hr : outcome.1 = .ok r) (hmethod : r.method = .branchCut) (hoptimal : r.status = .optimal) :
    .search ∈ model.solvers method? w.script := by
  -- a result was answered, so the engine ran
  cases h with
  | undecided | unloaded | unregistered => cases hr
  | @ran method t h r w₁ report w₂ answer w' _ _ h₁ hrun _ _ hanswer =>
    obtain ⟨rfl, rfl⟩ := hanswer _ hr
    have hscript : w₁.script = w.script := h₁.script
    rw [hmethod, hoptimal] at hrun
    rw [solvers, hmethod, ← hscript]
    exact Engine.search_of_optimal h₁.compliant ((h₁.kindAt _).trans hk) hglpk hrun

/-- Setting a hook starts no solver. -/
theorem isEntry_hookCalls (e : Engine) (hook : Option Handle) : ∀ c ∈ e.hookCalls hook, c.isEntry = false := by
  intro c hc
  unfold Engine.hookCalls at hc
  split at hc
  · cases hc
  · rw [List.mem_singleton.mp hc]
    rfl

/-- **Whatever course a solve takes, it starts the solvers of its method**, one after the other, and all of
them if it comes to a result. -/
theorem CourseUnder.starts {c? : Option ContextId} (h : CourseUnder w m model method? c? outcome)
    (hk : w.kindAt model.engine.number = some model.engine.kind) :
    w.Starts (model.solvers method? w.script) ((∃ r, outcome.1 = .ok r) ∨ w.Unhindered model c?) outcome.2 := by
  cases h with
  | alone h => exact h.starts hk
  | @done c fault w' hdone hcalls =>
    refine .broken_of_calls hcalls _ ?_
    rintro (⟨r, ⟨⟩⟩ | hu)
    exact hdone (hu.live c rfl)
  | @unregistered c fault w' _ hr hcalls =>
    refine .broken_of_calls hcalls _ ?_
    rintro (⟨r, ⟨⟩⟩ | hu)
    have hroom : 1 < w.registry.room := hu.room
    have hnone := (Registry.room_of_register_error hr).2
    omega
  | @within c h r w₁ abort inner answer w' _ hr h₁ hinner hcalls hanswer =>
    have hbefore := (h₁.starts (isEntry_hookCalls model.engine (some h))).of_registry
    have hk₁ : w₁.kindAt model.engine.number = some model.engine.kind := (h₁.kindAt _).trans hk
    have hscript : w₁.script = w.script := h₁.script
    have hran := hinner.starts hk₁
    rw [hscript] at hran
    have hafter : inner.2.Starts [] True w' := by
      have hsince : inner.2.callsSince w' = _ := World.callsSince_of_calls _ hcalls
      exact .of_idle (.of_calls _ hcalls) (hsince ▸ isEntry_hookCalls model.engine none)
    refine (hbefore.trans (hran.mono ?_)).andThen hafter
    rintro (⟨result, hresult⟩ | hu)
    · exact .inl ⟨result, hanswer result hresult⟩
    · -- the context takes one slot number, so that there is one more for the model
      have hroom : 1 < w.registry.room := hu.room
      have hleft := Registry.room_of_register hu.regular hr
      have hregistry : w₁.registry = r := h₁.registry
      refine .inr ⟨hu.triplets, hu.verbose, hu.presolve, by rintro c ⟨⟩, ?_, ?_, ?_, ?_⟩
      · rw [hregistry]
        exact (Registry.register_spec hu.regular hr).1
      · rw [hregistry]
        show 0 < r.room
        omega
      · rw [World.Timed, h₁.clock]
        exact hu.timed
      · rw [hscript]
        exact hu.returns

/-- A result has the method that the course was for, with and without a context. -/
theorem CourseUnder.method_eq {c? : Option ContextId} (h : CourseUnder w m model method? c? outcome)
    {r : SolveResult} (hr : outcome.1 = .ok r) : method? = some r.method := by
  cases h with
  | alone h => exact h.method_eq hr
  | done | unregistered => cases hr
  | within _ _ _ hinner _ hanswer => exact hinner.method_eq (hanswer r hr)

/-- An optimal result of branch-and-cut has started the search. -/
theorem CourseUnder.search_of_optimal {c? : Option ContextId} (h : CourseUnder w m model method? c? outcome)
    (hk : w.kindAt model.engine.number = some model.engine.kind) (hglpk : model.engine.kind = .glpk)
    {r : SolveResult} (hr : outcome.1 = .ok r) (hmethod : r.method = .branchCut) (hoptimal : r.status = .optimal) :
    .search ∈ model.solvers method? w.script := by
  cases h with
  | alone h => exact h.search_of_optimal hk hglpk hr hmethod hoptimal
  | done | unregistered => cases hr
  | @within c h r' w₁ abort inner answer w' _ _ h₁ hinner _ hanswer =>
    -- registering the context does not touch the script of the engine
    have hscript : w₁.script = w.script := h₁.script
    have hmem := hinner.search_of_optimal ((h₁.kindAt _).trans hk) hglpk (hanswer r hr) hmethod hoptimal
    rwa [hscript] at hmem

end Model

/-! ## §2 Calls on lp_solve -/

namespace LpSolve

variable {w : World}

theorem silent_sendMessage (hook : Option Handle) (text : Payload) : Preserves w.Silent (sendMessage hook text) := by
  cases hook with
  | none => exact Preserves.pure _
  | some h =>
    refine (Preserves.tell _).bind fun _ v hv => ?_
    obtain ⟨writings, hon⟩ := on_forwardMessage h text.terminated v
    rw [hon]
    exact ⟨hv.calls, hv.allowance, hv.engines⟩

/-- Polls are silent. -/
theorem silent_poll (h : Handle) : Preserves w.Silent (poll h) := by
  refine Preserves.get.bind fun _ => Preserves.bind (fun v hv => ?_) fun _ =>
    (Preserves.tell _).bind fun _ => Preserves.pure _
  obtain ⟨stop, contexts, writings, -, hon⟩ := on_shouldAbort h v
  rw [hon]
  exact ⟨hv.calls, hv.allowance, hv.engines⟩

/-- No event makes a call where a poll stops the solver by its answer. -/
theorem silent_runEvent {hooks : RunHooks} (hstops : hooks.stopsByCall = false) (event : RunEvent) :
    Preserves w.Silent (runEvent hooks event) := by
  cases event with
  | message text => exact (silent_sendMessage _ _).bind fun _ => Preserves.pure _
  | poll heeded =>
    unfold runEvent pollHook
    cases hooks.abort with
    | none => exact Preserves.pure _
    | some h =>
      refine (silent_poll h).bind fun stop => ?_
      -- lp_solve reads the answer, and no call is made
      rw [hstops]
      split <;> exact Preserves.pure _
  | cancel c =>
    exact Preserves.bind (Preserves.change fun _ h => ⟨h.calls, h.allowance, h.engines⟩) fun _ => Preserves.pure _
  | advance seconds =>
    refine Preserves.get.bind fun v => (Preserves.lift _).bind fun clock => ?_
    exact Preserves.bind (Preserves.change fun _ h => ⟨h.calls, h.allowance, h.engines⟩) fun _ => Preserves.pure _
  | fail fault => exact Preserves.fail _

/-- A run is one call. -/
theorem silent_run (hw : w.Compliant) (p : Nat) :
    (w.after (.lpsolve (.solve p))).Silent ((conduct (.lpSolve p)).on w).2 := by
  unfold conduct
  rw [on_bind_of_ok (on_call_of_compliant hw), if_pos rfl]
  refine Preserves.get.bind (fun v => ?_) _ (.refl _)
  refine (preserves_runEvents (silent_runEvent rfl) _).bind fun stopped => (Preserves.lift _).bind fun values => ?_
  exact Preserves.bind (Preserves.change fun _ h => ⟨h.calls, h.allowance, h.engines⟩) fun _ => Preserves.pure _

/-- The calls of a solve that sends its messages to the handle `h`. Where it is not set whether to be verbose, there
are none. -/
def solveCalls (p : Nat) (parameters : Parameters) (h : Handle) : List Native.Call :=
  match parameters.verbose with
  | .ok verbose =>
    [.lpsolve (.setVerbosity p (if verbose.isTrue then 4 else 0)), .lpsolve (.logHook p (some h)),
      .lpsolve (.solve p), .lpsolve (.logHook p none)]
  | .error _ => []

/-- A solve of lp_solve makes the same calls for every method. -/
theorem calls_solve (hw : w.Compliant) (p : Nat) (parameters : Parameters) (h : Handle) :
    ((solve p parameters (some h)).on w).2.calls = w.calls ++ (solveCalls p parameters h).toArray := by
  unfold solve solveCalls
  cases parameters.verbose with
  | error fault => simp [on_bind_of_error (on_lift (.error fault : Except Fault Datum) w)]
  | ok verbose =>
    let w₁ := w.after (.lpsolve (.setVerbosity p (if verbose.isTrue then 4 else 0)))
    let w₂ := w₁.after (.lpsolve (.logHook p (some h)))
    -- the run is one call, and the hook is cleared even if it fails
    have hsilent := silent_run (w := w₂) hw p
    have hclear := on_tell (c := .logHook p none) ((hsilent.compliant hw).grants _)
    have hrun : (ensuring (conduct (.lpSolve p)) (tell (.logHook p none))).on w₂ = (((conduct (.lpSolve p)).on w₂).1,
        ((conduct (.lpSolve p)).on w₂).2.after (.lpsolve (.logHook p none))) := by
      rw [on_ensuring, hclear]
    rw [on_bind_of_ok (on_lift _ w), on_bind_of_ok (on_tell (hw.grants _))]
    dsimp only
    rw [on_bind_of_ok (on_tell ((hw.after _).grants _)), on_bind, hrun]
    have hcalls : (((conduct (.lpSolve p)).on w₂).2.after (.lpsolve (.logHook p none))).calls = w.calls ++
        #[.lpsolve (.setVerbosity p (if verbose.isTrue then 4 else 0)), .lpsolve (.logHook p (some h)),
          .lpsolve (.solve p), .lpsolve (.logHook p none)] := by
      show ((conduct (.lpSolve p)).on w₂).2.calls.push _ = _
      rw [hsilent.calls]
      exact Array.toList_inj.mp (by simp [World.after, w₂, w₁])
    cases ((conduct (.lpSolve p)).on w₂).1 <;> exact hcalls

end LpSolve

namespace Model

variable {w : World} {m : ModelId} {model : Model} {method : Method}
  {outcome : Except Fault SolveResult × World}

/-- The calls of a solve on lp_solve, with a registry that takes the model or not. -/
def lpSolveCalls (m : ModelId) (model : Model) (r : Registry Target) : List Native.Call :=
  match model.entries.triplets with
  | .error _ => []
  | .ok t => model.engine.loadCalls t ++
    match r.register (.model m) with
    | .ok (h, _) => LpSolve.solveCalls model.engine.number model.parameters h
    | .error _ => []

/-- The same under a context, if there is one: its handle is in the hook for polls meanwhile. -/
def lpSolveCallsUnder (w : World) (m : ModelId) (model : Model) : Option ContextId → List Native.Call
  | none => lpSolveCalls m model w.registry
  | some c =>
    match (w.contexts.error w.clock c).1, w.registry.register (.context c) with
    | none, .ok (h, r) =>
      model.engine.hookCalls (some h) ++ lpSolveCalls m model r ++ model.engine.hookCalls none
    | _, _ => []

/-- Up to its end, the course of a solve on lp_solve consists of these calls. -/
theorem Course.calls_of_lpsolve (h : Course w m model (some method) outcome) (hk : model.engine.kind = .lpsolve) :
    outcome.2.calls = w.calls ++ (lpSolveCalls m model w.registry).toArray := by
  unfold lpSolveCalls
  cases h with
  | unloaded ht h =>
    rw [ht]
    exact h.calls
  | unregistered ht hr h =>
    rw [ht, hr]
    simpa using h.calls
  | @ran _ t h r w₁ report w₂ answer w' ht hr h₁ hrun h₂ =>
    -- the engine is handed the method, and drops it
    have hengine : model.engine.solve method model.parameters (some h) =
        LpSolve.solve model.engine.number model.parameters (some h) := by
      unfold Engine.solve
      rw [hk]
    have hcalls := LpSolve.calls_solve h₁.compliant model.engine.number model.parameters h
    rw [← hengine, hrun] at hcalls
    rw [ht, hr]
    dsimp only at hcalls ⊢
    rw [h₂.calls, hcalls, h₁.calls]
    simp

/-- **The calls of a solve on lp_solve** are the same for every method. -/
theorem CourseUnder.calls_of_lpsolve {c? : Option ContextId} (h : CourseUnder w m model (some method) c? outcome)
    (hk : model.engine.kind = .lpsolve) :
    outcome.2.calls = w.calls ++ (lpSolveCallsUnder w m model c?).toArray := by
  unfold lpSolveCallsUnder
  cases h with
  | alone h => exact h.calls_of_lpsolve hk
  | @done c fault w' hdone hcalls =>
    -- the solve was refused because the context is done, and has made no call
    cases herror : (w.contexts.error w.clock c).1 with
    | none => exact absurd herror hdone
    | some cause =>
      dsimp only
      rw [herror]
      simpa using hcalls
  | unregistered hlive hr hcalls =>
    dsimp only
    rw [hlive, hr]
    simpa using hcalls
  | @within c h r w₁ abort inner answer w' hlive hr h₁ hinner hcalls =>
    have hinside := hinner.calls_of_lpsolve hk
    have hregistry : w₁.registry = r := h₁.registry
    rw [hregistry] at hinside
    dsimp only
    rw [hlive, hr]
    dsimp only
    rw [hcalls, hinside, h₁.calls]
    simp [lpSolveCalls, Engine.loadCalls, Engine.number]

end Model

/-! ## §3 Solves in sessions -/

/-- Solve a model, under a context if there is one. -/
def Operation.solving (m : ModelId) (c? : Option ContextId) (given : Option Datum) : Operation :=
  match c? with
  | none => .solve m given
  | some c => .solveWithContext m c given

def Operation.setMethod (m : ModelId) (d : Datum) : Operation := .setParameters m [("method", d)]

namespace World

variable {w : World} {m : ModelId} {model : Model} {given : Option Datum}

/-- The event of a solve is its answer with the calls that it has made. -/
theorem event_solving (w : World) (m : ModelId) (c? : Option ContextId) (given : Option Datum) :
    let outcome := (Model.solveUnder m c? given).on w
    w.event (.solving m c? given) =
      ⟨.solving m c? given, outcome.1.map Answer.result, w.callsSince outcome.2⟩ := by
  cases c? with
  | none => simp [event, next, Operation.solving, Operation.run, Model.solveUnder]
  | some c => simp [event, next, Operation.solving, Operation.run, Model.solveUnder]

/-- Some variable of the model tells that it is not continuous. -/
def Integral (w : World) (m : ModelId) : Prop :=
  ∃ v : Variable, v.model = m ∧ ∃ kind, (v.kind.on w).1 = .ok kind ∧ kind ≠ .continuous

/-- A model is integral if one of its variables is not continuous. -/
theorem integral_iff (hm : w.model? m = some model) (hf : model.freed = false) :
    w.Integral m ↔ ∃ kind ∈ model.kinds, kind ≠ .continuous := by
  constructor
  · rintro ⟨v, rfl, kind, hkind, hne⟩
    rw [Variable.on_kind hm hf] at hkind
    cases hat : (place? model.kinds.length v.index).bind fun i => model.kinds[i]? with
    -- a variable that is not in the list has no kind to report
    | none =>
      rw [hat] at hkind
      cases hkind
    | some kind' =>
      rw [hat] at hkind
      cases hkind
      obtain ⟨i, -, hi⟩ := Option.bind_eq_some_iff.mp hat
      exact ⟨kind, List.mem_of_getElem? hi, hne⟩
  · rintro ⟨kind, hkind, hne⟩
    obtain ⟨i, hi, rfl⟩ := List.mem_iff_getElem.mp hkind
    have hplace : place? model.kinds.length i = some i := by simp [place?, hi]
    refine ⟨⟨m, i⟩, rfl, model.kinds[i], ?_, hne⟩
    rw [Variable.on_kind (v := ⟨m, i⟩) hm hf, hplace]
    simp [hi]

/-- Whether some variable is not continuous is what the additions and the changes of kinds say. -/
theorem integral_iff_programs {os : List Operation} (hos : ∀ o ∈ os, o.Proper)
    (hm : (initial.nextAll os).model? m = some model) (hf : model.freed = false) :
    ∃ p, programs os m = some p ∧
      ((initial.nextAll os).Integral m ↔ ∃ c ∈ p.columns, c.kind ≠ .continuous) := by
  obtain ⟨n, q, hh, -⟩ := (sound_nextAll sound_initial os).holds_of_model? hm hf
  obtain ⟨p, hp, hrepresents⟩ := Programs.fits_nextAll (Programs.fits_initial _) sound_initial hos hh
  -- the kinds of the model are those of its program, by the invariant
  have hkinds : model.kinds = p.columns.map (·.kind) := hrepresents.kinds
  refine ⟨p, hp, ?_⟩
  rw [integral_iff hm hf, hkinds]
  simp

/-- After the method was set, the model has another one in its parameters, or all is as before. -/
theorem next_setMethod (hm : w.model? m = some model) (d : Datum) :
    w.next (.setMethod m d) = w ∨ ∃ method, w.next (.setMethod m d) = w.modifyModel m fun model' =>
      { model' with parameters := { model.parameters with method? := some (.method method) } } := by
  have hnext : w.next (.setMethod m d) = ((Model.assignParameters m [("method", d)]).on w).2 :=
    congrArg Prod.snd (on_map ..)
  unfold Model.assignParameters at hnext
  rw [hnext, on_bind_of_ok (on_model_of_some hm)]
  cases hput : model.parameters.put "method" d with
  -- a text that names no method is refused, and the parameters stay
  | error fault => exact .inl rfl
  | ok parameters =>
    obtain ⟨method, -, hmethod⟩ := Program.bind_eq_ok hput
    cases hmethod
    exact .inr ⟨method, rfl⟩

/-- On lp_solve, another method in the parameters changes none of the calls. -/
theorem lpSolveCallsUnder_setMethod (hm : w.model? m = some model) (d : Datum) :
    ∃ model', (w.next (.setMethod m d)).model? m = some model' ∧ model'.freed = model.freed ∧
      model'.engine = model.engine ∧ ∀ c?,
        Model.lpSolveCallsUnder (w.next (.setMethod m d)) m model' c? = Model.lpSolveCallsUnder w m model c? := by
  -- the calls depend on the verbosity, and not on the method
  rcases next_setMethod hm d with hsame | ⟨method, hset⟩
  · rw [hsame]
    exact ⟨model, hm, rfl, rfl, fun _ => rfl⟩
  · rw [hset]
    refine ⟨{ model with parameters := { model.parameters with method? := some (.method method) } }, ?_, rfl, rfl,
      fun c? => by cases c? <;> rfl⟩
    show (w.modifyModel m _).models[m]? = _
    rw [modifyModel, Array.getElem?_modify, if_pos rfl]
    exact congrArg (Option.map _) hm

/-- The answer to a solve is its result. -/
theorem answer_solving_iff {c? : Option ContextId} {r : SolveResult} :
    (w.event (.solving m c? given)).answer = .ok (.result r) ↔ ((Model.solveUnder m c? given).on w).1 = .ok r := by
  rw [event_solving]
  cases ((Model.solveUnder m c? given).on w).1 <;> simp [Except.map]

/-- The calls of a solve on lp_solve do not depend on the method. -/
theorem calls_solving_of_lpsolve (hw : w.Compliant) (hm : w.model? m = some model) (hf : model.freed = false)
    (hk : model.engine.kind = .lpsolve) {asked : Method} (hwanted : model.wanted given = .ok asked)
    (c? : Option ContextId) :
    (w.event (.solving m c? given)).calls = Model.lpSolveCallsUnder w m model c? := by
  have hcourse := Model.course_solveUnder hw hm hf c? given
  rw [Model.dispatched?_of_asked hwanted] at hcourse
  rw [event_solving]
  exact callsSince_of_calls _ (hcourse.calls_of_lpsolve hk)

/-- **The method of a solve.** At any point of a session, take a solve of an open model, under a context or alone.
The given method decides, or else that of the parameters, where `auto` stands for the integer search exactly if some
variable tells at that point that it is not continuous; and this is what the additions and the changes of kinds up
to there say. A result has the method that was found, which is never `auto`.

On GLPK, this method decides which solvers are started, and all of them are if there is a result or if nothing
stands in the way. The integer search is started under its own method only, and exactly if the presolver is on or
the relaxation before it returns 0 with the status of an optimal solution; and under this method, no result is
optimal without it. On lp_solve, the solve makes the same calls whatever method is asked for. Where no method is
found, there is no result and no solver is started. -/
theorem solve_by_method (os : List Operation) {m : ModelId} {model : Model}
    (hm : (initial.nextAll os).model? m = some model) (hf : model.freed = false) (c? : Option ContextId)
    (given : Option Datum) :
    let w := initial.nextAll os
    let e := w.event (.solving m c? given)
    let started := Native.Call.solvers e.calls
    let complete := (∃ r, e.answer = .ok (.result r)) ∨ w.Unhindered model c?
    (∀ asked, model.wanted given = .ok asked → ∃ method, Method.StandsFor (w.Integral m) asked method ∧
      (∀ r, e.answer = .ok (.result r) → r.method = method ∧ r.method ≠ .auto) ∧
      started <+: model.engine.kind.solvers method model.parameters w.script ∧
      (complete → started = model.engine.kind.solvers method model.parameters w.script) ∧
      (model.engine.kind = .glpk →
        (.search ∈ started → method = .branchCut ∧ (model.parameters.presolves ∨ w.script.RelaxationOptimal)) ∧
        (complete → method = .branchCut → model.parameters.presolves ∨ w.script.RelaxationOptimal →
          .search ∈ started) ∧
        ∀ r, e.answer = .ok (.result r) → method = .branchCut → r.status = .optimal → .search ∈ started) ∧
      (model.engine.kind = .lpsolve → ∀ w', (w' = w ∨ ∃ d, w' = w.next (.setMethod m d)) →
        ∀ model' given' asked', w'.model? m = some model' → model'.wanted given' = .ok asked' →
          (w'.event (.solving m c? given')).calls = e.calls)) ∧
    (∀ fault, model.wanted given = .error fault → (∀ r, e.answer ≠ .ok (.result r)) ∧ started = []) ∧
    ((∀ o ∈ os, o.Proper) → ∃ p, programs os m = some p ∧
      (w.Integral m ↔ ∃ c ∈ p.columns, c.kind ≠ .continuous)) := by
  intro w e started complete
  have hs : w.Sound := sound_nextAll sound_initial os
  obtain ⟨n, q, hh, ho⟩ := hs.holds_of_model? hm hf
  have hk : w.kindAt model.engine.number = some model.engine.kind := by
    rw [ho.number, kindAt, ho.found]
    exact ho.kind
  have hcourse := Model.course_solveUnder hs.compliant hm hf c? given
  have hstarts := hcourse.starts hk
  -- the solvers of the course are those that the event shows
  have hstarted : Native.Call.solvers (w.callsSince ((Model.solveUnder m c? given).on w).2) = started := by
    rw [show started = Native.Call.solvers e.calls from rfl, show e = _ from event_solving ..]
  have horder : started <+: model.solvers (model.dispatched? given) w.script := hstarted ▸ hstarts.order
  have hall : complete → started = model.solvers (model.dispatched? given) w.script := by
    rintro (⟨r, hr⟩ | hu)
    · exact hstarted ▸ hstarts.all (.inl ⟨r, answer_solving_iff.mp hr⟩)
    · exact hstarted ▸ hstarts.all (.inr hu)
  refine ⟨fun asked hwanted => ?_, fun fault hwanted => ?_, fun hos => integral_iff_programs hos hm hf⟩
  · let method := Model.effectiveMethod model.kinds asked
    have hdispatched : model.dispatched? given = some method := Model.dispatched?_of_asked hwanted
    have hstands : Method.StandsFor (w.Integral m) asked method :=
      (Model.effectiveMethod_standsFor model.kinds asked).congr (integral_iff hm hf).symm
    rw [hdispatched] at horder hall hcourse
    have hmethod {r : SolveResult} (hr : e.answer = .ok (.result r)) : r.method = method :=
      (Option.some.inj (hcourse.method_eq (answer_solving_iff.mp hr))).symm
    refine ⟨method, hstands, fun r hr => ⟨hmethod hr, hmethod hr ▸ hstands.ne_auto⟩, horder, hall, ?_, ?_⟩
    · intro hglpk
      refine ⟨fun hsearch => ?_, fun hcomplete hsearch hbegun => ?_, fun r hr hsearch hoptimal => ?_⟩
      · obtain ⟨-, hne, hbegun⟩ := EngineKind.search_mem_solvers_iff.mp (horder.subset hsearch)
        exact ⟨hstands.eq_branchCut hne, hbegun⟩
      · rw [hall hcomplete]
        exact EngineKind.search_mem_solvers_iff.mpr ⟨hglpk, by rw [hsearch]; simp, hbegun⟩
      · rw [hall (.inl ⟨r, hr⟩)]
        exact hcourse.search_of_optimal hk hglpk (answer_solving_iff.mp hr) ((hmethod hr).trans hsearch) hoptimal
    · intro hlpsolve w' hw' model' given' asked' hm' hwanted'
      rw [calls_solving_of_lpsolve hs.compliant hm hf hlpsolve hwanted]
      rcases hw' with rfl | ⟨d, rfl⟩
      · cases hm.symm.trans hm'
        exact calls_solving_of_lpsolve hs.compliant hm hf hlpsolve hwanted' c?
      · obtain ⟨model'', hm'', hfreed, hengine, hsame⟩ := lpSolveCallsUnder_setMethod hm d
        cases hm'.symm.trans hm''
        rw [← hsame]
        exact calls_solving_of_lpsolve (sound_next hs _).compliant hm' (hfreed.trans hf) (hengine ▸ hlpsolve)
          hwanted' c?
  · rw [Model.dispatched?_of_unasked hwanted] at horder hcourse
    refine ⟨fun r hr => ?_, List.prefix_nil.mp horder⟩
    cases hcourse.method_eq (answer_solving_iff.mp hr)

/-- A model on GLPK, without the presolver, whose integer variable became continuous and whose continuous one
became binary, and a model on lp_solve. -/
def retyped : List Operation :=
  [.create "search" (.text "minimize") [.engine (.named (.text "glpk"))],
    .addVariable 0 "x" (.text "continuous") .one .zero .one,
    .addVariable 0 "y" (.text "integer") .one .zero .one,
    .setKind ⟨0, 1⟩ (.text "continuous"),
    .setKind ⟨0, 0⟩ (.text "binary"),
    .setParameters 0 [("presolve", .bool false)],
    .create "own" (.text "minimize") [.engine (.named (.text "lpsolve"))],
    .addVariable 1 "z" (.text "integer") .one .zero .one]

/-- There, the first model is solved by the integer search, after its relaxation, since a variable is binary. The
second one is solved with the same calls when another method is asked for. -/
theorem search_after_retyping :
    let w := initial.nextAll retyped
    w.Integral 0 ∧ Native.Call.solvers (w.event (.solving 0 none none)).calls = [.simplex, .search] ∧
      ((w.next (.setMethod 1 (.text "simplex"))).event (.solving 1 none none)).calls =
        (w.event (.solving 1 none (some (.text "branch_cut")))).calls := by
  intro w
  have hfirst : (w.model? 0).map (fun model => (model.freed, (model.wanted none).toOption,
      model.engine.kind.solvers .branchCut model.parameters w.script)) =
        some (false, some .auto, [.simplex, .search]) := by decide +kernel
  have hsecond : (w.model? 1).map (fun model => (model.freed, model.engine.kind,
      (model.wanted (some (.text "branch_cut"))).toOption)) = some (false, .lpsolve, some .branchCut) := by
    decide +kernel
  -- the method that the parameters give after the assignment
  have hlater : ((w.next (.setMethod 1 (.text "simplex"))).model? 1).map (fun model =>
      (model.wanted none).toOption) = some (some .simplex) := by decide +kernel
  have hanswer : (w.event (.solving 0 none none)).answer = .ok (.result ⟨0, 3, .optimal, .branchCut⟩) :=
    eq_ok_of_toOption (by decide +kernel)
  obtain ⟨model₀, hm₀, h₀⟩ := Option.map_eq_some_iff.mp hfirst
  obtain ⟨model₁, hm₁, h₁⟩ := Option.map_eq_some_iff.mp hsecond
  obtain ⟨model₂, hm₂, h₂⟩ := Option.map_eq_some_iff.mp hlater
  simp only [Prod.mk.injEq] at h₀ h₁
  obtain ⟨hf₀, hwanted₀, hsolvers⟩ := h₀
  obtain ⟨hf₁, hk₁, hwanted₁⟩ := h₁
  obtain ⟨hgoes₀, -⟩ := solve_by_method retyped hm₀ hf₀ none none
  obtain ⟨method, hstands, hmethod, -, hall, -⟩ := hgoes₀ _ (eq_ok_of_toOption hwanted₀)
  obtain ⟨rfl, -⟩ := hmethod _ hanswer
  -- the theorem for both models, whose answers are read off above
  obtain ⟨hgoes₁, -⟩ := solve_by_method retyped hm₁ hf₁ none (some (.text "branch_cut"))
  obtain ⟨-, -, -, -, -, -, hsame⟩ := hgoes₁ _ (eq_ok_of_toOption hwanted₁)
  refine ⟨?_, (hall (.inl ⟨_, hanswer⟩)).trans hsolvers, ?_⟩
  · cases hstands with
    | auto_branchCut h => exact h
  · exact hsame hk₁ _ (.inr ⟨_, rfl⟩) model₂ none _ hm₂ (eq_ok_of_toOption h₂)

end World

end LinearProgram
