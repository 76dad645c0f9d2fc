import LinearProgram.Proofs.Solve.AtRest
import LinearProgram.Proofs.Solve.Reported

/-!
# Solves that a context may interrupt

A solve under a context ends as a solve without one does whose runs return the same codes, but for one thing:
an abort that the solver reports while the context is done is told as the error of the context. Every poll asks
whether the context is done, and once it is, it stays so; so an abort that a poll brought about is always told
that way.
-/

namespace LinearProgram

namespace Model

/-! ## §1 Answers of solves -/

/-- The method of a solve, as far as nothing is refused before the model is registered. -/
def methodFor (model : Model) (given : Option Datum) : Except Fault Method := do
  let setting ← resolveMethod model given
  let _ ← model.entries.triplets
  setting.read

/-- The report of a solve by the codes and statuses of its runs. What there is at the number of the problem is
of kind `k?`, and `room` says whether the registry takes the model. -/
def reportFor (model : Model) (method : Method) (k? : Option EngineKind) (room : Bool) (s : Script) :
    Except Fault EngineReport :=
  if room then model.engine.kind.reported method model.parameters k? s else .error .noSlot

/-- How a solve ends by the codes and statuses of its runs. -/
def answered (m : ModelId) (model : Model) (given : Option Datum) (k? : Option EngineKind) (room : Bool)
    (s : Script) : Except Fault SolveResult := do
  let method ← methodFor model given
  let report ← model.reportFor method k? room s
  let status ← report.interpret
  return ⟨m, model.revision + 1, status, method⟩

/-- Where no method is found, this is the answer. -/
theorem answered_of_error {model : Model} {given : Option Datum} {fault : Fault}
    (h : methodFor model given = .error fault) (m : ModelId) (k? : Option EngineKind) (room : Bool)
    (s : Script) : answered m model given k? room s = .error fault := by
  rw [answered, h]
  rfl

/-- Where a method is found, the answer follows from what the engine reports. -/
theorem answered_of_ok {model : Model} {given : Option Datum} {method : Method}
    (h : methodFor model given = .ok method) (m : ModelId) (k? : Option EngineKind) (room : Bool)
    (s : Script) : answered m model given k? room s = (do
      let report ← model.reportFor method k? room s
      let status ← report.interpret
      return ⟨m, model.revision + 1, status, method⟩) := by
  rw [answered, h]
  rfl

/-- An answer as it is told under a context. -/
def retold (cause? : Option Interruption) : Except Fault SolveResult → Except Fault SolveResult
  | .error (.unsolved .userAbort) =>
    match cause? with
    | some cause => .error (.interruptedSolve cause)
    | none => .error (.unsolved .userAbort)
  | answer => answer

/-- While the context is done, no abort is told as such. -/
theorem retold_ne {cause? : Option Interruption} (h : cause? ≠ none) (answer : Except Fault SolveResult) :
    retold cause? answer ≠ .error (.unsolved .userAbort) := by
  unfold retold
  -- an abort by the user is retold as the cause that there is
  split
  · cases cause? with
    | none => exact absurd rfl h
    | some cause =>
      intro heq
      cases heq
  · next hne => exact hne

/-- Loading a matrix has no answer that could fail. -/
theorem on_loadMatrix (e : Engine) (t : Triplets) (w : World) : ∃ w', (e.loadMatrix t).on w = (.ok (), w') := by
  have hcall (c : Native.Call) (w : World) : ∃ carried w', (Action.call c).on w = (.ok carried, w') := by
    rw [Action.on_call]
    split <;> exact ⟨_, _, rfl⟩
  unfold Engine.loadMatrix
  cases e.kind with
  | glpk =>
    obtain ⟨carried, w', hon⟩ := hcall (.glpk (.loadMatrix e.number t)) w
    exact ⟨w', Action.on_bind_of_ok hon _⟩
  | lpsolve =>
    dsimp only
    -- entry by entry; a call refused is passed over like one carried out
    induction t.toList generalizing w with
    | nil => exact ⟨w, rfl⟩
    | cons x rest ih =>
      obtain ⟨carried, w₁, hon⟩ := hcall (.lpsolve (.setEntry e.number x.row x.column x.value)) w
      obtain ⟨w₂, hrest⟩ := ih w₁
      exact ⟨w₂, (Action.on_bind_of_ok (Action.on_bind_of_ok hon _) _).trans hrest⟩

/-- The preparations find the method or fail, whatever the library grants. -/
theorem answer_prepare (model : Model) (given : Option Datum) (w : World) :
    ((prepare model given).on w).1 = methodFor model given := by
  unfold prepare methodFor
  simp only [Action.on_bind, Action.on_lift]
  cases resolveMethod model given with
  | error fault => rfl
  | ok setting =>
    cases model.entries.triplets with
    | error fault => rfl
    | ok triplets =>
      obtain ⟨w₁, hload⟩ := on_loadMatrix model.engine triplets w
      simp only [hload]
      -- the load changes the engine only, so the method read is the one resolved before
      cases hread : setting.read with
      | error fault => exact hread.symm
      | ok method => exact hread.symm

/-- The report becomes the result for the model at its next revision. -/
theorem answer_conclude {w : World} {m : ModelId} {model : Model} (hm : w.model? m = some model) (method : Method)
    (report : EngineReport) :
    ∃ w', (conclude m method report).on w =
      ((do let status ← report.interpret; return ⟨m, model.revision + 1, status, method⟩), w') := by
  -- the model is read back with its revision raised
  have hm₁ : (w.modifyModel m fun model => { model with revision := model.revision + 1 }).model? m =
      some { model with revision := model.revision + 1 } := by
    unfold World.modifyModel World.model?
    rw [Array.getElem?_modify, if_pos rfl]
    exact congrArg (Option.map _) hm
  unfold conclude touch
  rw [Action.on_bind, Action.on_updateModel]
  dsimp only
  rw [Action.on_bind_of_ok (Action.on_model_of_some hm₁), Action.on_bind, Action.on_debug]
  dsimp only
  unfold interpret
  cases report with
  | known outcome =>
    rw [Action.on_bind, Action.on_lift]
    cases EngineReport.interpret (.known outcome) <;> exact ⟨_, rfl⟩
  | undocumented engine code =>
    rw [Action.on_bind]
    exact ⟨_, rfl⟩

end Model

namespace Action

variable {w : World} {m : ModelId} {model : Model}

instance (w₀ : World) : PlainClosed w₀.InPlay where
  call {c n} h hc w hw := by
    rw [on_call]
    split
    · exact hw
    · next rest hspend =>
      have hafter := hw.after h
      exact ⟨fun c hq => lookup_of_spend hspend (hw.serves c hq), hafter.timed, hafter.script,
        hafter.models, hafter.registry, hafter.kindAt⟩
  writings h := h.of_native h.timed rfl rfl rfl rfl rfl

/-- The run of the engine, with the model registered for it. -/
theorem yields_registered {c? : Option ContextId} (hw : w.ReadyFor c?) (ht : w.Timed) (hs : w.script.Returns)
    (hm : w.model? m = some model) (method : Method) :
    ∃ stop w', Yields (registered (.model m) fun h => model.engine.solve method model.parameters (some h)) w
      (model.reportFor method (w.kindAt model.engine.number) (decide (0 < w.registry.room))
        (w.script.settled stop)) stop w' ∧ w'.models = w.models := by
  rcases hreg : w.registry.register (.model m) with fault | ⟨h, r⟩
  · obtain ⟨rfl, hroom⟩ := Registry.room_of_register_error hreg
    rw [hroom]
    exact ⟨false, w, ⟨[], watch_registered_of_error hreg, rfl⟩, rfl⟩
  · have hroom := Registry.room_of_register hw.regular hreg
    obtain ⟨hready, hresolve⟩ := hw.registered hreg
    have hplay : World.InPlay { w with registry := r } { w with registry := r } := .refl hready.serves ht
    have hreturns : ({ w with registry := r } : World).script.Returns := hs
    obtain ⟨stop, w₁, hrun, hplay₁⟩ := yields_engineSolve hreturns hplay model.engine method model.parameters h
    -- the run leaves the registration alone, so that it can be given up
    have hengine : w.engine? m = some model.engine := by rw [World.engine?, hm]; rfl
    have hstill := (hookedRun_solve hready.serves hready.logHeld hengine method model.parameters h).still
    obtain ⟨t, hon, -⟩ := id hrun
    rw [hon] at hstill
    obtain ⟨r', hun, -⟩ := Registry.unregister_of_register hw.regular hreg hstill.registry
    refine ⟨stop, { w₁ with registry := r' }, ?_, hplay₁.models⟩
    rw [Model.reportFor, decide_eq_true (by omega : 0 < w.registry.room), if_pos rfl]
    exact hrun.registered hreg hun

/-- What follows the preparations. -/
theorem yields_finish {c? : Option ContextId} (hw : w.ReadyFor c?) (ht : w.Timed) (hs : w.script.Returns)
    (hm : w.model? m = some model) (method : Method) :
    ∃ stop w', Yields (Model.finish m model method) w
      (do
        let report ← model.reportFor method (w.kindAt model.engine.number) (decide (0 < w.registry.room))
          (w.script.settled stop)
        let status ← report.interpret
        return ⟨m, model.revision + 1, status, method⟩) stop w' := by
  obtain ⟨stop, w₁, hrun, hmodels⟩ := yields_registered hw ht hs hm method
  -- the run has left the models alone
  have hm₁ : w₁.model? m = some model := by
    rw [World.model?, hmodels]
    exact hm
  cases hreport : model.reportFor method (w.kindAt model.engine.number) (decide (0 < w.registry.room))
    (w.script.settled stop) with
  | error fault =>
    rw [hreport] at hrun
    exact ⟨stop, w₁, by rw [hreport]; exact hrun.bind_error _⟩
  | ok report =>
    rw [hreport] at hrun
    obtain ⟨w₂, hon⟩ := Model.answer_conclude hm₁ method report
    exact ⟨stop, w₂, by rw [hreport]; exact hrun.bind_last (.tacit (tacit_conclude m method report) hon)⟩

/-- **The answer of a solve** is that of its model, its method, and the codes and statuses of its runs. -/
theorem yields_solve {c? : Option ContextId} (hw : w.ReadyFor c?) (ht : w.Timed) (hs : w.script.Returns)
    (hm : w.model? m = some model) (hf : model.freed = false) (given : Option Datum) :
    ∃ stop w', Yields (Model.solve m given) w (Model.answered m model given (w.kindAt model.engine.number)
      (decide (0 < w.registry.room)) (w.script.settled stop)) stop w' := by
  unfold Model.solve
  have hopen : Yields (openModel m) w (.ok model) false w := .tacit (.openModel m) (on_openModel_of_open hm hf)
  -- the preparations leave the model, the registry and the script as they were
  obtain ⟨w₀, hnote, hplay₀, hstill₀⟩ : ∃ w₀, Yields (Model.noteMethod model given) w (.ok ()) false w₀ ∧
      w.InPlay w₀ ∧ w.Still w₀ := by
    have hplay := plain_noteMethod (P := w.InPlay) model given w (.refl hw.serves ht)
    have hstill := plain_noteMethod (P := w.Still) model given w (.refl w)
    rcases Model.on_noteMethod model given w with hon | ⟨text, hon⟩ <;> rw [hon] at hplay hstill
    · exact ⟨_, .tacit (tacit_noteMethod model given) hon, hplay, hstill⟩
    · exact ⟨_, .tacit (tacit_noteMethod model given) hon, hplay, hstill⟩
  have hplay := plain_prepare (P := w.InPlay) model given w₀ hplay₀
  have hstill := plain_prepare (P := w.Still) model given w₀ hstill₀
  have hanswer := Model.answer_prepare model given w₀
  rcases hon : (Model.prepare model given).on w₀ with ⟨answer, w₁⟩
  rw [hon] at hplay hstill hanswer
  dsimp only at hplay hstill hanswer
  have hprepare := Yields.tacit (tacit_prepare model given) hon
  cases answer with
  | error fault =>
    refine ⟨false, w₁, ?_⟩
    rw [Model.answered_of_error hanswer.symm]
    exact hopen.bind_silent (hnote.bind_silent (hprepare.bind_error _))
  | ok method =>
    have hs₁ : w₁.script.Returns := by
      rw [hplay.script]
      exact hs
    have hm₁ : w₁.model? m = some model := by
      rw [World.model?, hplay.models]
      exact hm
    obtain ⟨stop, w₂, hfinish⟩ := yields_finish (hw.still hstill) hplay.timed hs₁ hm₁ method
    rw [hplay.kindAt, hplay.registry, hplay.script] at hfinish
    refine ⟨stop, w₂, ?_⟩
    rw [Model.answered_of_ok hanswer.symm]
    exact hopen.bind_silent (hnote.bind_silent (hprepare.bind_silent hfinish))

/-! ## §2 Under a context -/

/-- A context that is done already is the end. -/
theorem watch_solveWithContext_of_done {c : ContextId} {cause : Interruption}
    (h : (w.contexts.error w.clock c).1 = some cause) (m : ModelId) (given : Option Datum) :
    (Model.solveWithContext m c given).watch w =
      ((.error (.interrupted cause), { w with contexts := (w.contexts.error w.clock c).2 }), []) := by
  unfold Model.solveWithContext
  rw [watch_bind_of_tacit (.contextError c) (on_contextError c w), h]
  rfl

/-- The fault of a solve is told anew, and the context answers afterwards as it did. -/
theorem answer_retell (c : ContextId) (fault : Fault) (w : World) :
    ∃ w', (Model.retell c fault).on w =
        (Model.retold (w.contexts.error w.clock c).1 (.error fault), w') ∧
      (w'.contexts.error w'.clock c).1 = (w.contexts.error w.clock c).1 := by
  unfold Model.retell
  split
  · rw [on_bind_of_ok (on_contextError c w)]
    refine ⟨{ w with contexts := (w.contexts.error w.clock c).2 }, ?_, Forest.error_again ..⟩
    rcases (w.contexts.error w.clock c).1 with _ | cause <;> rfl
  · next hne =>
    refine ⟨w, ?_, rfl⟩
    -- any other fault is passed on as it is
    have hretold : Model.retold (w.contexts.error w.clock c).1 (.error fault) = .error fault := by
      unfold Model.retold
      split
      · next heq => exact absurd (Except.error.inj heq) hne
      · rfl
    rw [hretold]
    rfl

/-- Putting a handle into the hook for polls changes nothing that the answer of a solve depends on. -/
theorem setAbort_frame {w₁ : World} (hs : w.Serves) (hm : w.model? m = some model) (handle : Option Handle)
    (hon : (Model.setAbort m handle).on w = (.ok (), w₁)) :
    w₁.clock = w.clock ∧ w₁.contexts = w.contexts ∧ w₁.script = w.script ∧ w₁.registry = w.registry ∧
      (∀ n, w₁.kindAt n = w.kindAt n) ∧
      ∃ abort, w₁.model? m = some { model with engine := { model.engine with abort := abort } } := by
  -- only the engine of model `m` is stored anew
  have hset (e : Engine) (w : World) (hm : w.model? m = some model) :
      (w.modifyModel m fun model' => { model' with engine := e }).model? m =
        some { model with engine := e } := by
    unfold World.modifyModel World.model?
    rw [Array.getElem?_modify, if_pos rfl]
    exact congrArg (Option.map _) hm
  cases hk : model.engine.kind with
  | glpk =>
    rw [Model.on_setAbort_glpk hm hk] at hon
    cases hon
    exact ⟨rfl, rfl, rfl, rfl, fun _ => rfl, handle, hset _ w hm⟩
  | lpsolve =>
    rw [Model.on_setAbort_lpsolve hs hm hk] at hon
    cases hon
    refine ⟨rfl, rfl, rfl, rfl, fun n => ?_, model.engine.abort, hset _ (w.after _) hm⟩
    exact (congrArg (fun s : Native.Store => (s.problem? n).bind Native.Problem.kind?)
      (Native.Store.apply_of_isAbout ⟨rfl, rfl⟩ w.native)).trans
      (Native.Store.kind?_modify _ _ n fun q => Native.Problem.kind?_apply q _)

/-- The answer of a solve does not depend on the handle that the engine has for polls. -/
theorem answered_setAbort (m : ModelId) (model : Model) (abort : Option Handle) (given : Option Datum)
    (k? : Option EngineKind) (room : Bool) (s : Script) :
    Model.answered m { model with engine := { model.engine with abort := abort } } given k? room s =
      Model.answered m model given k? room s := rfl

/-- A solve whose fault is told anew. -/
theorem yields_recovering_solve {c? : Option ContextId} {stop : Bool} {answer : Except Fault SolveResult}
    {given : Option Datum} {w₁ : World} (hw : w.ReadyFor c?)
    (hsolve : Yields (Model.solve m given) w answer stop w₁) (c : ContextId) :
    ∃ w₂, Yields (recovering (Model.solve m given) (Model.retell c)) w
        (Model.retold (w₁.contexts.error w₁.clock c).1 answer) stop w₂ ∧
      (w₂.contexts.error w₂.clock c).1 = (w₁.contexts.error w₁.clock c).1 ∧ w.Still w₂ := by
  have hsecure := Secure.recovering (Secure.solve hw m given) (tacit_retell c) fun fault v =>
    preserves_still_retell (w := v) c fault
  -- what the hooks do has been proved already; the answer is left
  suffices h : ∃ w₂, Yields (recovering (Model.solve m given) (Model.retell c)) w
        (Model.retold (w₁.contexts.error w₁.clock c).1 answer) stop w₂ ∧
      (w₂.contexts.error w₂.clock c).1 = (w₁.contexts.error w₁.clock c).1 by
    obtain ⟨w₂, hyields, herror⟩ := h
    obtain ⟨t, hon, -⟩ := id hyields
    have hstill := hsecure.still
    rw [hon] at hstill
    exact ⟨w₂, hyields, herror, hstill⟩
  cases answer with
  | ok result => exact ⟨w₁, hsolve.recovering_ok _, rfl⟩
  | error fault =>
    obtain ⟨w₂, hon, herror⟩ := answer_retell c fault w₁
    exact ⟨w₂, hsolve.recovering (tacit_retell c fault) hon, herror⟩

/-- A solve during which the engine polls with the handle of the context. -/
theorem yields_solvePolled {c? : Option ContextId} (hw : w.ReadyFor c?) (hu : ∀ k, ¬ w.AbortHeld k)
    (ht : w.Timed) (hs : w.script.Returns) (hm : w.model? m = some model) (hf : model.freed = false) {h : Handle}
    {c : ContextId} (hresolve : w.registry.resolve h = some (.context c)) (given : Option Datum) :
    ∃ stop w', Yields (Model.solvePolled m c given h) w
      (Model.retold (w'.contexts.error w'.clock c).1 (Model.answered m model given
        (w.kindAt model.engine.number) (decide (0 < w.registry.room)) (w.script.settled stop))) stop w' ∧
      w.Still w' := by
  obtain ⟨w₁, hset, hpolled, hback⟩ := Model.takesBack hw.serves hu hm h
  obtain ⟨hclock, -, hscript, hregistry, hkinds, abort, hm₁⟩ := setAbort_frame hw.serves hm (some h) hset
  have hw₁ := hw.polled hpolled hresolve
  obtain ⟨stop, w₂, hsolve⟩ := yields_solve hw₁ (by rw [World.Timed, hclock]; exact ht)
    (by rw [hscript]; exact hs) hm₁ hf given
  rw [answered_setAbort, hkinds, hscript, hregistry] at hsolve
  obtain ⟨w₃, hretold, herror, hstill⟩ := yields_recovering_solve hw₁ hsolve c
  obtain ⟨v, hclear, hstill₁, hcontexts, hclock₁⟩ := hback w₃ hstill
  -- the fault was told before the handle is taken back, when the context answered as it does afterwards
  have hsame : (v.contexts.error v.clock c).1 = (w₂.contexts.error w₂.clock c).1 := by
    rw [hcontexts, hclock₁, herror]
  refine ⟨stop, v, ?_, hstill₁⟩
  rw [hsame]
  exact Yields.bind_silent (.tacit (tacit_setAbort m (some h)) hset) (hretold.ensuring (tacit_setAbort m none) hclear)

/-- **The answer of a solve under a context** is that of the solve, told anew. -/
theorem yields_solveWithContext (hs : w.Serves) (hr : w.registry.Regular) (hu : w.Unhooked) (ht : w.Timed)
    (hscript : w.script.Returns) (hm : w.model? m = some model) (hf : model.freed = false) {c : ContextId}
    (hlive : (w.contexts.error w.clock c).1 = none) (given : Option Datum) :
    ∃ stop w', Yields (Model.solveWithContext m c given) w
      (if w.registry.room = 0 then .error .noSlot
        else Model.retold (w'.contexts.error w'.clock c).1 (Model.answered m model given
          (w.kindAt model.engine.number) (decide (1 < w.registry.room)) (w.script.settled stop))) stop w' := by
  have hcontext := Yields.tacit (.contextError c) (on_contextError c w)
  rw [hlive, (Forest.error_spec ..).1 hlive] at hcontext
  have hopen := Yields.tacit (.openModel m) (on_openModel_of_open hm hf)
  unfold Model.solveWithContext
  rcases hreg : w.registry.register (.context c) with fault | ⟨h, r⟩
  · obtain ⟨rfl, hroom⟩ := Registry.room_of_register_error hreg
    refine ⟨false, w, hcontext.bind_silent (hopen.bind_silent ?_)⟩
    rw [if_pos hroom]
    exact ⟨[], watch_registered_of_error hreg, rfl⟩
  have hroom := Registry.room_of_register hr hreg
  have hw : w.ReadyFor (some c) := .of_unhooked hs hr hu
  obtain ⟨hready, hresolve⟩ := hw.registered hreg
  obtain ⟨stop, w₁, hpolled, hstill⟩ := yields_solvePolled (w := { w with registry := r }) hready
    (fun k => (hu k).2) ht hscript hm hf hresolve given
  obtain ⟨r', hun, -⟩ := Registry.unregister_of_register hr hreg hstill.registry
  refine ⟨stop, { w₁ with registry := r' }, hcontext.bind_silent (hopen.bind_silent ?_)⟩
  -- one slot is taken by the context, so the model needs another one
  have hmore : decide (1 < w.registry.room) = decide (0 < r.room) := decide_eq_decide.mpr (by omega)
  rw [if_neg (by omega), hmore]
  exact hpolled.registered hreg hun

/-! ## §3 Polls -/

/-- A poll tells the run to stop exactly if the context is done. -/
theorem stop_eq_isSome {v : World} {h : Handle} {stop : Bool} {c : ContextId}
    (hsafe : (Moment.poll v h stop).Safe m (some c)) (hkept : (Moment.poll v h stop).Kept w) :
    stop = (v.contexts.error v.clock c).1.isSome := by
  obtain ⟨hheld, hresolves⟩ := hsafe
  obtain ⟨v', hon, -⟩ := hkept
  obtain ⟨c', hc', hresolve⟩ := (hresolves h).2 hheld
  -- the handle of the poll stands for the context of this solve
  cases hc'
  rw [on_shouldAbort_of_context hresolve] at hon
  cases hon
  rfl

/-- The cause that a poll has found is the cause from then on. -/
theorem error_of_stop {v : World} {h : Handle} {c : ContextId}
    (hsafe : (Moment.poll v h true).Safe m (some c)) (hkept : (Moment.poll v h true).Kept w) :
    ∃ cause, (v.contexts.error v.clock c).1 = some cause ∧ (w.contexts.error w.clock c).1 = some cause := by
  obtain ⟨cause, hcause⟩ := Option.isSome_iff_exists.mp (stop_eq_isSome hsafe hkept).symm
  obtain ⟨hheld, hresolves⟩ := hsafe
  obtain ⟨v', hon, hlater⟩ := hkept
  obtain ⟨c', hc', hresolve⟩ := (hresolves h).2 hheld
  cases hc'
  rw [on_shouldAbort_of_context hresolve] at hon
  obtain rfl := congrArg Prod.snd hon
  -- the poll has recorded the cause
  have hrecorded := hlater.recorded c cause ((Forest.error_spec ..).2 cause hcause).2
  exact ⟨cause, hcause, by rw [Forest.error_of_recorded hrecorded]⟩

/-- Without a context there are no polls that could stop a run. -/
theorem stops_of_alone (hw : w.ReadyFor none) (m : ModelId) (given : Option Datum) :
    ((Model.solve m given).watch w).2.any Moment.stops = false := by
  refine List.any_eq_false.mpr fun x hx hstops => ?_
  have hsafe := (Secure.solve hw m given).safe x hx
  cases x with
  -- a poll would need a context behind its handle
  | poll v h stop =>
    obtain ⟨c, hc, -⟩ := (hsafe.2 h).2 hsafe.1
    cases hc
  | message v h => cases hstops
  | leaving v h => cases hstops

end Action

namespace Model

variable {w : World} {m : ModelId} {model : Model}

/-- A registry that does not take the model makes no other difference. -/
theorem answered_without_room (m : ModelId) (model : Model) (given : Option Datum) (k? : Option EngineKind)
    (s : Script) : answered m model given k? false s = .error .noSlot ∨
      answered m model given k? false s = answered m model given k? true s := by
  cases h : methodFor model given with
  | error fault =>
    rw [answered_of_error h, answered_of_error h]
    exact .inr rfl
  -- the registry is full: the solve ends before the engine is asked
  | ok method =>
    rw [answered_of_ok h]
    exact .inl rfl

/-- The answer of a solve alone, whose runs return what is settled. -/
theorem on_solve_settled (hs : w.Serves) (hr : w.registry.Regular) (hu : w.Unhooked) (ht : w.Timed)
    (hscript : w.script.Returns) (hm : w.model? m = some model) (hf : model.freed = false)
    (given : Option Datum) (stopped : Bool) :
    ((solve m given).on { w with script := w.script.settled stopped }).1 =
      answered m model given (w.kindAt model.engine.number) (decide (0 < w.registry.room))
        (w.script.settled stopped) := by
  have hw : World.ReadyFor { w with script := w.script.settled stopped } none := .of_unhooked hs hr hu
  obtain ⟨stop, w', t, hon, hstops⟩ := Action.yields_solve hw ht (Script.returns_settled _ hscript) hm hf given
  -- without a context nothing can tell the solver to stop
  have halone := Action.stops_of_alone hw m given
  rw [hon, hstops] at halone
  cases halone
  exact congrArg (fun run => run.1.1) hon

/-- **A solve under a context.** If the context is done on entry, its error is all that happens. Otherwise the
runs of the engine may come back with polls and messages for as long as they like, while contexts are canceled
and the clock moves, also after they were told to stop. Every poll tells the run to stop exactly if the context
is done then, and the cause that it finds is still the cause at the end. The solve ends as a solve alone does
whose runs return the same codes, except that an abort is told as the error of the context if the context is done.
So an abort of a run that some poll told to stop is never told as such, and a success remains one. Only where
there are not two slot numbers left, the registry may refuse. -/
theorem solved_under_context (h : w.AtRest) (ht : w.Timed) (hscript : w.script.Returns)
    (hm : w.model? m = some model) (hf : model.freed = false) (c : ContextId)
    (given : Option Datum) :
    let run := (solveWithContext m c given).watch w
    (∀ cause, (w.contexts.error w.clock c).1 = some cause →
      run = ((.error (.interrupted cause), { w with contexts := (w.contexts.error w.clock c).2 }), [])) ∧
    ((w.contexts.error w.clock c).1 = none →
      let stopped := run.2.any Moment.stops
      let alone := ((solve m given).on { w with script := w.script.settled stopped }).1
      (∀ v h stop, .poll v h stop ∈ run.2 → stop = (v.contexts.error v.clock c).1.isSome ∧
        (stop = true → (run.1.2.contexts.error run.1.2.clock c).1 = (v.contexts.error v.clock c).1)) ∧
      (run.1.1 = retold (run.1.2.contexts.error run.1.2.clock c).1 alone ∨
        run.1.1 = .error .noSlot ∧ w.registry.room < 2) ∧
      (stopped = true → run.1.1 ≠ .error (.unsolved .userAbort)) ∧
      (∀ result, alone = .ok result → 2 ≤ w.registry.room → run.1.1 = .ok result)) ∧
    ∀ cause, (Fault.interruptedSolve cause).kind = (Fault.interrupted cause).kind ∧
      (Fault.interruptedSolve cause).message? = (Fault.interrupted cause).message? ∧
      (Fault.interruptedSolve cause).cause? = some (.unsolved .userAbort) := by
  obtain ⟨hs, hr, hu⟩ := h
  intro run
  refine ⟨fun cause hcause => Action.watch_solveWithContext_of_done hcause m given, fun hlive => ?_,
    fun cause => ⟨rfl, rfl, rfl⟩⟩
  obtain ⟨stop, w', t, hon, hstops⟩ :=
    Action.yields_solveWithContext hs hr hu ht hscript hm hf hlive given
  have hsecure : Action.Secure m (some c) w run := Action.Secure.solveWithContext hs hr hu m c given
  have halone := on_solve_settled hs hr hu ht hscript hm hf given stop
  change run = _ at hon
  rw [hon] at hsecure ⊢
  dsimp only
  rw [hstops, halone]
  refine ⟨fun v h stop hx => ⟨?_, ?_⟩, ?_, fun hstop => ?_, fun result hresult hroom => ?_⟩
  · exact Action.stop_eq_isSome (hsecure.safe _ hx) (hsecure.kept _ hx)
  · rintro rfl
    obtain ⟨cause, hfound, hlater⟩ := Action.error_of_stop (hsecure.safe _ hx) (hsecure.kept _ hx)
    exact hlater.trans hfound.symm
  · -- the context takes one slot number and the model another, while a solve alone needs one only
    rcases hroom : w.registry.room with _ | _ | n
    · exact .inr ⟨if_pos rfl, by omega⟩
    · rw [if_neg (by omega)]
      rcases answered_without_room m model given (w.kindAt model.engine.number) (w.script.settled stop)
        with hnone | hsame
      · exact .inr ⟨by rw [show decide (1 < 0 + 1) = false from rfl, hnone]; rfl, by omega⟩
      · exact .inl (congrArg _ hsame)
    · rw [if_neg (by omega), decide_eq_true (by omega : 1 < n + 1 + 1),
        decide_eq_true (by omega : 0 < n + 1 + 1)]
      exact .inl rfl
  · -- some poll found the context done, and it is still done when the fault is told
    obtain ⟨x, hx, hxstop⟩ := List.any_eq_true.mp (hstops.trans hstop)
    cases x with
    | poll v h stop' =>
      obtain rfl : stop' = true := hxstop
      obtain ⟨cause, -, hlater⟩ := Action.error_of_stop (hsecure.safe _ hx) (hsecure.kept _ hx)
      split
      · intro heq
        cases heq
      · exact retold_ne (by rw [hlater]; exact Option.some_ne_none cause) _
    | message v h => cases hxstop
    | leaving v h => cases hxstop
  · rw [decide_eq_true (by omega : 0 < w.registry.room)] at hresult
    rw [if_neg (by omega), decide_eq_true (by omega : 1 < w.registry.room), hresult]
    rfl

/-- One context is done before the solve, and its error is told at once. The other is canceled while the solver
runs, which goes on polling after it was told to stop while the clock is put back. Where the run returns the code
for a stop, the error of the context is told; where it returns that of success, so does the solve. -/
theorem solved_while_canceled :
    let meanwhile (stopCode : Option Int) : Interlude :=
      { clock := .zero, contexts := ⟨#[⟨none, none, none, []⟩, ⟨none, none, some .canceled, []⟩]⟩
        registry := .empty, surroundings := .standard
        script := { Script.standard with
          stopCode := stopCode
          events := [.poll false, .cancel 0, .poll false, .advance (.float (-1)), .poll false] } }
    let w (stopCode : Option Int) := World.initial.nextAll
      [.create "" (.text "minimize") [.engine (.named (.text "lpsolve"))],
        .addVariable 0 "x" (.text "continuous") (.int 1) (.int 0) (.int 1), .meanwhile (meanwhile stopCode)]
    let run (c : ContextId) (stopCode : Option Int) := (solveWithContext 0 c none).watch (w stopCode)
    (run 1 none).1.1 = .error (.interrupted .canceled) ∧ (run 0 none).1.1 = .error (.interruptedSolve .canceled) ∧
      (run 0 (some 0)).1.1 = .ok ⟨0, 2, .optimal, .simplex⟩ ∧
      (run 0 (some 0)).2.map Moment.handle = [1, 1, 1, 2, 1] := by
  intro meanwhile w run
  have hrest (stopCode : Option Int) : (w stopCode).AtRest :=
    World.atRest_initial.nextAll (by simp [meanwhile, Operation.Tidy, Registry.regular_empty])
  have hreturns (stopCode : Option Int) : (meanwhile stopCode).script.Returns :=
    ⟨by simp [meanwhile, Script.standard], by simp [meanwhile, RunEvent.Passes], _, rfl⟩
  have hstopping : ((w none).model? 0).map (·.freed) = some false := by decide +kernel
  have hsucceeding : ((w (some 0)).model? 0).map (·.freed) = some false := by decide +kernel
  obtain ⟨model₀, hm₀, hf₀⟩ := Option.map_eq_some_iff.mp hstopping
  obtain ⟨model₁, hm₁, hf₁⟩ := Option.map_eq_some_iff.mp hsucceeding
  have hspec (c : ContextId) := solved_under_context (hrest none) ⟨_, rfl⟩ (hreturns none) hm₀ hf₀ c none
  obtain ⟨-, htold, -, -⟩ := (hspec 0).2.1 (by decide +kernel)
  obtain ⟨-, -, -, hsuccess⟩ :=
    (solved_under_context (hrest (some 0)) ⟨_, rfl⟩ (hreturns (some 0)) hm₁ hf₁ 0 none).2.1 (by decide +kernel)
  have hstopped (stopCode : Option Int) (h : stopCode = none ∨ stopCode = some 0) :
      (run 0 stopCode).2.any Moment.stops = true := by
    rcases h with rfl | rfl <;> decide +kernel
  -- an abort and a success of the same solve, as it is alone
  have haborted : ((solve 0 none).on { w none with script := (w none).script.settled true }).1 =
      .error (.unsolved .userAbort) := by decide +kernel
  have hsucceeded : ((solve 0 none).on { w (some 0) with script := (w (some 0)).script.settled true }).1 =
      .ok ⟨0, 2, .optimal, .simplex⟩ := by decide +kernel
  refine ⟨?_, ?_, ?_, by decide +kernel⟩
  · have hdone : ((w none).contexts.error (w none).clock 1).1 = some .canceled := by decide +kernel
    exact congrArg (·.1.1) ((hspec 1).1 _ hdone)
  · have hcause : ((run 0 none).1.2.contexts.error (run 0 none).1.2.clock 0).1 = some .canceled := by
      decide +kernel
    have hroom : ¬ (w none).registry.room < 2 := by decide +kernel
    refine (htold.resolve_right fun h => hroom h.2).trans ?_
    rw [hcause, hstopped none (.inl rfl), haborted]
    rfl
  · refine hsuccess _ ?_ (by decide +kernel)
    rw [hstopped (some 0) (.inr rfl), hsucceeded]

end Model

end LinearProgram
