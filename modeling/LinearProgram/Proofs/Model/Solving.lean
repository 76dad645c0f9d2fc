import LinearProgram.Proofs.Engine.Solving
import LinearProgram.Proofs.Handle
import LinearProgram.Proofs.Model.Building

/-!
# What a solve does

A solve hands the coefficients over and runs the engine. To the model and its problem it does no more than
that: it is an edit by the calls that load the matrix, after which the revision of the model may be new.
All calls after the matrix are quiet, and no solver is started before them.

On scripts that return, the revision is new exactly if a solver was started. This needs the registry to
give up the registration of the model, which a regular registry does.
-/

namespace LinearProgram

open LinearProgram.Action

/-! ## §1 While something is registered -/

namespace Action

variable {α : Type} {w : World}

/-- A registration is refused, or the body runs with it and it is given up again, as far as that is
possible. -/
theorem on_registered (target : Target) (body : Handle → Action α) (w : World) :
    (registered target body).on w =
      match w.registry.register target with
      | .error fault => (.error fault, w)
      | .ok (h, r) =>
        let ran := (body h).on { w with registry := r }
        match ran.2.registry.unregister h with
        | .ok r' => (ran.1, { ran.2 with registry := r' })
        | .error fault => (.error fault, ran.2) := by
  unfold registered
  rw [on_bind_of_ok (on_get w)]
  cases hr : w.registry.register target with
  | error fault => rfl
  | ok p =>
    obtain ⟨h, r⟩ := p
    rw [on_bind_of_ok (on_lift _ w), on_bind_of_ok (on_modify _ _), on_ensuring]
    dsimp only
    rw [on_bind_of_ok (on_tell _ _), on_bind_of_ok (on_get _)]
    -- on leaving, the handle is looked up in the registry that the body left
    cases hu : ((body h).on { w with registry := r }).2.registry.unregister h with
    | error fault => rw [on_bind_of_error (on_lift _ _)]
    | ok r' => rw [on_bind_of_ok (on_lift _ _)]; rfl

/-- After a body that was run with a registration, nothing but the registry may still change, and an answer can
only be lost. -/
theorem on_registered_of_ok {target : Target} {h : Handle} {r : Registry Target}
    (hr : w.registry.register target = .ok (h, r)) (body : Handle → Action α) {report : Except Fault α} {w₁ : World}
    (hrun : (body h).on { w with registry := r } = (report, w₁)) :
    ∃ answer r', (registered target body).on w = (answer, { w₁ with registry := r' }) ∧
      ∀ x, answer = .ok x → report = .ok x := by
  rw [on_registered, hr]
  simp only [hrun]
  cases w₁.registry.unregister h with
  | ok r' => exact ⟨report, r', rfl, fun x hx => hx⟩
  -- a fault on leaving takes the place of the report
  | error fault => exact ⟨.error fault, w₁.registry, rfl, by rintro x ⟨⟩⟩

/-- Either there is no handle and nothing happens, or the body runs with one, which is given back
afterwards. -/
theorem registered_cases (target : Target) (body : Handle → Action α) (w : World) :
    (∃ fault, (registered target body).on w = (.error fault, w)) ∨
      ∃ h r, w.registry.register target = .ok (h, r) ∧
        let ran := (body h).on { w with registry := r }
        (registered target body).on w =
          match ran.2.registry.unregister h with
          | .ok r' => (ran.1, { ran.2 with registry := r' })
          | .error fault => (.error fault, ran.2) := by
  rw [on_registered]
  cases w.registry.register target with
  | error fault => exact Or.inl ⟨fault, rfl⟩
  | ok p => exact Or.inr ⟨p.1, p.2, rfl, rfl⟩

/-- If an answer comes through, the body gave it, and nothing but the registry differs around it. -/
theorem registered_eq_ok {target : Target} {body : Handle → Action α} {w w' : World} {x : α}
    (h : (registered target body).on w = (.ok x, w')) :
    ∃ handle r r' w₁, (body handle).on { w with registry := r } = (.ok x, w₁) ∧
      w' = { w₁ with registry := r' } := by
  rcases registered_cases target body w with ⟨fault, hon⟩ | ⟨handle, r, -, hon⟩
  · rw [hon] at h
    cases h
  · rcases hbody : (body handle).on { w with registry := r } with ⟨answer, w₁⟩
    rw [hbody] at hon
    replace h := hon.symm.trans h
    dsimp only at h
    -- the whole answered, so the handle was still there to be removed
    cases hu : w₁.registry.unregister handle with
    | error fault =>
      rw [hu] at h
      cases h
    | ok r' =>
      rw [hu] at h
      cases h
      exact ⟨handle, r, r', w₁, hbody, rfl⟩

end Action

namespace Model

variable {w : World} {m : ModelId} {model : Model} {n : Nat}

/-! ## §2 How a solve ends -/

/-- Between two states, only handles for polls were set and records written. -/
structure Calm (w w' : World) : Prop where
  undisturbed : World.Undisturbed w w'
  calls : ∀ c ∈ w.callsSince w', c.isQuiet = true ∧ c.isEntry = false
  registry : w'.registry = w.registry
  clock : w'.clock = w.clock

theorem Calm.of_idling {w' : World} (h : Idling w w') : Calm w w' :=
  ⟨World.Undisturbed.of_running h.toRunning, fun c hc => ⟨h.quiet c hc, h.idle c hc⟩, h.registry, h.clock⟩

/-- Two calm steps are a calm one. -/
theorem Calm.trans {w₁ w₂ : World} (h₁ : Calm w w₁) (h₂ : Calm w₁ w₂) : Calm w w₂ where
  undisturbed := h₁.undisturbed.trans h₂.undisturbed
  calls c hc := by
    rw [World.callsSince_trans h₁.undisturbed.extends_ h₂.undisturbed.extends_] at hc
    exact (List.mem_append.mp hc).elim (h₁.calls c) (h₂.calls c)
  registry := h₂.registry.trans h₁.registry
  clock := h₂.clock.trans h₁.clock

theorem Calm.not_entered {w' : World} (h : Calm w w') : ¬ w.Entered w' := by
  rintro ⟨c, hc, he⟩
  rw [(h.calls c hc).2] at he
  cases he

def renewed (model : Model) : Model := { model with revision := model.revision + 1 }

/-- How a solve ends that loaded a matrix by the calls `load`; `touched` says whether the revision is new.
Before the matrix, no solver is started. -/
structure Ran (w : World) (m : ModelId) (model : Model) (n : Nat) (load : List Native.Call)
    (touched : Bool) (outcome : Except Fault SolveResult × World) : Prop where
  edits : World.Edits w outcome.2 m (if touched then renewed else id) n load
  calls : ∃ before after, w.callsSince outcome.2 = before ++ (load ++ after) ∧
    (∀ c ∈ before, c.isQuiet = true ∧ c.isEntry = false) ∧ ∀ c ∈ after, c.IsRunOf n
  result : ∀ r, outcome.1 = .ok r → touched = true ∧ r.model = m ∧ r.revision = model.revision + 1
  regular : w.registry.Regular → outcome.2.registry.Regular ∧ w.registry.Keeps outcome.2.registry
  commits : w.registry.Regular → w.Going → w.script.Returns →
    outcome.2.Going ∧ (touched = true ↔ w.Entered outcome.2)

theorem on_touch (m : ModelId) (w : World) : (touch m).on w = (.ok (), w.modifyModel m renewed) := rfl

/-- Interpreting a report may write a record, and does nothing else. -/
theorem on_interpret (h : w.Compliant) (report : EngineReport) :
    ∃ w', (interpret report).on w = (report.interpret, w') ∧ Idling w w' := by
  unfold interpret
  cases report with
  | known o =>
    exact ⟨w, Action.on_lift _ w, Idling.refl h⟩
  -- an unknown code is logged before it is reported
  | undocumented engine code =>
    dsimp only
    rw [Action.on_bind_of_ok (Action.on_logError _ _ _)]
    exact ⟨_, Action.on_lift _ _, (Idling.kept w).writings (Idling.refl h)⟩

/-- A record that is written before changes nothing. -/
theorem Ran.of_log {load : List Native.Call} {touched : Bool} {level : Int} {name text : String}
    {outcome : Except Fault SolveResult × World}
    (h : Ran (w.log level name text) m model n load touched outcome) (hw : w.Compliant) :
    Ran w m model n load touched outcome where
  edits := h.edits.before (World.Undisturbed.of_log hw level name text)
  calls := h.calls
  result := h.result
  regular := h.regular
  commits := h.commits

/-- Records and handles for polls that come afterwards change nothing. -/
theorem Ran.andThen {load : List Native.Call} {touched : Bool} {w₁ w₂ : World}
    {r₁ r₂ : Except Fault SolveResult} (h : Ran w m model n load touched (r₁, w₁))
    (hcalm : Calm w₁ w₂) (hr : ∀ r, r₂ = .ok r → touched = true ∧ r.model = m ∧ r.revision = model.revision + 1) :
    Ran w m model n load touched (r₂, w₂) where
  edits := h.edits.andThen hcalm.undisturbed
  calls := by
    obtain ⟨before, after, hcs, hbefore, hquiet⟩ := h.calls
    refine ⟨before, after ++ w₁.callsSince w₂, ?_, hbefore, fun c hc => ?_⟩
    · rw [World.callsSince_trans h.edits.extends_ hcalm.undisturbed.extends_, hcs]
      simp
    · exact (List.mem_append.mp hc).elim (hquiet c) fun hc =>
        Native.Call.isRunOf_of_idle (hcalm.calls c hc)
  result := hr
  regular hreg := by
    rw [show w₂.registry = w₁.registry from hcalm.registry]
    exact h.regular hreg
  -- a calm step enters nothing, so the entries are those of the run
  commits hreg hg hs := by
    obtain ⟨hgoing, hiff⟩ := h.commits hreg hg hs
    refine ⟨⟨hcalm.undisturbed.compliant, ?_⟩, ?_⟩
    · obtain ⟨x, hx⟩ := hgoing.2
      exact ⟨x, by rw [hcalm.clock]; exact hx⟩
    · rw [World.entered_trans h.edits.extends_ hcalm.undisturbed.extends_, hiff]
      exact ⟨Or.inl, fun hor => hor.elim (fun hw => hw) fun hw => absurd hw hcalm.not_entered⟩

/-- The calls that load the matrix come first. -/
theorem Ran.of_load {load : List Native.Call} {touched : Bool}
    {outcome : Except Fault SolveResult × World}
    (h : Ran (w.afterAll load) m model n [] touched outcome) (hw : w.Compliant)
    (hload : ∀ c ∈ load, c.IsAbout n) (hentry : ∀ c ∈ load, c.isEntry = false) :
    Ran w m model n load touched outcome where
  edits := by
    have hedits : World.Edits w ((w.afterAll load).modifyModel m id) m id n load :=
      World.Edits.of_eq (f := id) hw (fun _ => rfl) hload
    rw [World.modifyModel_id] at hedits
    have htrans := hedits.trans h.edits
    rwa [List.append_nil] at htrans
  calls := by
    obtain ⟨before, after, hcs, hbefore, hquiet⟩ := h.calls
    refine ⟨[], before ++ after, ?_, by simp, fun c hc => ?_⟩
    · rw [World.callsSince_trans (World.Extends.afterAll w load) h.edits.extends_,
        World.callsSince_afterAll, hcs]
      simp
    · exact (List.mem_append.mp hc).elim (fun hb => Native.Call.isRunOf_of_idle (hbefore c hb))
        (hquiet c)
  result := h.result
  regular := by
    rw [← World.afterAll_registry w load]
    exact h.regular
  commits hreg hg hs := by
    have hg' : (w.afterAll load).Going := by
      refine ⟨hg.1.afterAll load, ?_⟩
      obtain ⟨x, hx⟩ := hg.2
      exact ⟨x, by rw [World.afterAll_clock]; exact hx⟩
    rw [← World.afterAll_script w load] at hs
    rw [← World.afterAll_registry w load] at hreg
    obtain ⟨hgoing, hiff⟩ := h.commits hreg hg' hs
    refine ⟨hgoing, ?_⟩
    -- nothing was entered while the matrix was loaded
    have hno : ¬ w.Entered (w.afterAll load) := by
      rintro ⟨c, hc, he⟩
      rw [World.callsSince_afterAll] at hc
      rw [hentry c hc] at he
      cases he
    rw [World.entered_trans (World.Extends.afterAll w load) h.edits.extends_, hiff]
    exact ⟨Or.inr, fun hor => hor.elim (fun hw => absurd hw hno) fun hw => hw⟩

/-- The state after a registration was given up, or could not be. -/
private def given {α : Type} (h : Handle) (outcome : Except Fault α × World) : Except Fault α × World :=
  match outcome.2.registry.unregister h with
  | .ok r => (outcome.1, { outcome.2 with registry := r })
  | .error fault => (.error fault, outcome.2)

/-- Giving a handle back touches the registry alone, and may turn an answer into a fault, never the other
way round. -/
private theorem given_cases {α : Type} (h : Handle) (outcome : Except Fault α × World) :
    (∃ r, (given h outcome).2 = { outcome.2 with registry := r }) ∧
      ∀ x, (given h outcome).1 = .ok x → outcome.1 = .ok x := by
  unfold given
  cases outcome.2.registry.unregister h with
  | ok r => exact ⟨⟨r, rfl⟩, fun x hx => hx⟩
  | error fault => exact ⟨⟨outcome.2.registry, rfl⟩, by rintro x ⟨⟩⟩

/-- A registration that is taken back in the end leaves the rest as the body left it. -/
private theorem undisturbed_registry {w' : World} {r r' : Registry Target}
    (h : Running { w with registry := r } w') : World.Undisturbed w { w' with registry := r' } := by
  have hu := World.Undisturbed.of_running h
  exact ⟨hu.compliant, hu.script, hu.models, hu.modelCount, hu.cores, hu.problemCount, hu.extends_⟩

/-- In a regular registry, what was registered for the run is given up after it. -/
private theorem unregister_after {w' : World} {r : Registry Target} {target : Target} {h : Handle}
    (hreg : w.registry.Regular) (hr : w.registry.register target = .ok (h, r))
    (hrun : Running { w with registry := r } w') :
    ∃ r', w'.registry.unregister h = .ok r' ∧ r'.Regular ∧ w.registry.Keeps r' := by
  obtain ⟨hregular, hkeeps, i, hfound, hapart⟩ := Registry.register_spec hreg hr
  -- the run leaves the registry alone
  have hsame : w'.registry = r := hrun.registry
  obtain ⟨r', hun, hregular', hothers⟩ := Registry.unregister_spec hregular hfound
  refine ⟨r', by rw [hsame]; exact hun, hregular', fun h' i' value' hf => ?_⟩
  exact hothers h' i' value' (hkeeps h' i' value' hf) (hapart h' i' value' hf)

/-- An engine that runs returns a report exactly if it started a solver. -/
private theorem solve_enters {e : Engine} {method : Method} {parameters : Parameters} {h : Handle}
    {answer : Except Fault EngineReport} {w' : World}
    (hran : (e.solve method parameters (some h)).on w = (answer, w')) (hg : w.Going)
    (hs : w.script.Returns) : w'.Going ∧ ((∃ report, answer = .ok report) ↔ w.Entered w') := by
  have hrun := Engine.preserves_solve e method parameters (some h) w (RunningOn.refl hg.1)
  rw [hran] at hrun
  -- the engine either runs its solver to a report or declines before
  rcases Engine.solve_commits e method parameters (some h) with henters | hdeclines
  · obtain ⟨report, w₃, hon, hgoing, -, -, hentered⟩ := henters w hg hs
    cases hran.symm.trans hon
    exact ⟨hgoing, fun _ => hentered, fun _ => ⟨report, rfl⟩⟩
  · obtain ⟨fault, w₃, hon, hnot, hclock⟩ := hdeclines w hg.1
    cases hran.symm.trans hon
    obtain ⟨x, hx⟩ := hg.2
    refine ⟨⟨hrun.compliant, x, ?_⟩, ?_, fun hentered => absurd hentered hnot⟩
    · rw [hclock]
      exact hx
    · rintro ⟨report, ⟨⟩⟩

/-- The run of the engine, while the model is registered. -/
theorem on_registeredSolve (hw : w.Compliant) (m : ModelId) (model : Model) (method : Method) :
    let outcome := (Action.registered (.model m) fun h =>
      model.engine.solve method model.parameters (some h)).on w
    World.Undisturbed w outcome.2 ∧ outcome.2.models = w.models ∧
      (∀ c ∈ w.callsSince outcome.2, c.IsRunOf model.engine.number) ∧
      (w.registry.Regular → outcome.2.registry.Regular ∧ w.registry.Keeps outcome.2.registry) ∧
      (w.registry.Regular → w.Going → w.script.Returns →
        outcome.2.Going ∧ ((∃ report, outcome.1 = .ok report) ↔ w.Entered outcome.2)) := by
  intro outcome
  rcases Action.registered_cases (.model m) (fun h =>
    model.engine.solve method model.parameters (some h)) w with ⟨fault, hon⟩ | ⟨h, r, hr, hon⟩
  · have houtcome : outcome = (.error fault, w) := hon
    rw [houtcome]
    refine ⟨World.Undisturbed.refl hw, rfl, by simp, fun hreg => ⟨hreg, fun _ _ _ hf => hf⟩, ?_⟩
    exact fun _ hg _ => ⟨hg, by simp [World.not_entered_self]⟩
  let w₁ : World := { w with registry := r }
  have hrun := Engine.preserves_solve model.engine method model.parameters (some h) w₁
    (RunningOn.refl (w := w₁) hw)
  rcases hran : (model.engine.solve method model.parameters (some h)).on w₁ with ⟨answer, w₂⟩
  rw [hran] at hrun
  have houtcome : outcome = given h (answer, w₂) := by
    refine hon.trans ?_
    rw [hran]
    rfl
  -- without a regular registry, the registration may be stuck
  obtain ⟨⟨r', hstate⟩, -⟩ := given_cases h (answer, w₂)
  rw [houtcome]
  refine ⟨hstate ▸ undisturbed_registry hrun.toRunning, ?_, ?_, fun hreg => ?_, fun hreg hg hs => ?_⟩
  · rw [hstate]
    exact hrun.models
  · rw [hstate]
    exact hrun.isRunOf
  · obtain ⟨r'', hun, hregular, hkeeps⟩ := unregister_after hreg hr hrun.toRunning
    unfold given
    rw [hun]
    exact ⟨hregular, hkeeps⟩
  · obtain ⟨r'', hun, -, -⟩ := unregister_after hreg hr hrun.toRunning
    unfold given
    rw [hun]
    have hg₁ : w₁.Going := hg
    obtain ⟨hgoing, hiff⟩ := solve_enters hran hg₁ hs
    exact ⟨hgoing, hiff⟩

/-- A note about the method may be written, and nothing else happens. -/
theorem on_noteMethod (model : Model) (given : Option Datum) (w : World) :
    (noteMethod model given).on w = (.ok (), w) ∨
      ∃ text, (noteMethod model given).on w = (.ok (), w.log LogRecord.debug source text) := by
  unfold noteMethod
  cases given with
  | none => exact Or.inl rfl
  | some d =>
    dsimp only
    -- a method that was ignored is logged, and nothing else happens
    split
    · exact Or.inl rfl
    · exact Or.inr ⟨_, rfl⟩

/-- The preparations find the method and hand the matrix over. A plain value in the place of the method is
noticed only when the matrix has been handed over. -/
theorem on_prepare (hw : w.Compliant) (model : Model) (given : Option Datum) :
    (prepare model given).on w =
      match resolveMethod model given, model.entries.triplets with
      | .error fault, _ => (.error fault, w)
      | .ok _, .error fault => (.error fault, w)
      | .ok setting, .ok t =>
        let loaded := w.afterAll (model.engine.loadCalls t)
        match setting.read with
        | .error fault => (.error fault, loaded)
        | .ok method => (.ok method, loaded.log LogRecord.debug source
            ("solving " ++ model.display ++ " with " ++ Choice.name method)) := by
  unfold prepare
  cases resolveMethod model given with
  | error fault => exact Action.on_bind_of_error (Action.on_lift _ w) _
  | ok setting =>
    rw [Action.on_bind_of_ok (Action.on_lift _ w)]
    cases model.entries.triplets with
    | error fault => exact Action.on_bind_of_error (Action.on_lift _ w) _
    | ok t =>
      rw [Action.on_bind_of_ok (Action.on_lift _ w), Action.on_bind_of_ok (Engine.on_loadMatrix hw t)]
      dsimp only
      -- the method is read last, after the matrix has been loaded
      cases setting.read with
      | error fault => exact Action.on_bind_of_error (Action.on_lift _ _) _
      | ok method => exact Action.on_bind_of_ok (Action.on_lift _ _) _

/-- A solve of an open model prepares and finishes, perhaps after a note. -/
theorem on_solve (hm : w.model? m = some model) (hf : model.freed = false) (given : Option Datum) :
    (solve m given).on w = (prepare model given >>= finish m model).on w ∨
      ∃ text, (solve m given).on w =
        (prepare model given >>= finish m model).on (w.log LogRecord.debug source text) := by
  unfold solve
  rw [Action.on_bind_of_ok (Action.on_openModel_of_open hm hf)]
  rcases on_noteMethod model given w with hon | ⟨text, hon⟩
  · exact Or.inl (Action.on_bind_of_ok hon _)
  · exact Or.inr ⟨text, Action.on_bind_of_ok hon _⟩

/-- A run that gave a report renews the revision, whatever the report says. -/
private theorem Ran.of_report {w' : World} (hu : World.Undisturbed w w')
    (hcalls : ∀ c ∈ w.callsSince w', c.IsRunOf n)
    (hregular : w.registry.Regular → w'.registry.Regular ∧ w.registry.Keeps w'.registry)
    (hcommits : w.registry.Regular → w.Going → w.script.Returns → w'.Going ∧ w.Entered w')
    {r : Except Fault SolveResult}
    (hr : ∀ result, r = .ok result → result.model = m ∧ result.revision = model.revision + 1) :
    Ran w m model n [] true (r, w'.modifyModel m renewed) := by
  -- the revision goes up once the engine has run, whatever it reported
  have hedits : World.Edits w' ((w'.afterAll []).modifyModel m renewed) m renewed n [] :=
    World.Edits.of_eq (f := renewed) hu.compliant (fun _ => rfl) (by simp)
  refine ⟨hedits.before hu, ⟨[], _, rfl, by simp, hcalls⟩, fun result h => ⟨rfl, hr result h⟩,
    hregular, fun hreg hg hs => ?_⟩
  obtain ⟨hgoing, hentered⟩ := hcommits hreg hg hs
  exact ⟨hgoing, fun _ => hentered, fun _ => rfl⟩

/-- Concluding a solve renews the revision, and then a record or two may be written. -/
theorem on_conclude (hw : w.Compliant) (hm : w.model? m = some model) (method : Method)
    (report : EngineReport) :
    ∃ r w', (conclude m method report).on w = (r, w') ∧ Idling (w.modifyModel m renewed) w' ∧
      ∀ result, r = .ok result → result.model = m ∧ result.revision = model.revision + 1 := by
  have hm₁ : (w.modifyModel m renewed).model? m = some (renewed model) := by
    unfold World.model? World.modifyModel at *
    rw [Array.getElem?_modify, if_pos rfl, hm]
    rfl
  let text := (renewed model).display ++ " finished: " ++ report.display
  have hw₁ : ((w.modifyModel m renewed).log LogRecord.debug source text).Compliant := hw
  have hlog : Idling (w.modifyModel m renewed) ((w.modifyModel m renewed).log LogRecord.debug source text) :=
    (Idling.kept _).writings (Idling.refl hw₁)
  obtain ⟨w₂, hinterpret, hidle⟩ := on_interpret hw₁ report
  unfold conclude
  rw [Action.on_bind_of_ok (on_touch m w), Action.on_bind_of_ok (Action.on_model_of_some hm₁),
    Action.on_bind_of_ok (Action.on_debug _ _ _)]
  -- the report is refused or interpreted after the revision was renewed
  cases hstatus : report.interpret with
  | error fault =>
    rw [hstatus] at hinterpret
    exact ⟨_, w₂, Action.on_bind_of_error hinterpret _, hlog.trans hidle, by rintro _ ⟨⟩⟩
  | ok status =>
    rw [hstatus] at hinterpret
    refine ⟨_, w₂, Action.on_bind_of_ok hinterpret _, hlog.trans hidle, ?_⟩
    rintro _ ⟨⟩
    exact ⟨rfl, rfl⟩

/-- A prepared solve starts the solver once, and then reads what has come of it. -/
private theorem on_finish (hw : w.Compliant) (hm : w.model? m = some model)
    (hn : model.engine.number = n) (method : Method) :
    ∃ touched, Ran w m model n [] touched ((finish m model method).on w) := by
  obtain ⟨hu, hmodels, hquiet, hregular, hcommits⟩ := on_registeredSolve hw m model method
  rw [hn] at hquiet
  rcases hreg : (Action.registered (.model m) fun h =>
    model.engine.solve method model.parameters (some h)).on w with ⟨fault | report, w₁⟩
  · -- no report: the revision stays
    rw [hreg] at hu hquiet hregular hcommits
    refine ⟨false, ?_⟩
    unfold finish
    rw [Action.on_bind_of_error hreg]
    refine ⟨hu.edits m n, ⟨[], _, rfl, by simp, hquiet⟩, ?_, hregular, fun hr hg hs => ?_⟩
    · rintro r ⟨⟩
    · obtain ⟨hgoing, hiff⟩ := hcommits hr hg hs
      exact ⟨hgoing, by simp, fun hentered => absurd (hiff.mpr hentered) (by simp)⟩
  · rw [hreg] at hu hmodels hquiet hregular hcommits
    refine ⟨true, ?_⟩
    have hm₁ : w₁.model? m = some model := by
      rw [World.model?, hmodels]
      exact hm
    obtain ⟨r, w₂, hconclude, hidle, hresult⟩ := on_conclude hu.compliant hm₁ method report
    have hran := Ran.of_report hu hquiet hregular (fun hr hg hs =>
      ⟨(hcommits hr hg hs).1, (hcommits hr hg hs).2.mp ⟨report, rfl⟩⟩) hresult
    have hfinish : (finish m model method).on w = (r, w₂) := (Action.on_bind_of_ok hreg _).trans hconclude
    rw [hfinish]
    exact hran.andThen (Calm.of_idling hidle) fun result h => ⟨rfl, hresult result h⟩

/-- The calls that load a matrix start no solver. -/
theorem isEntry_loadCalls (e : Engine) (t : Triplets) : ∀ c ∈ e.loadCalls t, c.isEntry = false := by
  intro c hc
  rcases Engine.loadCalls_cases hc with rfl | ⟨i, j, x, rfl⟩ <;> rfl

/-- A failure before anything happened but records and readings. -/
theorem Ran.of_idling {w' : World} (hidle : Idling w w') (fault : Fault) :
    Ran w m model n [] false (.error fault, w') where
  edits := (World.Undisturbed.of_running hidle.toRunning).edits m n
  calls := ⟨w.callsSince w', [], by simp, fun c hc => ⟨hidle.quiet c hc, hidle.idle c hc⟩, by simp⟩
  result := by rintro _ ⟨⟩
  regular hr := by
    rw [show w'.registry = w.registry from hidle.registry]
    exact ⟨hr, fun _ _ _ hf => hf⟩
  -- the world is as before, and no solver was entered
  commits _ hg _ := by
    obtain ⟨x, hx⟩ := hg.2
    exact ⟨⟨hidle.compliant, x, by rw [hidle.clock]; exact hx⟩, by simp [hidle.not_entered]⟩

/-- How a solve of an open model ends: before it loads the matrix, and then it has not started a solver, or
after loading it. -/
def Solves (w : World) (m : ModelId) (model : Model) (n : Nat)
    (outcome : Except Fault SolveResult × World) : Prop :=
  (Ran w m model n [] false outcome ∧ ∀ c ∈ w.callsSince outcome.2, c.isEntry = false) ∨
    ∃ t touched, model.entries.triplets = .ok t ∧
      Ran w m model n (model.engine.loadCalls t) touched outcome

/-- A solve that went through ran the solver. -/
theorem Solves.ran {outcome : Except Fault SolveResult × World} (h : Solves w m model n outcome) :
    ∃ load touched, Ran w m model n load touched outcome := by
  rcases h with ⟨hran, -⟩ | ⟨t, touched, -, hran⟩
  · exact ⟨_, _, hran⟩
  · exact ⟨_, _, hran⟩

theorem Solves.of_idling {w' : World} (hidle : Idling w w') (fault : Fault) :
    Solves w m model n (.error fault, w') := Or.inl ⟨Ran.of_idling hidle fault, hidle.idle⟩

/-- A record in the log may come first. -/
theorem Solves.of_log {level : Int} {name text : String} {outcome : Except Fault SolveResult × World}
    (h : Solves (w.log level name text) m model n outcome) (hw : w.Compliant) :
    Solves w m model n outcome :=
  h.imp (fun ⟨hran, hno⟩ => ⟨hran.of_log hw, hno⟩)
    fun ⟨t, touched, ht, hran⟩ => ⟨t, touched, ht, hran.of_log hw⟩

/-- **To prepare a solve and to finish it** is a way to solve. -/
private theorem on_prepare_finish (hw : w.Compliant) (hm : w.model? m = some model) {q : Native.Problem}
    (ho : model.engine.Owns w.native n q) (given : Option Datum) :
    Solves w m model n ((prepare model given >>= finish m model).on w) := by
  rw [Action.on_bind, on_prepare hw]
  cases resolveMethod model given with
  | error fault => exact Solves.of_idling (Idling.refl hw) fault
  | ok setting =>
  cases ht : model.entries.triplets with
  | error fault => exact Solves.of_idling (Idling.refl hw) fault
  | ok t =>
  have habout : ∀ c ∈ model.engine.loadCalls t, c.IsAbout n :=
    ho.number ▸ Engine.isAbout_loadCalls model.engine t
  have hw₁ : (w.afterAll (model.engine.loadCalls t)).Compliant := hw.afterAll _
  have hm₁ : (w.afterAll (model.engine.loadCalls t)).model? m = some model := by
    rw [World.afterAll_model?]
    exact hm
  dsimp only
  -- a method that is none leaves a load behind
  cases setting.read with
  | error fault =>
    exact Or.inr ⟨t, false, ht,
      (Ran.of_idling (Idling.refl hw₁) fault).of_load hw habout (isEntry_loadCalls _ t)⟩
  | ok method =>
    obtain ⟨touched, hran⟩ := on_finish (w := (w.afterAll (model.engine.loadCalls t)).log
      LogRecord.debug source ("solving " ++ model.display ++ " with " ++ Choice.name method))
      hw₁ hm₁ ho.number method
    exact Or.inr ⟨t, touched, ht, (hran.of_log hw₁).of_load hw habout (isEntry_loadCalls _ t)⟩

/-- **A solve** of an open model. -/
theorem solve_solves (hw : w.Compliant) (hm : w.model? m = some model) (hf : model.freed = false)
    {q : Native.Problem} (ho : model.engine.Owns w.native n q) (given : Option Datum) :
    Solves w m model n ((solve m given).on w) := by
  rcases on_solve hm hf given with hon | ⟨text, hon⟩
  · rw [hon]
    exact on_prepare_finish hw hm ho given
  · rw [hon]
    exact (on_prepare_finish (w := w.log LogRecord.debug source text) hw hm ho given).of_log hw

/-! ## §3 Under a context -/

/-- Giving a model another handle for polls leaves its core alone. -/
private theorem calm_modify (hw : w.Compliant) (hm : w.model? m = some model) {e : Engine}
    (hkind : e.kind = model.engine.kind) (hproblem : e.problem = model.engine.problem) :
    Calm w (w.modifyModel m fun model => { model with engine := e }) where
  undisturbed :=
    { compliant := hw
      script := rfl
      models := fun k => by
        unfold World.modelCore? World.model? World.modifyModel
        rw [Array.getElem?_modify]
        split
        · next hk =>
          -- the core of a model leaves the abort handle out
          subst hk
          rw [show w.models[m]? = some model from hm]
          simp [Model.core, hkind, hproblem]
        · rfl
      modelCount := Array.size_modify ..
      cores := fun _ => rfl
      problemCount := rfl
      extends_ := World.Extends.refl w }
  calls c hc := by
    have hnone : w.callsSince (w.modifyModel m fun model => { model with engine := e }) = [] :=
      World.callsSince_self w
    rw [hnone] at hc
    cases hc
  registry := rfl
  clock := rfl

/-- Setting the handle for aborts leaves all models with their problems. -/
private theorem on_setAbort (hw : w.Compliant) (hm : w.model? m = some model)
    (handle : Option Handle) : ∃ w', (setAbort m handle).on w = (.ok (), w') ∧ Calm w w' := by
  unfold setAbort Engine.setAbort
  rw [Action.on_bind_of_ok (Action.on_model_of_some hm)]
  cases hk : model.engine.kind with
  | glpk =>
    exact ⟨_, rfl, calm_modify hw hm hk.symm rfl⟩
  -- GLPK takes the handle with the run, lp_solve has it set as a hook
  | lpsolve =>
    let c : Native.Call := .lpsolve (.abortHook model.engine.number handle)
    have hafter : Calm w (w.after c) := Calm.of_idling (Idling.after hw rfl rfl)
    refine ⟨(w.after c).modifyModel m fun model' => { model' with engine := model.engine }, ?_,
      hafter.trans (calm_modify (w := w.after c) hw hm rfl rfl)⟩
    rw [Action.on_bind, Action.on_bind_of_ok (LpSolve.on_tell (hw.grants _))]
    rfl

/-- A solve reads nothing of a model but its core. -/
private theorem Ran.congr_core {model' : Model} (h : model'.core = model.core)
    {load : List Native.Call} {touched : Bool} {outcome : Except Fault SolveResult × World}
    (hran : Ran w m model' n load touched outcome) : Ran w m model n load touched outcome := by
  have hrevision : model'.revision = model.revision := congrArg (fun x => x.revision) h
  exact ⟨hran.edits, hran.calls, by rw [← hrevision]; exact hran.result, hran.regular, hran.commits⟩

private theorem loadCalls_congr {e e' : Engine} (hkind : e'.kind = e.kind)
    (hproblem : e'.problem = e.problem) (t : Triplets) : e'.loadCalls t = e.loadCalls t := by
  unfold Engine.loadCalls Engine.number
  rw [hkind, hproblem]

/-- What a solve does depends on the core of the model. -/
theorem Solves.congr_core {model' : Model} (h : model'.core = model.core)
    {outcome : Except Fault SolveResult × World} (hs : Solves w m model' n outcome) :
    Solves w m model n outcome := by
  rcases hs with ⟨hran, hno⟩ | ⟨t, touched, ht, hran⟩
  · exact Or.inl ⟨hran.congr_core h, hno⟩
  · -- entries, engine and problem are all the load depends on
    have hentries : model'.entries = model.entries := congrArg (fun x => x.entries) h
    have hkind : model'.engine.kind = model.engine.kind := congrArg (fun x => x.engine.kind) h
    have hproblem : model'.engine.problem = model.engine.problem :=
      congrArg (fun x => x.engine.problem) h
    rw [loadCalls_congr hkind hproblem] at hran
    rw [hentries] at ht
    exact Or.inr ⟨t, touched, ht, hran.congr_core h⟩

/-- What is calm afterwards is part of the solve, and an answer can only be lost. -/
private theorem Solves.andThen {w₁ w₂ : World} {r₁ r₂ : Except Fault SolveResult}
    (h : Solves w m model n (r₁, w₁)) (hcalm : Calm w₁ w₂) (hr : ∀ r, r₂ = .ok r → r₁ = .ok r) :
    Solves w m model n (r₂, w₂) := by
  rcases h with ⟨hran, hno⟩ | ⟨t, touched, ht, hran⟩
  · refine Or.inl ⟨hran.andThen hcalm fun r h => hran.result r (hr r h), fun c hc => ?_⟩
    rw [World.callsSince_trans hran.edits.extends_ hcalm.undisturbed.extends_] at hc
    exact (List.mem_append.mp hc).elim (hno c) fun hc => (hcalm.calls c hc).2
  · exact Or.inr ⟨t, touched, ht, hran.andThen hcalm fun r h => hran.result r (hr r h)⟩

private theorem undisturbed_withRegistry (hw : w.Compliant) (r : Registry Target) :
    World.Undisturbed w { w with registry := r } :=
  ⟨hw, rfl, fun _ => rfl, rfl, fun _ => rfl, rfl, World.Extends.refl w⟩

/-- What was registered around a solve can be given up after it. -/
private theorem Ran.unregister {w₁ : World} {target : Target} {h : Handle} {r : Registry Target}
    {load : List Native.Call} {touched : Bool} {outcome : Except Fault SolveResult × World}
    (hran : Ran w₁ m model n load touched outcome) (hreg : w.registry.Regular)
    (hr : w.registry.register target = .ok (h, r)) (hsame : w₁.registry = r) :
    ∃ r', outcome.2.registry.unregister h = .ok r' ∧ r'.Regular ∧ w.registry.Keeps r' := by
  subst hsame
  obtain ⟨hregular, hkeeps, i, hfound, hapart⟩ := Registry.register_spec hreg hr
  -- the run keeps every handle, so the one of this solve as well
  obtain ⟨hregular', hkeeps'⟩ := hran.regular hregular
  obtain ⟨r', hun, hregular'', hothers⟩ := Registry.unregister_spec hregular' (hkeeps' h i target hfound)
  refine ⟨r', hun, hregular'', fun h' i' value hf => ?_⟩
  have hf₁ := hkeeps h' i' value hf
  exact hothers h' i' value (hkeeps' h' i' value hf₁) (hapart h' i' value hf)

/-- Around a solve, a registration may last. -/
private theorem Ran.registered {w₁ : World} {target : Target} {h : Handle} {r : Registry Target}
    {load : List Native.Call} {touched : Bool} {outcome : Except Fault SolveResult × World}
    (hran : Ran w₁ m model n load touched outcome) (hw : w.Compliant)
    (hr : w.registry.register target = .ok (h, r)) (hcalm : Calm { w with registry := r } w₁) :
    Ran w m model n load touched (given h outcome) := by
  obtain ⟨⟨r', hstate⟩, hanswer⟩ := given_cases h outcome
  have hbefore : World.Undisturbed w w₁ := (undisturbed_withRegistry hw r).trans hcalm.undisturbed
  have hafter : World.Undisturbed outcome.2 (given h outcome).2 := by
    rw [hstate]
    exact undisturbed_withRegistry hran.edits.compliant r'
  have hcalls : w.callsSince (given h outcome).2 = w.callsSince w₁ ++ w₁.callsSince outcome.2 := by
    rw [hstate]
    exact World.callsSince_trans hbefore.extends_ hran.edits.extends_
  have hsame : w₁.registry = r := hcalm.registry
  refine ⟨(hran.edits.before hbefore).andThen hafter, ?_, fun result hres => ?_, fun hreg => ?_,
    fun hreg hg hs => ?_⟩
  · obtain ⟨before, after, hcs, hquiet, hafter⟩ := hran.calls
    refine ⟨w.callsSince w₁ ++ before, after, ?_, fun c hc => ?_, hafter⟩
    · rw [hcalls, hcs, List.append_assoc]
    · exact (List.mem_append.mp hc).elim (hcalm.calls c) (hquiet c)
  · exact hran.result result (hanswer result hres)
  · obtain ⟨r', hun, hregular, hkeeps⟩ := hran.unregister hreg hr hsame
    unfold given
    rw [hun]
    exact ⟨hregular, hkeeps⟩
  · -- what the solve needs of the state is there before the registration already
    have hg₁ : w₁.Going := by
      obtain ⟨x, hx⟩ := hg.2
      exact ⟨hcalm.undisturbed.compliant, x, by rw [hcalm.clock]; exact hx⟩
    have hs₁ : w₁.script.Returns := by rw [hcalm.undisturbed.script]; exact hs
    have hreg₁ : w₁.registry.Regular := by
      rw [hsame]
      exact (Registry.register_spec hreg hr).1
    obtain ⟨hgoing, hiff⟩ := hran.commits hreg₁ hg₁ hs₁
    have hentered : w.Entered (given h outcome).2 ↔ w₁.Entered outcome.2 := by
      unfold World.Entered
      rw [hcalls]
      refine ⟨fun ⟨c, hc, he⟩ => ?_, fun ⟨c, hc, he⟩ => ⟨c, List.mem_append_right _ hc, he⟩⟩
      rcases List.mem_append.mp hc with hc | hc
      · exact absurd ⟨c, hc, he⟩ hcalm.not_entered
      · exact ⟨c, hc, he⟩
    refine ⟨?_, hiff.trans hentered.symm⟩
    rw [hstate]
    exact hgoing

/-- A solve with a handle for it is a solve. -/
private theorem Solves.registered {w₁ : World} {target : Target} {h : Handle} {r : Registry Target}
    {outcome : Except Fault SolveResult × World} (hsolves : Solves w₁ m model n outcome)
    (hw : w.Compliant) (hr : w.registry.register target = .ok (h, r))
    (hcalm : Calm { w with registry := r } w₁) : Solves w m model n (given h outcome) := by
  rcases hsolves with ⟨hran, hno⟩ | ⟨t, touched, ht, hran⟩
  · refine Or.inl ⟨hran.registered hw hr hcalm, fun c hc => ?_⟩
    obtain ⟨⟨r', hstate⟩, -⟩ := given_cases h outcome
    have hbefore := (undisturbed_withRegistry hw r).trans hcalm.undisturbed
    -- registering makes no call of the engine
    have hcalls : w.callsSince (given h outcome).2 = w.callsSince w₁ ++ w₁.callsSince outcome.2 := by
      rw [hstate]
      exact World.callsSince_trans hbefore.extends_ hran.edits.extends_
    rw [hcalls] at hc
    exact (List.mem_append.mp hc).elim (fun hc => (hcalm.calls c hc).2) (hno c)
  · exact Or.inr ⟨t, touched, ht, hran.registered hw hr hcalm⟩

/-- A fault that is told anew remains a fault, and nothing else happens but a look at the context. -/
private theorem on_retell (c : ContextId) (fault : Fault) (hw : w.Compliant) :
    ∃ fault' w', (retell c fault).on w = (.error fault', w') ∧ Calm w w' := by
  unfold retell
  split
  · rw [Action.on_bind_of_ok (Action.on_contextError c w)]
    have hcontext : Calm w { w with contexts := (w.contexts.error w.clock c).2 } :=
      Calm.of_idling (Idling.of_eq hw rfl rfl rfl rfl rfl rfl rfl)
    -- asking the context may record its deadline, which the cores do not see
    cases (w.contexts.error w.clock c).1 with
    | some cause => exact ⟨_, _, rfl, hcontext⟩
    | none => exact ⟨_, _, rfl, hcontext⟩
  · exact ⟨_, _, rfl, Calm.of_idling (Idling.refl hw)⟩

/-- A solve whose fault may be told anew, after which the handle for polls is removed. -/
private theorem on_retold (hw : w.Compliant) {q : Native.Problem} (hh : w.Holds m model.core n q)
    (c : ContextId) (method : Option Datum) :
    Solves w m model n ((Action.ensuring (Action.recovering (solve m method) (retell c))
      (setAbort m none)).on w) := by
  obtain ⟨model', q', hm, hf, ho, hcore, -⟩ := hh.owns
  have hsolves := (solve_solves hw hm hf ho method).congr_core hcore
  have hrecovered : Solves w m model n ((Action.recovering (solve m method) (retell c)).on w) := by
    rw [Action.on_recovering]
    rcases hon : (solve m method).on w with ⟨fault | r, w₁⟩
    · rw [hon] at hsolves
      obtain ⟨load, touched, hran⟩ := hsolves.ran
      have hw₁ : w₁.Compliant := hran.edits.compliant
      obtain ⟨fault', w₂, hretold, hcalm⟩ := on_retell c fault hw₁
      dsimp only
      rw [hretold]
      exact hsolves.andThen hcalm (by rintro r ⟨⟩)
    · rw [hon] at hsolves
      exact hsolves
  -- the model is still there, so that the handle can be removed
  rcases hon : (Action.recovering (solve m method) (retell c)).on w with ⟨answer, w₁⟩
  rw [hon] at hrecovered
  obtain ⟨load, touched, hran⟩ := hrecovered.ran
  have hedits := hran.edits
  have hlt : m < w₁.models.size := by
    rw [hedits.modelCount]
    exact hh.lt_size
  have hm₁ : w₁.model? m = some w₁.models[m] := Array.getElem?_eq_getElem hlt
  obtain ⟨w₂, habort, hcalm⟩ := on_setAbort hedits.compliant hm₁ none
  rw [Action.on_ensuring, hon]
  dsimp only
  rw [habort]
  exact hrecovered.andThen hcalm fun r h => h

/-- **A solve under a context** ends like a solve. -/
theorem solveWithContext_solves (hw : w.Compliant) (hm : w.model? m = some model)
    (hf : model.freed = false) {q : Native.Problem} (ho : model.engine.Owns w.native n q)
    (c : ContextId) (method : Option Datum) :
    Solves w m model n ((solveWithContext m c method).on w) := by
  unfold solveWithContext
  rw [Action.on_bind_of_ok (Action.on_contextError c w)]
  let w₁ : World := { w with contexts := (w.contexts.error w.clock c).2 }
  have hcontext : Idling w w₁ := Idling.of_eq hw rfl rfl rfl rfl rfl rfl rfl
  cases (w.contexts.error w.clock c).1 with
  | some cause => exact Solves.of_idling hcontext _
  | none =>
  dsimp only
  rw [Action.on_bind_of_ok (Action.on_openModel_of_open (w := w₁) hm hf)]
  rcases Action.registered_cases (.context c) (solvePolled m c method) w₁ with ⟨fault, hon⟩ | ⟨h, r, hr, hon⟩
  · rw [hon]
    exact Solves.of_idling hcontext fault
  · -- from here the context stands in the registry, and the model asks for it
    let w₂ : World := { w₁ with registry := r }
    obtain ⟨w₃, habort, hcalm⟩ := on_setAbort (w := w₂) hw hm (some h)
    have hh : w₂.Holds m model.core n q.core := World.Holds.of_owns hm hf ho
    have hretold := on_retold hcalm.undisturbed.compliant (hcalm.undisturbed.holds_iff.mpr hh) c method
    have hfirst : Calm { w with registry := r } w₂ :=
      Calm.of_idling (Idling.of_eq hw rfl rfl rfl rfl rfl rfl rfl)
    have hsolved : (solvePolled m c method h).on w₂ = _ := Action.on_bind_of_ok habort _
    rw [hon, hsolved]
    exact hretold.registered hw hr (hfirst.trans hcalm)

end Model

end LinearProgram
