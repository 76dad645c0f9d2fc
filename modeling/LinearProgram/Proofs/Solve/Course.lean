import LinearProgram.Proofs.Provenance
import LinearProgram.Proofs.Solve.Interrupted

/-!
# The course of a solve

A solve goes through the same steps each time: it finds the method that it is asked for by, the matrix is loaded,
the model is registered, the engine is run with the method that the asked one stands for, and the registration is
given up. A solve under a context does this between a registration of the context and its end, if the context is
not done.

`Model.Course` and `Model.CourseUnder` list the ways in which this can go, with the calls around the run of the
engine. What is said of methods and calls further on follows from these lists.
-/

namespace LinearProgram

open LinearProgram.Action

/-! ## §1 Methods -/

/-- What a method stands for in a model; `integral` says that some variable there is not continuous. -/
inductive Method.StandsFor (integral : Prop) : Method → Method → Prop
  | simplex : StandsFor integral .simplex .simplex
  | branchCut : StandsFor integral .branchCut .branchCut
  | auto_branchCut (h : integral) : StandsFor integral .auto .branchCut
  | auto_simplex (h : ¬ integral) : StandsFor integral .auto .simplex

namespace Method.StandsFor

variable {integral : Prop} {asked method : Method}

theorem ne_auto (h : StandsFor integral asked method) : method ≠ .auto := by cases h <;> simp

theorem eq_branchCut (h : StandsFor integral asked method) (hne : method ≠ .simplex) : method = .branchCut := by
  cases h with
  | branchCut | auto_branchCut => rfl
  | simplex | auto_simplex => exact absurd rfl hne

theorem congr {integral' : Prop} (h : StandsFor integral asked method) (hiff : integral ↔ integral') :
    StandsFor integral' asked method := propext hiff ▸ h

end Method.StandsFor

namespace Model

variable {model : Model} {given : Option Datum} {asked : Method}

/-- The method that a solve is asked for by: the given one, or else that of the parameters. -/
def wanted (model : Model) (given : Option Datum) : Except Fault Method :=
  match given with
  | some d => Choice.read d
  | none => do (← model.parameters.method).read

/-- The method that is used stands for the one that was asked for. -/
theorem effectiveMethod_standsFor (kinds : List VariableKind) (asked : Method) :
    Method.StandsFor (∃ k ∈ kinds, k ≠ .continuous) asked (effectiveMethod kinds asked) := by
  cases asked with
  | simplex => exact .simplex
  | branchCut => exact .branchCut
  | auto =>
    have hany : kinds.any (· != .continuous) = true ↔ ∃ k ∈ kinds, k ≠ .continuous := by
      simp [List.any_eq_true]
    -- `auto` looks for a variable that is not continuous
    by_cases h : kinds.any (· != .continuous) = true
    · rw [effectiveMethod, if_pos h]
      exact .auto_branchCut (hany.mp h)
    · rw [effectiveMethod, if_neg h]
      exact .auto_simplex fun hexists => h (hany.mpr hexists)

/-- Where no method is asked for, none is found, neither before the matrix is loaded nor after it. -/
theorem resolveMethod_of_unasked {fault : Fault} (h : model.wanted given = .error fault) :
    (∃ fault', resolveMethod model given = .error fault') ∨ ∃ d, resolveMethod model given = .ok (.plain d) := by
  unfold wanted at h
  unfold resolveMethod
  cases given with
  | some d =>
    dsimp only at h ⊢
    rw [h]
    exact .inl ⟨_, rfl⟩
  | none =>
    dsimp only at h ⊢
    cases hs : model.parameters.method with
    | error fault => exact .inl ⟨_, rfl⟩
    | ok setting =>
      rw [hs] at h
      cases setting with
      -- something assigned that is no method is passed on, and read after the load
      | plain d => exact .inr ⟨d, rfl⟩
      | method method => cases h

/-- Where a method was asked for, the one that stands for it is found. -/
theorem resolveMethod_of_asked (h : model.wanted given = .ok asked) :
    resolveMethod model given = .ok (.method (effectiveMethod model.kinds asked)) := by
  unfold wanted at h
  unfold resolveMethod
  cases given with
  | some d =>
    dsimp only at h ⊢
    rw [h]
    rfl
  -- no method given: the parameters decide
  | none =>
    dsimp only at h ⊢
    cases hs : model.parameters.method with
    | error fault =>
      rw [hs] at h
      cases h
    | ok setting =>
      rw [hs] at h
      cases setting with
      | plain d => cases h
      | method method =>
        cases h
        rfl

/-! ## §2 Before and after the run -/

end Model

namespace World

/-- From `w` to `w₁`, the calls `cs` were made, and nothing changed that a solve goes by. -/
structure Made (cs : List Native.Call) (w w₁ : World) : Prop where
  calls : w₁.calls = w.calls ++ cs.toArray
  compliant : w₁.Compliant
  script : w₁.script = w.script
  clock : w₁.clock = w.clock
  registry : w₁.registry = w.registry
  kindAt : ∀ n, w₁.kindAt n = w.kindAt n

/-- From `w` to `w₁`, no call was made, and no model got another engine. -/
structure Silent (w w₁ : World) : Prop where
  calls : w₁.calls = w.calls
  allowance : w₁.allowance = w.allowance
  engines : ∀ k, w₁.engine? k = w.engine? k

variable {w w₁ : World}

protected theorem Silent.refl (w : World) : w.Silent w := ⟨rfl, rfl, fun _ => rfl⟩

theorem Silent.compliant (h : w.Silent w₁) (hw : w.Compliant) : w₁.Compliant := by
  rw [Compliant, h.allowance]
  exact hw

instance (w : World) : NoteClosed w.Silent := ⟨fun h => ⟨h.calls, h.allowance, h.engines⟩⟩

protected theorem Made.refl (hw : w.Compliant) : w.Made [] w := ⟨by simp, hw, rfl, rfl, rfl, fun _ => rfl⟩

theorem Made.log {cs : List Native.Call} (h : w.Made cs w₁) (level : Int) (name text : String) :
    w.Made cs (w₁.log level name text) := ⟨h.calls, h.compliant, h.script, h.clock, h.registry, h.kindAt⟩

/-- Calls about one problem leave the kinds of all problems as they are. -/
theorem kindAt_afterAll {cs : List Native.Call} {k : Nat} (h : ∀ c ∈ cs, c.IsAbout k) (w : World) (n : Nat) :
    (w.afterAll cs).kindAt n = w.kindAt n := by
  unfold kindAt
  rw [afterAll_native, Native.Store.problem?_applyAll h]
  -- the calls change problem `k`, though not its kind
  split
  · next hn =>
    rw [hn]
    cases w.native.problem? k with
    | none => rfl
    | some q => exact Native.Problem.kind?_applyAll q cs
  · rfl

theorem Made.of_afterAll (hw : w.Compliant) {cs : List Native.Call} {k : Nat} (h : ∀ c ∈ cs, c.IsAbout k) :
    w.Made cs (w.afterAll cs) :=
  ⟨afterAll_calls w cs, hw.afterAll cs, afterAll_script w cs, afterAll_clock w cs, afterAll_registry w cs,
    kindAt_afterAll h w⟩

/-- What is made in two parts is made with the calls of both. -/
theorem Made.trans {cs ds : List Native.Call} {w₂ : World} (h₁ : w.Made cs w₁) (h₂ : w₁.Made ds w₂) :
    w.Made (cs ++ ds) w₂ where
  calls := by rw [h₂.calls, h₁.calls, Array.append_assoc]; simp
  compliant := h₂.compliant
  script := h₂.script.trans h₁.script
  clock := h₂.clock.trans h₁.clock
  registry := h₂.registry.trans h₁.registry
  kindAt n := (h₂.kindAt n).trans (h₁.kindAt n)

theorem Made.withRegistry {cs : List Native.Call} (h : w.Made cs w₁) (r : Registry Target) :
    Made cs { w with registry := r } { w₁ with registry := r } :=
  ⟨h.calls, h.compliant, h.script, h.clock, rfl, h.kindAt⟩

end World

namespace Model

variable {w w' : World} {m : ModelId} {model : Model}

/-- How a solve goes that runs the engine with the method that there is, if it comes to that. -/
inductive Course (w : World) (m : ModelId) (model : Model) :
    Option Method → Except Fault SolveResult × World → Prop
  /-- There is no method. This may be noticed when the matrix is loaded. -/
  | undecided {cs fault w'} (h : w.Made cs w') (hidle : ∀ c ∈ cs, c.isEntry = false)
      (hengines : ∀ k, w'.engine? k = w.engine? k) : Course w m model none (.error fault, w')
  /-- The coefficients cannot be handed over. -/
  | unloaded {method fault w'} (ht : model.entries.triplets = .error fault) (h : w.Made [] w')
      (hengines : ∀ k, w'.engine? k = w.engine? k) : Course w m model (some method) (.error fault, w')
  /-- The matrix is loaded, but there is no room for the model. -/
  | unregistered {method t fault w'} (ht : model.entries.triplets = .ok t)
      (hr : w.registry.register (.model m) = .error fault) (h : w.Made (model.engine.loadCalls t) w')
      (hengines : ∀ k, w'.engine? k = w.engine? k) : Course w m model (some method) (.error fault, w')
  /-- The engine is run. What comes after it makes no calls. -/
  | ran {method t h r w₁ report w₂ answer w'} (ht : model.entries.triplets = .ok t)
      (hr : w.registry.register (.model m) = .ok (h, r))
      (h₁ : World.Made (model.engine.loadCalls t) { w with registry := r } w₁)
      (hrun : (model.engine.solve method model.parameters (some h)).on w₁ = (report, w₂))
      (h₂ : w₂.Silent w') (hengines : ∀ k, w'.engine? k = w.engine? k)
      (hanswer : ∀ result, answer = .ok result →
        result.method = method ∧ report = .ok (.known (.solved result.status))) :
      Course w m model (some method) (answer, w')

/-- What is made of a report makes no calls. -/
theorem silent_conclude (m : ModelId) (method : Method) (report : EngineReport) :
    Preserves w.Silent (conclude m method report) := by
  -- the revision is no part of what `Silent` sees
  have htouch : Preserves w.Silent (touch m) := fun v h =>
    have hstill := World.Still.modifyModel (f := renewed) v m fun _ => rfl
    ⟨h.calls, h.allowance, fun k => (hstill.engine?_eq k).trans (h.engines k)⟩
  unfold conclude interpret
  refine htouch.bind fun _ => (reads_model m).bind fun model => (reads_debug _ _).bind fun _ =>
    Preserves.bind ?_ fun _ => Preserves.pure _
  cases report with
  | known outcome => exact Preserves.lift _
  | undocumented engine code => exact (reads_logError _ _).bind fun _ => Preserves.lift _

/-- A result is that of a reported solution. -/
theorem conclude_eq_ok {m : ModelId} {method : Method} {report : EngineReport} {r : SolveResult}
    (h : (conclude m method report).on w = (.ok r, w')) :
    r.method = method ∧ report = .known (.solved r.status) := by
  unfold conclude at h
  -- touch the model, read it, log, interpret: the last alone decides the answer
  obtain ⟨-, w₁, -, h⟩ := on_bind_eq_ok.mp h
  obtain ⟨model, w₂, -, h⟩ := on_bind_eq_ok.mp h
  rw [on_bind_of_ok (on_debug _ _ _)] at h
  obtain ⟨status, w₃, hstatus, h⟩ := on_bind_eq_ok.mp h
  obtain ⟨rfl, -⟩ := on_pure_eq_ok.mp h
  exact ⟨rfl, (on_interpret_eq_ok hstatus).1⟩

/-- A solve whose matrix is loaded takes its course from there. -/
theorem course_finish {t : Triplets} (ht : model.entries.triplets = .ok t) {v : World}
    (hv : w.Made (model.engine.loadCalls t) v) (hmodels : v.models = w.models) (method : Method) :
    Course w m model (some method) ((finish m model method).on v) := by
  have hengines {v' : World} (h : v'.models = v.models) (k : ModelId) : v'.engine? k = w.engine? k := by
    rw [World.engine?, World.model?, h, hmodels]
    rfl
  unfold finish
  rcases hr : w.registry.register (.model m) with fault | ⟨h, r⟩
  · have hon : (Action.registered (.model m) fun h =>
        model.engine.solve method model.parameters (some h)).on v = (.error fault, v) := by
      rw [on_registered, hv.registry, hr]
    rw [on_bind_of_error hon]
    exact .unregistered ht hr hv (hengines rfl)
  · have hrunning := Engine.preserves_solve model.engine method model.parameters (some h)
      { v with registry := r } (RunningOn.refl (w := { v with registry := r }) hv.compliant)
    rcases hrun : (model.engine.solve method model.parameters (some h)).on { v with registry := r } with
      ⟨report, w₂⟩
    rw [hrun] at hrunning
    obtain ⟨answer, r', hon, hreport⟩ := on_registered_of_ok (hv.registry ▸ hr)
      (fun h => model.engine.solve method model.parameters (some h)) hrun
    -- giving the handle of the model back is no call
    have hafter : w₂.Silent { w₂ with registry := r' } := ⟨rfl, rfl, fun _ => rfl⟩
    cases answer with
    | error fault =>
      rw [on_bind_of_error hon]
      exact .ran ht hr (hv.withRegistry r) hrun hafter (hengines hrunning.models) (by rintro result ⟨⟩)
    | ok x =>
      rw [on_bind_of_ok hon]
      have hsilent := silent_conclude m method x _ hafter
      rcases hconclude : (conclude m method x).on { w₂ with registry := r' } with ⟨answer, w'⟩
      rw [hconclude] at hsilent
      refine .ran ht hr (hv.withRegistry r) hrun hsilent (fun k => ?_) fun result hresult => ?_
      · exact (hsilent.engines k).trans (hengines hrunning.models k)
      · subst hresult
        obtain ⟨hmethod, rfl⟩ := conclude_eq_ok hconclude
        exact ⟨hmethod, hreport _ rfl⟩

/-- The method that a solve runs the engine with, if one is asked for. -/
def dispatched? (model : Model) (given : Option Datum) : Option Method :=
  (model.wanted given).toOption.map (effectiveMethod model.kinds)

theorem dispatched?_of_asked {given : Option Datum} {asked : Method} (h : model.wanted given = .ok asked) :
    model.dispatched? given = some (effectiveMethod model.kinds asked) := by
  rw [dispatched?, h]
  rfl

theorem dispatched?_of_unasked {given : Option Datum} {fault : Fault} (h : model.wanted given = .error fault) :
    model.dispatched? given = none := by
  rw [dispatched?, h]
  rfl

/-- The preparations, and what follows them. -/
theorem course_prepare_finish (given : Option Datum) {v : World} (hv : w.Made [] v) (hmodels : v.models = w.models) :
    Course w m model (model.dispatched? given) ((prepare model given >>= finish m model).on v) := by
  have hengines {v' : World} (h : v'.models = v.models) (k : ModelId) : v'.engine? k = w.engine? k := by
    rw [World.engine?, World.model?, h, hmodels]
    rfl
  have hloaded (t : Triplets) : w.Made (model.engine.loadCalls t) (v.afterAll (model.engine.loadCalls t)) :=
    hv.trans (.of_afterAll hv.compliant (Engine.isAbout_loadCalls model.engine t))
  have hprepare := on_prepare hv.compliant model given
  unfold dispatched?
  cases hwanted : model.wanted given with
  | ok asked =>
    rw [resolveMethod_of_asked hwanted] at hprepare
    cases ht : model.entries.triplets with
    | error fault =>
      rw [ht] at hprepare
      rw [on_bind_of_error hprepare]
      exact .unloaded ht hv (hengines rfl)
    | ok t =>
      rw [ht] at hprepare
      rw [on_bind_of_ok hprepare]
      exact course_finish ht ((hloaded t).log ..) ((World.afterAll_models ..).trans hmodels) _
  | error fault =>
    rcases resolveMethod_of_unasked hwanted with ⟨fault', hresolve⟩ | ⟨d, hresolve⟩ <;> rw [hresolve] at hprepare
    · rw [on_bind_of_error hprepare]
      exact .undecided hv (by simp) (hengines rfl)
    · -- a plain value in the place of the method is noticed when the matrix has been handed over
      cases ht : model.entries.triplets with
      | error fault =>
        rw [ht] at hprepare
        rw [on_bind_of_error hprepare]
        exact .undecided hv (by simp) (hengines rfl)
      | ok t =>
        rw [ht] at hprepare
        rw [on_bind_of_error hprepare]
        exact .undecided (hloaded t) (isEntry_loadCalls model.engine t) (hengines (World.afterAll_models ..))

/-- **The course of a solve.** -/
theorem course_solve (hw : w.Compliant) (hm : w.model? m = some model) (hf : model.freed = false)
    (given : Option Datum) : Course w m model (model.dispatched? given) ((solve m given).on w) := by
  rcases on_solve hm hf given with hon | ⟨text, hon⟩
  · rw [hon]
    exact course_prepare_finish given (.refl hw) rfl
  · rw [hon]
    exact course_prepare_finish given ((World.Made.refl hw).log ..) rfl

/-- Whatever course a solve takes, all models keep their engines. -/
theorem Course.engines {method? : Option Method} {outcome : Except Fault SolveResult × World}
    (h : Course w m model method? outcome) (k : ModelId) : outcome.2.engine? k = w.engine? k := by
  cases h with
  | undecided _ _ hengines | unloaded _ _ hengines | unregistered _ _ _ hengines
  | ran _ _ _ _ _ hengines => exact hengines k

/-- Whatever course a solve takes, all calls are granted afterwards. -/
theorem Course.compliant {method? : Option Method} {outcome : Except Fault SolveResult × World}
    (h : Course w m model method? outcome) : outcome.2.Compliant := by
  cases h with
  | undecided h | unloaded _ h | unregistered _ _ h => exact h.compliant
  -- the engine ran between two silent stretches
  | @ran method t h r w₁ report w₂ _ _ _ _ h₁ hrun h₂ =>
    have hrunning := Engine.preserves_solve model.engine method model.parameters (some h) w₁
      (RunningOn.refl h₁.compliant)
    rw [hrun] at hrunning
    exact h₂.compliant hrunning.compliant

end Model

/-! ## §3 Under a context -/

/-- The calls that put a handle into the hook for polls, or take it out. On GLPK the engine keeps the handle. -/
def Engine.hookCalls (e : Engine) (hook : Option Handle) : List Native.Call :=
  match e.kind with
  | .glpk => []
  | .lpsolve => [.lpsolve (.abortHook e.number hook)]

namespace Model

variable {w : World} {m : ModelId} {model : Model}

/-- How a solve goes, under a context if there is one. -/
inductive CourseUnder (w : World) (m : ModelId) (model : Model) (method? : Option Method) :
    Option ContextId → Except Fault SolveResult × World → Prop
  | alone {outcome} (h : Course w m model method? outcome) : CourseUnder w m model method? none outcome
  /-- The context is done already. -/
  | done {c fault w'} (hdone : (w.contexts.error w.clock c).1 ≠ none) (hcalls : w'.calls = w.calls) :
      CourseUnder w m model method? (some c) (.error fault, w')
  /-- There is no room for the context. -/
  | unregistered {c fault w'} (hlive : (w.contexts.error w.clock c).1 = none)
      (hr : w.registry.register (.context c) = .error fault) (hcalls : w'.calls = w.calls) :
      CourseUnder w m model method? (some c) (.error fault, w')
  /-- The model is solved while the handle of the context is in the hook for polls. -/
  | within {c h r w₁ abort inner answer w'} (hlive : (w.contexts.error w.clock c).1 = none)
      (hr : w.registry.register (.context c) = .ok (h, r))
      (h₁ : World.Made (model.engine.hookCalls (some h)) { w with registry := r } w₁)
      (hinner : Course w₁ m { model with engine := { model.engine with abort := abort } } method? inner)
      (hcalls : w'.calls = inner.2.calls ++ (model.engine.hookCalls none).toArray)
      (hanswer : ∀ result, answer = .ok result → inner.1 = .ok result) :
      CourseUnder w m model method? (some c) (answer, w')

/-- The handle for aborts is set with the calls that the engine needs for it, and noted. -/
theorem on_setAbort_made (hw : w.Compliant) (hm : w.model? m = some model) (handle : Option Handle) :
    ∃ w₁ abort, (setAbort m handle).on w = (.ok (), w₁) ∧ w.Made (model.engine.hookCalls handle) w₁ ∧
      w₁.model? m = some { model with engine := { model.engine with abort := abort } } := by
  have hs : w.Serves := fun c _ => hw.grants c.function
  have hmade {w₁ : World} (hon : (setAbort m handle).on w = (.ok (), w₁))
      (hcalls : w₁.calls = w.calls ++ (model.engine.hookCalls handle).toArray) (hw₁ : w₁.Compliant) :
      ∃ w₁ abort, (setAbort m handle).on w = (.ok (), w₁) ∧ w.Made (model.engine.hookCalls handle) w₁ ∧
        w₁.model? m = some { model with engine := { model.engine with abort := abort } } := by
    obtain ⟨hclock, -, hscript, hregistry, hkinds, abort, hm₁⟩ := Action.setAbort_frame hs hm handle hon
    exact ⟨w₁, abort, hon, ⟨hcalls, hw₁, hscript, hclock, hregistry, hkinds⟩, hm₁⟩
  -- GLPK stores the handle with the engine, lp_solve is told of it by a call
  cases hk : model.engine.kind with
  | glpk =>
    refine hmade (on_setAbort_glpk hm hk handle) ?_ hw
    simp [Engine.hookCalls, hk, World.modifyModel]
  | lpsolve =>
    refine hmade (on_setAbort_lpsolve hs hm hk handle) ?_ hw
    simp [Engine.hookCalls, hk, World.modifyModel, World.after]

/-- A fault that is told anew remains a fault. -/
theorem silent_retell (c : ContextId) (fault : Fault) (w : World) :
    ∃ fault' w', (retell c fault).on w = (.error fault', w') ∧ w.Silent w' := by
  unfold retell
  -- only a fault that a context may explain is told anew
  split
  · rw [on_bind_of_ok (on_contextError c w)]
    have hsilent : w.Silent { w with contexts := (w.contexts.error w.clock c).2 } := ⟨rfl, rfl, fun _ => rfl⟩
    cases (w.contexts.error w.clock c).1 with
    | some cause => exact ⟨_, _, rfl, hsilent⟩
    | none => exact ⟨_, _, rfl, hsilent⟩
  · exact ⟨_, _, rfl, .refl w⟩

/-- A solve with a handle takes its course between setting the handle and taking it back. -/
theorem course_solvePolled (hw : w.Compliant) (hm : w.model? m = some model) (hf : model.freed = false)
    (given : Option Datum) (c : ContextId) (h : Handle) :
    ∃ w₁ abort inner answer w', World.Made (model.engine.hookCalls (some h)) w w₁ ∧
      Course w₁ m { model with engine := { model.engine with abort := abort } }
        (model.dispatched? given) inner ∧
      (solvePolled m c given h).on w = (answer, w') ∧
      w'.calls = inner.2.calls ++ (model.engine.hookCalls none).toArray ∧
      ∀ result, answer = .ok result → inner.1 = .ok result := by
  obtain ⟨w₁, abort, hset, hmade, hm₁⟩ := on_setAbort_made hw hm (some h)
  have hinner := course_solve hmade.compliant hm₁ hf given
  rcases hsolve : (solve m given).on w₁ with ⟨answer, w₂⟩
  rw [hsolve] at hinner
  -- a fault may be told anew
  obtain ⟨answer', w₃, hrecovered, hsilent, hsame⟩ : ∃ answer' w₃,
      (Action.recovering (solve m given) (retell c)).on w₁ = (answer', w₃) ∧ w₂.Silent w₃ ∧
        ∀ result, answer' = .ok result → answer = .ok result := by
    rw [on_recovering, hsolve]
    cases answer with
    | ok result => exact ⟨.ok result, w₂, rfl, .refl w₂, fun _ h => h⟩
    | error fault =>
      obtain ⟨fault', w₃, hon, hsilent⟩ := silent_retell c fault w₂
      exact ⟨.error fault', w₃, hon, hsilent, by rintro result ⟨⟩⟩
  -- the model has its engine still, so that the handle can be taken out
  have hengine : w₃.engine? m = some { model.engine with abort := abort } := by
    rw [hsilent.engines, hinner.engines, World.engine?, hm₁]
    rfl
  obtain ⟨model', hm₃, hengine'⟩ := Option.map_eq_some_iff.mp hengine
  obtain ⟨w₄, -, hclear, hmade', -⟩ := on_setAbort_made (hsilent.compliant hinner.compliant) hm₃ none
  refine ⟨w₁, abort, _, answer', w₄, hmade, hinner, ?_, ?_, hsame⟩
  · rw [solvePolled, on_bind_of_ok hset, on_ensuring, hrecovered]
    dsimp only
    rw [hclear]
  · rw [hmade'.calls, hsilent.calls, hengine']
    rfl

/-- **The course of a solve under a context**, or of one alone. -/
theorem course_solveUnder (hw : w.Compliant) (hm : w.model? m = some model) (hf : model.freed = false)
    (c? : Option ContextId) (given : Option Datum) :
    CourseUnder w m model (model.dispatched? given) c? ((solveUnder m c? given).on w) := by
  cases c? with
  | none => exact .alone (course_solve hw hm hf given)
  | some c =>
    show CourseUnder w m model (model.dispatched? given) (some c) ((solveWithContext m c given).on w)
    unfold solveWithContext
    rw [on_bind_of_ok (on_contextError c w)]
    let w₁ : World := { w with contexts := (w.contexts.error w.clock c).2 }
    -- a context that is done ends the solve before the model is looked at
    cases herror : (w.contexts.error w.clock c).1 with
    | some cause => exact .done (by simp [herror]) rfl
    | none =>
      dsimp only
      rw [on_bind_of_ok (on_openModel_of_open (w := w₁) hm hf)]
      change CourseUnder w m model _ (some c) ((Action.registered (.context c) (solvePolled m c given)).on w₁)
      rcases hr : w.registry.register (.context c) with fault | ⟨h, r⟩
      · have hon : (Action.registered (.context c) (solvePolled m c given)).on w₁ = (.error fault, w₁) := by
          rw [on_registered]
          simp only [w₁, hr]
        rw [hon]
        exact .unregistered herror hr rfl
      · obtain ⟨w₂, abort, inner, answer, w₃, hmade, hinner, hbody, hcalls, hanswer⟩ :=
          course_solvePolled (w := { w₁ with registry := r }) hw hm hf given c h
        obtain ⟨answer', r', hon, hsame⟩ := on_registered_of_ok (w := w₁) hr (solvePolled m c given) hbody
        rw [hon]
        exact .within herror hr ⟨hmade.calls, hmade.compliant, hmade.script, hmade.clock, hmade.registry,
          hmade.kindAt⟩ hinner hcalls fun result hresult => hanswer result (hsame result hresult)

end Model

end LinearProgram
