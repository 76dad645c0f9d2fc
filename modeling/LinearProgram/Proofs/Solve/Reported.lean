import LinearProgram.Proofs.Run
import LinearProgram.Proofs.Solve.Released

/-!
# What engines report

What an engine reports of a solve is a function of the method, of the parameters, and of what the native runs
return: their codes, and the statuses that can be read after them. Only one thing decides which code that is,
namely whether a poll stopped the run. `EngineKind.reported` is this function, and this module shows that the
engines report what it says, whatever the hooks, the contexts and the clock are.

`Yields` is how actions are watched here: the answer, whether a poll said that the run is to stop, and the state
afterwards. A run may go on for as long as it likes after such a poll, so this is settled by all of its events.
-/

namespace LinearProgram

/-! ## §1 Answers as functions -/

/-- A poll that says that the run is to stop. -/
def Moment.stops : Moment → Bool
  | poll _ _ stop => stop
  | message .. | leaving .. => false

/-- Runs of which it is settled whether a poll stops them: the code for that case is the code in any case. -/
def Script.settled (s : Script) (stopped : Bool) : Script :=
  if stopped then { s with integerCode := s.stopCode.getD 13, code := s.stopCode.getD 6 } else s

namespace Script

variable (s : Script) (stopped : Bool)

@[simp]
theorem simplexCode_settled : (s.settled stopped).simplexCode = s.simplexCode := by cases stopped <;> rfl

@[simp]
theorem status_settled : (s.settled stopped).status = s.status := by cases stopped <;> rfl

@[simp]
theorem integerStatus_settled : (s.settled stopped).integerStatus = s.integerStatus := by
  cases stopped <;> rfl

theorem returns_settled {s : Script} (h : s.Returns) : (s.settled stopped).Returns := by
  cases stopped <;> exact ⟨h.simplexEvents, h.events, h.values⟩

end Script

/-- A status that can be read where there is a GLPK problem. -/
def Glpk.readable (k? : Option EngineKind) (status : Int) : Int := if k? = some .glpk then status else 0

namespace Glpk

/-- The report of the simplex method by the code and the status of its run. -/
def simplexReported (parameters : Parameters) (k? : Option EngineKind) (s : Script) :
    Except Fault EngineReport := do
  let _ ← parameters.verbose
  pure (simplexReport s.simplexCode (readable k? s.status))

/-- The report of the integer search by the code and the status of its run. -/
def searchReported (parameters : Parameters) (k? : Option EngineKind) (s : Script) :
    Except Fault EngineReport := do
  let _ ← parameters.verbose
  let _ ← parameters.presolve
  pure (searchReport s.integerCode (readable k? s.integerStatus))

/-- The report of the integer search, or of the simplex method if the search is not reached. -/
def branchCutReported (parameters : Parameters) (k? : Option EngineKind) (s : Script) :
    Except Fault EngineReport := do
  if (← parameters.presolve).isTrue then searchReported parameters k? s
  else
    let relaxed ← simplexReported parameters k? s
    if relaxed = .known (.solved .optimal) then searchReported parameters k? s else pure relaxed

/-- With the presolver, the search comes first; without it, the relaxation. -/
theorem branchCutReported_of_presolve {parameters : Parameters} {presolve : Datum}
    (h : parameters.presolve = .ok presolve) (k? : Option EngineKind) (s : Script) :
    branchCutReported parameters k? s = if presolve.isTrue then searchReported parameters k? s else
      simplexReported parameters k? s >>= fun relaxed =>
        if relaxed = .known (.solved .optimal) then searchReported parameters k? s else pure relaxed := by
  rw [branchCutReported, h]
  rfl

/-- No poll stops the simplex method. -/
theorem simplexReported_settled (parameters : Parameters) (k? : Option EngineKind) (s : Script)
    (stopped : Bool) : simplexReported parameters k? (s.settled stopped) = simplexReported parameters k? s := by
  rw [simplexReported, s.simplexCode_settled, s.status_settled, simplexReported]

end Glpk

/-- The report of a solve by the codes and statuses of its runs. What there is at the number of the problem is
of kind `k?`. -/
def EngineKind.reported (kind : EngineKind) (method : Method) (parameters : Parameters) (k? : Option EngineKind)
    (s : Script) : Except Fault EngineReport :=
  match kind with
  | .lpsolve => do
    let _ ← parameters.verbose
    pure (LpSolve.report s.code)
  | .glpk =>
    if method = .simplex then do
      let _ ← parameters.presolve
      Glpk.simplexReported parameters k? s
    else Glpk.branchCutReported parameters k? s

/-! ## §2 Answers and polls -/

namespace Action

variable {α β : Type} {a : Action α} {f : α → Action β} {w w₁ w₂ : World}

/-- The action gives the answer and leads to `w'`; `stopped` says whether a poll told the run to stop. -/
def Yields (a : Action α) (w : World) (answer : Except Fault α) (stopped : Bool) (w' : World) : Prop :=
  ∃ t, a.watch w = ((answer, w'), t) ∧ t.any Moment.stops = stopped

namespace Yields

theorem tacit {answer : Except Fault α} (ha : Tacit a) (h : a.on w = (answer, w₁)) :
    Yields a w answer false w₁ := ⟨[], by rw [ha.watch_eq, h], rfl⟩

theorem pure (x : α) (w : World) : Yields (Pure.pure x) w (.ok x) false w := tacit (.pure x) rfl

theorem get (w : World) : Yields MonadState.get w (.ok w) false w := tacit .get rfl

theorem change (g : World → World) (w : World) : Yields (modify g) w (.ok ⟨⟩) false (g w) := tacit (.change g) rfl

theorem lift (r : Except Fault α) (w : World) : Yields (Action.lift r) w r false w := tacit (.lift r) (on_lift r w)

theorem bind_error {fault : Fault} {stopped : Bool} (ha : Yields a w (.error fault) stopped w₁)
    (f : α → Action β) : Yields (a >>= f) w (.error fault) stopped w₁ := by
  obtain ⟨t, hon, hstops⟩ := ha
  exact ⟨t, watch_bind_of_error hon f, hstops⟩

/-- A poll told the run to stop in one of the steps. -/
theorem bind_ok {x : α} {stopped stopped' : Bool} {answer : Except Fault β}
    (ha : Yields a w (.ok x) stopped w₁) (hf : Yields (f x) w₁ answer stopped' w₂) :
    Yields (a >>= f) w answer (stopped || stopped') w₂ := by
  obtain ⟨t, hon, rfl⟩ := ha
  obtain ⟨t', hon', rfl⟩ := hf
  refine ⟨t ++ t', ?_, List.any_append⟩
  rw [watch_bind_of_ok hon, hon']

/-- A step before which no poll matters. -/
theorem bind_silent {x : α} {stopped : Bool} {answer : Except Fault β} (ha : Yields a w (.ok x) false w₁)
    (hf : Yields (f x) w₁ answer stopped w₂) : Yields (a >>= f) w answer stopped w₂ := by
  have h := bind_ok ha hf
  rwa [Bool.false_or] at h

/-- A last step after which no poll matters. -/
theorem bind_last {x : α} {stopped : Bool} {answer : Except Fault β} (ha : Yields a w (.ok x) stopped w₁)
    (hf : Yields (f x) w₁ answer false w₂) : Yields (a >>= f) w answer stopped w₂ := by
  have h := bind_ok ha hf
  rwa [Bool.or_false] at h

/-- A cleanup that tells nothing adds no poll. -/
theorem ensuring {cleanup : Action Unit} {answer : Except Fault α} {stopped : Bool}
    (ha : Yields a w answer stopped w₁) (htacit : Tacit cleanup) (hc : cleanup.on w₁ = (.ok (), w₂)) :
    Yields (Action.ensuring a cleanup) w answer stopped w₂ := by
  obtain ⟨t, hon, hstops⟩ := ha
  refine ⟨t, ?_, hstops⟩
  rw [watch_ensuring_of_ok htacit (by rw [hon]; exact hc), hon]

/-- A handler that tells nothing adds no poll. -/
theorem recovering {handler : Fault → Action α} {fault : Fault} {answer : Except Fault α} {stopped : Bool}
    (ha : Yields a w (.error fault) stopped w₁) (htacit : Tacit (handler fault))
    (hh : (handler fault).on w₁ = (answer, w₂)) : Yields (Action.recovering a handler) w answer stopped w₂ := by
  obtain ⟨t, hon, hstops⟩ := ha
  exact ⟨t, by rw [watch_recovering_of_error hon htacit, hh], hstops⟩

theorem recovering_ok {x : α} {stopped : Bool} (ha : Yields a w (.ok x) stopped w₁)
    (handler : Fault → Action α) : Yields (Action.recovering a handler) w (.ok x) stopped w₁ := by
  obtain ⟨t, hon, hstops⟩ := ha
  exact ⟨t, watch_recovering_of_ok hon handler, hstops⟩

theorem registered {target : Target} {body : Handle → Action α} {h : Handle} {r r' : Registry Target}
    {answer : Except Fault α} {stopped : Bool} (hreg : w.registry.register target = .ok (h, r))
    (hbody : Yields (body h) { w with registry := r } answer stopped w₁)
    (hun : w₁.registry.unregister h = .ok r') :
    Yields (Action.registered target body) w answer stopped { w₁ with registry := r' } := by
  obtain ⟨t, hon, hstops⟩ := hbody
  refine ⟨t ++ [.leaving w₁ h], ?_, ?_⟩
  · rw [watch_registered_of_ok hreg (by rw [hon]; exact hun), hon]
  · -- leaving the registry is no poll, so it cannot have stopped anything
    rw [List.any_append, hstops]
    exact Bool.or_false stopped

end Yields

end Action

/-! ## §3 What a run goes by -/

namespace Native.Store

/-- A change that leaves the kind of a problem leaves all kinds. -/
theorem kind?_modify (s : Store) (n k : Nat) {f : Problem → Problem} (hf : ∀ q, (f q).kind? = q.kind?) :
    ((s.modify n f).problem? k).bind Problem.kind? = (s.problem? k).bind Problem.kind? := by
  rw [problem?_modify]
  split
  · next hk =>
    rw [hk]
    cases s.problem? n with
    | none => rfl
    | some q => exact hf q
  · rfl

/-- What a run leaves in its problem can be read from it, if there is one. -/
theorem read_modifyGlpk (s : Store) (p : Nat) {f : Glpk.Problem → Glpk.Problem} {answer : Glpk.Problem → Int}
    {x : Int} (hf : ∀ q, answer (f q) = x) :
    (((s.modifyGlpk p f).glpk? p).map answer).getD 0 =
      Glpk.readable ((s.problem? p).bind Problem.kind?) x := by
  unfold glpk? modifyGlpk Glpk.readable
  rw [problem?_modify, if_pos rfl]
  -- only a problem of GLPK has something to read, elsewhere the query answers zero
  rcases s.problem? p with _ | ⟨q | q | _⟩
  · rfl
  · exact hf q
  · rfl
  · rfl

end Native.Store

def World.kindAt (w : World) (n : Nat) : Option EngineKind := (w.native.problem? n).bind Native.Problem.kind?

/-- What the runs of a solve go by is in `w` as it is in `w₀`: the script, the models, the registry, and the
kinds of the problems. The library serves, and the clock can go on. -/
structure World.InPlay (w₀ w : World) : Prop where
  serves : w.Serves
  timed : w.Timed
  script : w.script = w₀.script
  models : w.models = w₀.models
  registry : w.registry = w₀.registry
  kindAt : ∀ n, w.kindAt n = w₀.kindAt n

namespace World.InPlay

variable {w₀ w w₁ : World}

protected theorem refl (hs : w.Serves) (ht : w.Timed) : w.InPlay w := ⟨hs, ht, rfl, rfl, rfl, fun _ => rfl⟩

/-- Contexts, records and the record of calls do not matter. -/
theorem of_native (h : w₀.InPlay w) (htimed : w₁.Timed) (hallowance : w₁.allowance = w.allowance)
    (hscript : w₁.script = w.script) (hmodels : w₁.models = w.models) (hregistry : w₁.registry = w.registry)
    (hproblems : w₁.native.problems = w.native.problems) : w₀.InPlay w₁ where
  serves c hc := by
    rw [Grants, hallowance]
    exact h.serves c hc
  timed := htimed
  script := hscript.trans h.script
  models := hmodels.trans h.models
  registry := hregistry.trans h.registry
  kindAt n := by
    rw [← h.kindAt n, World.kindAt, World.kindAt, Native.Store.problem?, Native.Store.problem?, hproblems]

theorem modify (h : w₀.InPlay w) (n : Nat) {f : Native.Problem → Native.Problem}
    (hf : ∀ q, (f q).kind? = q.kind?) : w₀.InPlay { w with native := w.native.modify n f } :=
  ⟨h.serves, h.timed, h.script, h.models, h.registry, fun k =>
    (Native.Store.kind?_modify w.native n k hf).trans (h.kindAt k)⟩

theorem after (h : w₀.InPlay w) {c : Native.Call} {n : Nat} (hc : c.IsAbout n) : w₀.InPlay (w.after c) := by
  have hmodify := h.modify n (f := fun q => q.apply c) fun q => Native.Problem.kind?_apply q c
  rw [← Native.Store.apply_of_isAbout hc] at hmodify
  exact ⟨hmodify.serves, hmodify.timed, hmodify.script, hmodify.models, hmodify.registry, hmodify.kindAt⟩

end World.InPlay

namespace Action

variable {w₀ w : World} {p : Nat}

/-! ## §4 Runs -/

/-- From states that runs go by, the action answers whether one of its polls told the run to stop, and none does
unless `stoppable` holds. -/
def Polls (w₀ : World) (stoppable : Prop) (a : Action Bool) : Prop :=
  ∀ w, w₀.InPlay w →
    ∃ stop w', (stop = true → stoppable) ∧ Yields a w (.ok stop) stop w' ∧ w₀.InPlay w'

theorem Polls.pure_false {stoppable : Prop} : Polls w₀ stoppable (pure false) :=
  fun w hw => ⟨false, w, by simp, .pure false w, hw⟩

/-- Messages are no polls. -/
theorem polls_sendMessage {stoppable : Prop} (hook : Option Handle) (text : Payload) :
    Polls w₀ stoppable (do sendMessage hook text; pure false) := by
  cases hook with
  | none => exact .pure_false
  | some h =>
    intro w hw
    obtain ⟨writings, hon⟩ := on_forwardMessage h text.terminated w
    -- a message never stops the solver
    have hmessage : Yields (deliver h text.terminated) w (.ok ()) false { w with writings := writings } :=
      ⟨_, watch_deliver hon, rfl⟩
    exact ⟨false, _, by simp, hmessage.bind_silent (.pure false _), hw.of_native hw.timed rfl rfl rfl rfl rfl⟩

/-- A poll answers as its context says. -/
theorem polls_poll (h : Handle) : Polls w₀ True (poll h) := by
  intro w hw
  obtain ⟨stop, contexts, writings, -, hon⟩ := on_shouldAbort h w
  exact ⟨stop, _, fun _ => trivial, ⟨_, watch_poll hon, Bool.or_false stop⟩,
    hw.of_native hw.timed rfl rfl rfl rfl rfl⟩

/-- Without a handle for aborts, no poll answers abort. -/
theorem polls_pollHook (hooks : RunHooks) : Polls w₀ (hooks.abort ≠ none) (pollHook hooks) := by
  intro w hw
  unfold pollHook
  cases hooks.abort with
  | none => exact Polls.pure_false w hw
  | some h =>
    obtain ⟨stop, w₁, -, hyields, hw₁⟩ := polls_poll h w hw
    -- the poll answers for the context, and GLPK needs a call besides
    cases stop with
    | false => exact ⟨false, w₁, by simp, hyields.bind_silent (.pure false w₁), hw₁⟩
    | true =>
      cases hstops : hooks.stopsByCall with
      | false => exact ⟨true, w₁, by simp, hyields.bind_last (.pure true w₁), hw₁⟩
      | true =>
        refine ⟨true, w₁.after (.glpk .stopSearch), by simp, hyields.bind_last (.tacit (.call _) ?_),
          hw₁.of_native hw₁.timed rfl rfl rfl rfl rfl⟩
        exact on_call_of_grants (hw₁.serves (.glpk .stopSearch) rfl)

/-- An event answers abort only if it is a poll and there is a handle. -/
theorem polls_runEvent (hooks : RunHooks) {event : RunEvent} (h : event.Passes) :
    Polls w₀ (hooks.abort ≠ none) (runEvent hooks event) := by
  cases event with
  | message text => exact polls_sendMessage hooks.log text
  | poll heeded => exact polls_pollHook hooks
  | cancel c =>
    exact fun w hw => ⟨false, _, by simp, Yields.bind_silent (.change _ w) (.pure false _),
      hw.of_native hw.timed rfl rfl rfl rfl rfl⟩
  | advance seconds =>
    obtain ⟨x, rfl⟩ := h
    intro w hw
    obtain ⟨t, ht⟩ := hw.timed
    refine ⟨false, { w with clock := .float (t + x) }, by simp, Yields.bind_silent (.get w) ?_,
      hw.of_native ⟨_, rfl⟩ rfl rfl rfl rfl rfl⟩
    -- the clock shows a double, and goes on showing one
    rw [add_float ht]
    exact Yields.bind_silent (.lift _ w) (Yields.bind_silent (.change _ w) (.pure false _))
  | fail fault => exact h.elim

/-- **The answer of a run** says whether any of its polls told it to stop, however long it went on. -/
theorem polls_runEvents (hooks : RunHooks) {events : List RunEvent} (h : ∀ e ∈ events, e.Passes) :
    Polls w₀ (hooks.abort ≠ none) (runEvents hooks events) := by
  -- what stays true from event to event is `InPlay`
  induction events with
  | nil => exact .pure_false
  | cons event rest ih =>
    intro w hw
    obtain ⟨stop, w₁, hstop, hevent, hw₁⟩ := polls_runEvent hooks (h event (List.mem_cons_self ..)) w hw
    unfold runEvents
    by_cases hheeded : (stop && event.heeded) = true
    · obtain ⟨rfl, -⟩ := Bool.and_eq_true_iff.mp hheeded
      exact ⟨true, w₁, hstop, hevent.bind_last (by rw [if_pos hheeded]; exact .pure true w₁), hw₁⟩
    · obtain ⟨later, w₂, hlater, hrest, hw₂⟩ := ih (fun e he => h e (List.mem_cons_of_mem _ he)) w₁ hw₁
      refine ⟨stop || later, w₂, fun hor => (Bool.or_eq_true_iff.mp hor).elim hstop hlater,
        hevent.bind_ok ?_, hw₂⟩
      rw [if_neg hheeded]
      exact hrest.bind_last (.pure _ w₂)

/-- A run that goes through leaves values in its problem. Its code is the one for whether a poll told it to stop,
which none does without a hook for polls. -/
theorem yields_conduct {r : NativeRun} (hr : r.Proper) (hpasses : r.Passes) (hs : w₀.script.Returns)
    (hw : w₀.InPlay w) :
    ∃ stop values w', (stop = true → ∃ s, (r.hooks s).abort ≠ none) ∧
      Yields (conduct r) w (.ok (r.code w₀.script stop)) stop
        { w' with native := w'.native.modify r.problem (r.leave w₀.script values) } ∧
      w₀.InPlay { w' with native := w'.native.modify r.problem (r.leave w₀.script values) } ∧
      w₀.InPlay w' := by
  have hw₁ := hw.after hr.isAbout
  obtain ⟨values, hvalues⟩ := hs.values
  obtain ⟨stop, w₂, hstop, hrun, hw₂⟩ := polls_runEvents (r.hooks (w.after r.start).native)
    (hpasses w₀.script hs) _ hw₁
  -- the outcome left behind does not change the kind of the problem
  have hkind (q : Native.Problem) : (r.leave w₀.script values q).kind? = q.kind? := by
    rw [← Native.Problem.kind?_core, hr.core, Native.Problem.kind?_core]
  refine ⟨stop, values, w₂, fun h => ⟨_, hstop h⟩, ?_, hw₂.modify _ hkind, hw₂⟩
  unfold conduct
  -- the start, the events, the values, in this order; only the events poll
  refine Yields.bind_silent (.tacit (.call _) (on_call_of_grants (hw.serves r.start hr.quiet))) ?_
  rw [if_pos rfl]
  refine Yields.bind_silent (.get _) ?_
  rw [hw₁.script, hvalues]
  exact hrun.bind_last (Yields.bind_silent (.lift _ w₂) (Yields.bind_silent (.change _ w₂) (.pure _ _)))

/-! ## §5 Engines -/

/-- The code of the simplex method does not depend on polls, since there is no hook for them. What it leaves in
its problem can be read. -/
theorem yields_simplexRun (hs : w₀.script.Returns) (hw : w₀.InPlay w) (level presolve : Int) :
    ∃ w', Yields (conduct (.simplex p level presolve)) w (.ok w₀.script.simplexCode) false w' ∧ w₀.InPlay w' ∧
      ((w'.native.glpk? p).map (·.status)).getD 0 = Glpk.readable (w₀.kindAt p) w₀.script.status := by
  obtain ⟨stop, values, w₁, hstop, hrun, hw', hw₁⟩ := yields_conduct (NativeRun.proper_simplex p level presolve)
    (NativeRun.passes_simplex p level presolve) hs hw
  -- the simplex method has no abort hook, so nothing has stopped it
  have hfalse : stop = false := by
    cases stop with
    | false => rfl
    | true =>
      obtain ⟨s, hhook⟩ := hstop rfl
      exact absurd rfl hhook
  rw [hfalse] at hrun
  refine ⟨_, hrun, hw', ?_⟩
  rw [← hw₁.kindAt p]
  exact Native.Store.read_modifyGlpk _ p fun _ => rfl

/-- A search returns the code that its script gives after the answers of the polls. -/
theorem yields_integerSearchRun (hs : w₀.script.Returns) (hw : w₀.InPlay w) (level presolve : Int)
    (callback : Option Handle) :
    ∃ stop w', Yields (conduct (.integerSearch p level presolve callback)) w
        (.ok (w₀.script.settled stop).integerCode) stop w' ∧ w₀.InPlay w' ∧
      ((w'.native.glpk? p).map (·.integerStatus)).getD 0 =
        Glpk.readable (w₀.kindAt p) w₀.script.integerStatus := by
  obtain ⟨stop, values, w₁, -, hrun, hw', hw₁⟩ := yields_conduct
    (NativeRun.proper_integerSearch p level presolve callback)
    (NativeRun.passes_integerSearch p level presolve callback) hs hw
  -- a search that was told to stop returns the code for that, another one its own
  have hcode : (NativeRun.integerSearch p level presolve callback).code w₀.script stop =
      (w₀.script.settled stop).integerCode := by cases stop <;> rfl
  rw [hcode] at hrun
  refine ⟨stop, _, hrun, hw', ?_⟩
  rw [← hw₁.kindAt p]
  exact Native.Store.read_modifyGlpk _ p fun _ => rfl

/-- A solve of lp_solve returns the code that its script gives after the answers of the polls. -/
theorem yields_lpSolveRun (hs : w₀.script.Returns) (hw : w₀.InPlay w) (n : Nat) :
    ∃ stop w', Yields (conduct (.lpSolve n)) w (.ok (w₀.script.settled stop).code) stop w' ∧ w₀.InPlay w' := by
  obtain ⟨stop, values, w₁, -, hrun, hw', -⟩ := yields_conduct (NativeRun.proper_lpSolve n)
    (NativeRun.passes_lpSolve n) hs hw
  have hcode : (NativeRun.lpSolve n).code w₀.script stop = (w₀.script.settled stop).code := by cases stop <;> rfl
  rw [hcode] at hrun
  exact ⟨stop, _, hrun, hw'⟩

theorem yields_ask (hw : w₀.InPlay w) (query : Glpk.Query) (answer : Glpk.Problem → Int) :
    ∃ w', Yields (Glpk.ask p query 0 answer) w (.ok (((w.native.glpk? p).map answer).getD 0)) false w' ∧
      w₀.InPlay w' :=
  ⟨_, .tacit (tacit_ask _ _ _ _) (Glpk.on_ask (hw.serves (.glpk (.read p query)) rfl) 0 answer),
    hw.after (n := p) ⟨rfl, rfl⟩⟩

/-- The relaxation reports what its script gives, and is not polled. -/
theorem yields_simplex (hs : w₀.script.Returns) (hw : w₀.InPlay w) (parameters : Parameters)
    (presolve : Bool) :
    ∃ w', Yields (Glpk.simplex p parameters presolve) w
      (Glpk.simplexReported parameters (w₀.kindAt p) w₀.script) false w' ∧ w₀.InPlay w' := by
  unfold Glpk.simplex Glpk.simplexReported
  cases parameters.verbose with
  | error fault => exact ⟨w, (Yields.lift _ w).bind_error _, hw⟩
  | ok verbose =>
    obtain ⟨w₁, hrun, hw₁, hstatus⟩ := yields_simplexRun hs hw (Glpk.messageLevel verbose) (Glpk.flag presolve)
    by_cases hcode : w₀.script.simplexCode = 0
    · obtain ⟨w₂, hask, hw₂⟩ := yields_ask hw₁ .status (·.status)
      refine ⟨w₂, (Yields.lift _ w).bind_silent (hrun.bind_silent ?_), hw₂⟩
      rw [if_neg (fun h => h hcode), ← hstatus]
      exact hask.bind_silent (.pure _ w₂)
    · refine ⟨w₁, (Yields.lift _ w).bind_silent (hrun.bind_silent ?_), hw₁⟩
      rw [if_pos hcode]
      -- the status is not read after such a code
      have hreport (status : Int) : Glpk.simplexReport w₀.script.simplexCode status =
          Glpk.simplexReport w₀.script.simplexCode 0 := by
        rw [Glpk.simplexReport, Glpk.simplexReport, if_pos hcode, if_pos hcode]
      rw [← hreport]
      exact .pure _ w₁

/-- The search reports what its script gives after the answers of its polls. -/
theorem yields_search (hs : w₀.script.Returns) (hw : w₀.InPlay w) (parameters : Parameters)
    (abort : Option Handle) :
    ∃ stop w', Yields (Glpk.search p parameters abort) w
      (Glpk.searchReported parameters (w₀.kindAt p) (w₀.script.settled stop)) stop w' ∧ w₀.InPlay w' := by
  unfold Glpk.search Glpk.searchReported
  cases parameters.verbose with
  | error fault => exact ⟨false, w, (Yields.lift _ w).bind_error _, hw⟩
  | ok verbose =>
    cases parameters.presolve with
    | error fault => exact ⟨false, w, (Yields.lift _ w).bind_silent ((Yields.lift _ w).bind_error _), hw⟩
    | ok presolve =>
      obtain ⟨stop, w₁, hrun, hw₁, hstatus⟩ := yields_integerSearchRun hs hw (Glpk.messageLevel verbose)
        (Glpk.flag presolve.isTrue) abort
      obtain ⟨w₂, hask, hw₂⟩ := yields_ask hw₁ .integerStatus (·.integerStatus)
      refine ⟨stop, w₂, (Yields.lift _ w).bind_silent ((Yields.lift _ w).bind_silent ?_), hw₂⟩
      refine hrun.bind_last ?_
      rw [hstatus] at hask
      -- the status is the engine's own, whether it was stopped or not
      rw [Script.integerStatus_settled]
      exact hask.bind_silent (.pure _ w₂)

/-- After the simplex method: the search if its outcome is optimal, else that outcome. -/
theorem yields_afterRelaxation (hs : w₀.script.Returns) (hw : w₀.InPlay w) (parameters : Parameters)
    (abort : Option Handle) (relaxed : EngineReport) :
    ∃ stop w', Yields
      (if relaxed = .known (.solved .optimal) then Glpk.search p parameters abort
        else do
          debug "lpbridge.backends.glpk" ("LP relaxation ended with " ++ relaxed.display)
          pure relaxed) w
      (if relaxed = .known (.solved .optimal) then
          Glpk.searchReported parameters (w₀.kindAt p) (w₀.script.settled stop)
        else .ok relaxed) stop w' ∧ w₀.InPlay w' := by
  -- the search goes on from an optimal relaxation only
  by_cases hoptimal : relaxed = .known (.solved .optimal)
  · simp only [if_pos hoptimal]
    exact yields_search hs hw parameters abort
  · simp only [if_neg hoptimal]
    exact ⟨false, _, Yields.bind_silent (.change _ w) (.pure relaxed _),
      hw.of_native hw.timed rfl rfl rfl rfl rfl⟩

/-- Branch-and-cut reports what the relaxation gives where this does not solve, and what the search gives
otherwise. -/
theorem yields_branchCut (hs : w₀.script.Returns) (hw : w₀.InPlay w) (parameters : Parameters)
    (abort : Option Handle) :
    ∃ stop w', Yields (Glpk.branchCut p parameters abort) w
      (Glpk.branchCutReported parameters (w₀.kindAt p) (w₀.script.settled stop)) stop w' ∧ w₀.InPlay w' := by
  unfold Glpk.branchCut
  cases hp : parameters.presolve with
  | error fault =>
    refine ⟨false, w, ?_, hw⟩
    rw [Glpk.branchCutReported, hp]
    exact (Yields.lift _ w).bind_error _
  | ok presolve =>
    simp only [Glpk.branchCutReported_of_presolve hp]
    -- with presolving the search solves the relaxation itself
    by_cases hpresolve : presolve.isTrue = true
    · obtain ⟨stop, w₁, hsearch, hw₁⟩ := yields_search hs hw parameters abort
      refine ⟨stop, w₁, (Yields.lift _ w).bind_silent ?_, hw₁⟩
      rw [if_pos hpresolve, if_pos hpresolve]
      exact hsearch
    · obtain ⟨w₁, hsimplex, hw₁⟩ := yields_simplex hs hw parameters false
      simp only [if_neg hpresolve, Glpk.simplexReported_settled]
      cases hrelaxed : Glpk.simplexReported parameters (w₀.kindAt p) w₀.script with
      | error fault =>
        rw [hrelaxed] at hsimplex
        refine ⟨false, w₁, (Yields.lift _ w).bind_silent ?_, hw₁⟩
        rw [if_neg hpresolve]
        exact hsimplex.bind_error _
      | ok relaxed =>
        rw [hrelaxed] at hsimplex
        obtain ⟨stop, w₂, hrest, hw₂⟩ := yields_afterRelaxation hs hw₁ parameters abort relaxed
        refine ⟨stop, w₂, (Yields.lift _ w).bind_silent ?_, hw₂⟩
        rw [if_neg hpresolve]
        exact hsimplex.bind_silent hrest

theorem yields_runMethod (hs : w₀.script.Returns) (hw : w₀.InPlay w) (abort : Option Handle)
    (method : Method) (parameters : Parameters) :
    ∃ stop w', Yields (Glpk.runMethod p abort method parameters) w
      (EngineKind.glpk.reported method parameters (w₀.kindAt p) (w₀.script.settled stop)) stop w' ∧
      w₀.InPlay w' := by
  unfold Glpk.runMethod EngineKind.reported
  dsimp only
  -- the simplex method alone, or branch-and-cut for the other two
  split
  · cases parameters.presolve with
    | error fault => exact ⟨false, w, (Yields.lift _ w).bind_error _, hw⟩
    | ok presolve =>
      obtain ⟨w₁, hsimplex, hw₁⟩ := yields_simplex hs hw parameters presolve.isTrue
      exact ⟨false, w₁, (Yields.lift _ w).bind_silent hsimplex, hw₁⟩
  · exact yields_branchCut hs hw parameters abort

theorem yields_glpkSolve (hs : w₀.script.Returns) (hw : w₀.InPlay w) (abort : Option Handle)
    (method : Method) (parameters : Parameters) (h : Handle) :
    ∃ stop w', Yields (Glpk.solve p abort method parameters (some h)) w
      (EngineKind.glpk.reported method parameters (w₀.kindAt p) (w₀.script.settled stop)) stop w' ∧
      w₀.InPlay w' := by
  -- the hook is set and cleared by calls that always succeed
  have hon {w : World} (hw : w₀.InPlay w) (hook : Option Handle) :
      (Glpk.tell (.terminalHook hook)).on w = (.ok (), w.after (.glpk (.terminalHook hook))) ∧
        w₀.InPlay (w.after (.glpk (.terminalHook hook))) :=
    ⟨Glpk.on_tell (hw.serves (.glpk (.terminalHook hook)) rfl), hw.of_native hw.timed rfl rfl rfl rfl rfl⟩
  obtain ⟨hset, hw₁⟩ := hon hw (some h)
  obtain ⟨stop, w₂, hrun, hw₂⟩ := yields_runMethod (p := p) hs hw₁ abort method parameters
  obtain ⟨hclear, hw₃⟩ := hon hw₂ none
  exact ⟨stop, _, Yields.bind_silent (.tacit (tacit_glpkTell _) hset) (hrun.ensuring (tacit_glpkTell _) hclear), hw₃⟩

theorem yields_lpSolveSolve (hs : w₀.script.Returns) (hw : w₀.InPlay w) (method : Method)
    (parameters : Parameters) (h : Handle) :
    ∃ stop w', Yields (LpSolve.solve p parameters (some h)) w
      (EngineKind.lpsolve.reported method parameters (w₀.kindAt p) (w₀.script.settled stop)) stop w' ∧
      w₀.InPlay w' := by
  unfold LpSolve.solve EngineKind.reported
  dsimp only
  cases parameters.verbose with
  | error fault => exact ⟨false, w, (Yields.lift _ w).bind_error _, hw⟩
  | ok verbose =>
    have hon {w : World} (hw : w₀.InPlay w) {c : LpSolve.Call} (hc : (Native.Call.lpsolve c).IsAbout p)
        (hquiet : (Native.Call.lpsolve c).isQuiet = true) :
        (LpSolve.tell c).on w = (.ok (), w.after (.lpsolve c)) ∧ w₀.InPlay (w.after (.lpsolve c)) :=
      ⟨LpSolve.on_tell (hw.serves (.lpsolve c) hquiet), hw.after hc⟩
    -- verbosity, log hook, run, log hook off
    obtain ⟨hlevel, hw₁⟩ := hon (c := .setVerbosity p (if verbose.isTrue then 4 else 0)) hw ⟨rfl, rfl⟩ rfl
    obtain ⟨hset, hw₂⟩ := hon (c := .logHook p (some h)) hw₁ ⟨rfl, rfl⟩ rfl
    obtain ⟨stop, w₃, hrun, hw₃⟩ := yields_lpSolveRun hs hw₂ p
    obtain ⟨hclear, hw₄⟩ := hon (c := .logHook p none) hw₃ ⟨rfl, rfl⟩ rfl
    refine ⟨stop, _, (Yields.lift _ w).bind_silent ?_, hw₄⟩
    refine Yields.bind_silent (.tacit (tacit_lpSolveTell _) hlevel) ?_
    refine Yields.bind_silent (.tacit (tacit_lpSolveTell _) hset) ?_
    exact (hrun.ensuring (tacit_lpSolveTell _) hclear).bind_last (.pure _ _)

/-- **An engine reports what its script gives** after the answers of the polls. -/
theorem yields_engineSolve (hs : w₀.script.Returns) (hw : w₀.InPlay w) (e : Engine) (method : Method)
    (parameters : Parameters) (h : Handle) :
    ∃ stop w', Yields (e.solve method parameters (some h)) w
      (e.kind.reported method parameters (w₀.kindAt e.number) (w₀.script.settled stop)) stop w' ∧
      w₀.InPlay w' := by
  unfold Engine.solve
  cases e.kind with
  | glpk => exact yields_glpkSolve hs hw e.abort method parameters h
  | lpsolve => exact yields_lpSolveSolve hs hw method parameters h

end Action

end LinearProgram
