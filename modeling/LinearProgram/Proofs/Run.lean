import LinearProgram.Native.Run
import LinearProgram.Proofs.Calls

/-!
# What happens during a run of a solver

While a solver runs, it sends messages, polls its abort callback, and lets time pass. All of this leaves
the models and the mathematical problems alone: that is `Running`, a relation between the state before a
piece of a run and the state after it. The pieces are the callbacks, the events and the calls that
surround a run.

Events are looked at one by one, and what each of them keeps the whole run keeps, by induction on its events.
All runs have one equation. It says what the state is when the solver returns, and which code it returns.
-/

namespace LinearProgram

/-! ## §1 The relation -/

/-- From `w` to `w'`, only callbacks acted and quiet calls were made, on libraries that refuse
nothing. -/
structure Running (w w' : World) : Prop where
  compliant : w'.Compliant
  models : w'.models = w.models
  registry : w'.registry = w.registry
  script : w'.script = w.script
  cores : ∀ k, w'.native.core? k = w.native.core? k
  size : w'.native.problems.size = w.native.problems.size
  extends_ : w.Extends w'
  quiet : ∀ c ∈ w.callsSince w', c.isQuiet = true

/-- In addition, no solver was started. -/
structure Waiting (w w' : World) : Prop extends Running w w' where
  idle : ∀ c ∈ w.callsSince w', c.isEntry = false

/-- In addition, no time has passed. -/
structure Idling (w w' : World) : Prop extends Waiting w w' where
  clock : w'.clock = w.clock

/-- Neither the registry nor the clock has changed. -/
structure World.Steady (w w' : World) : Prop where
  registry : w'.registry = w.registry
  clock : w'.clock = w.clock

theorem World.Steady.trans {w w₁ w₂ : World} (h₁ : w.Steady w₁) (h₂ : w₁.Steady w₂) : w.Steady w₂ :=
  ⟨h₂.registry.trans h₁.registry, h₂.clock.trans h₁.clock⟩

theorem Idling.steady {w w' : World} (h : Idling w w') : w.Steady w' := ⟨h.registry, h.clock⟩

namespace Running

variable {w w₁ w₂ : World}

/-- Changes outside of the models, the registry, the script, the problems and the record of calls are
part of a run. -/
theorem of_eq (h : w.Compliant) (hallowance : w₁.allowance = w.allowance)
    (hmodels : w₁.models = w.models) (hregistry : w₁.registry = w.registry)
    (hscript : w₁.script = w.script) (hnative : w₁.native = w.native) (hcalls : w₁.calls = w.calls) :
    Running w w₁ where
  compliant := hallowance.trans h
  models := hmodels
  registry := hregistry
  script := hscript
  cores k := by rw [hnative]
  size := by rw [hnative]
  extends_ := World.Extends.of_calls [] (by simp [hcalls])
  quiet := by rw [World.callsSince_of_calls [] (by simp [hcalls])]; simp

/-- A run may be looked at in parts. -/
protected theorem trans (h₁ : Running w w₁) (h₂ : Running w₁ w₂) : Running w w₂ where
  compliant := h₂.compliant
  models := h₂.models.trans h₁.models
  registry := h₂.registry.trans h₁.registry
  script := h₂.script.trans h₁.script
  cores k := (h₂.cores k).trans (h₁.cores k)
  size := h₂.size.trans h₁.size
  extends_ := h₁.extends_.trans h₂.extends_
  quiet c hc := by
    rw [World.callsSince_trans h₁.extends_ h₂.extends_] at hc
    exact (List.mem_append.mp hc).elim (h₁.quiet c) (h₂.quiet c)

/-- One quiet call. -/
theorem after (h : w.Compliant) {c : Native.Call} (hc : c.isQuiet = true) : Running w (w.after c) where
  compliant := h
  models := rfl
  registry := rfl
  script := rfl
  cores := Native.Store.core?_apply_of_isQuiet hc _
  size := Native.Store.size_apply_of_isQuiet hc _
  extends_ := World.Extends.after w c
  quiet := by simpa using hc

/-- What a run leaves in a problem does not change its core. -/
theorem leave (h : w.Compliant) (n : Nat) {f : Native.Problem → Native.Problem}
    (hf : ∀ p, (f p).core = p.core) : Running w { w with native := w.native.modify n f } where
  compliant := h
  models := rfl
  registry := rfl
  script := rfl
  cores := Native.Store.core?_modify_of_core hf _ n
  size := Native.Store.size_modify _ _ _
  extends_ := World.Extends.refl w
  quiet := by
    show ∀ c ∈ w.callsSince w, _
    simp

end Running

namespace Waiting

variable {w w₁ w₂ : World}

theorem of_eq (h : w.Compliant) (hallowance : w₁.allowance = w.allowance)
    (hmodels : w₁.models = w.models) (hregistry : w₁.registry = w.registry)
    (hscript : w₁.script = w.script) (hnative : w₁.native = w.native) (hcalls : w₁.calls = w.calls) :
    Waiting w w₁ where
  toRunning := Running.of_eq h hallowance hmodels hregistry hscript hnative hcalls
  idle := by rw [World.callsSince_of_calls [] (by simp [hcalls])]; simp

protected theorem refl (h : w.Compliant) : Waiting w w := of_eq h rfl rfl rfl rfl rfl rfl

protected theorem trans (h₁ : Waiting w w₁) (h₂ : Waiting w₁ w₂) : Waiting w w₂ where
  toRunning := h₁.toRunning.trans h₂.toRunning
  idle c hc := by
    rw [World.callsSince_trans h₁.extends_ h₂.extends_] at hc
    exact (List.mem_append.mp hc).elim (h₁.idle c) (h₂.idle c)

theorem after (h : w.Compliant) {c : Native.Call} (hc : c.isQuiet = true) (he : c.isEntry = false) :
    Waiting w (w.after c) where
  toRunning := Running.after h hc
  idle := by simpa using he

end Waiting

namespace Idling

variable {w w₁ w₂ : World}

theorem of_eq (h : w.Compliant) (hallowance : w₁.allowance = w.allowance)
    (hmodels : w₁.models = w.models) (hregistry : w₁.registry = w.registry)
    (hscript : w₁.script = w.script) (hnative : w₁.native = w.native) (hcalls : w₁.calls = w.calls)
    (hclock : w₁.clock = w.clock) : Idling w w₁ :=
  ⟨Waiting.of_eq h hallowance hmodels hregistry hscript hnative hcalls, hclock⟩

protected theorem refl (h : w.Compliant) : Idling w w := ⟨Waiting.refl h, rfl⟩

protected theorem trans (h₁ : Idling w w₁) (h₂ : Idling w₁ w₂) : Idling w w₂ :=
  ⟨h₁.toWaiting.trans h₂.toWaiting, h₂.clock.trans h₁.clock⟩

theorem after (h : w.Compliant) {c : Native.Call} (hc : c.isQuiet = true) (he : c.isEntry = false) :
    Idling w (w.after c) := ⟨Waiting.after h hc he, rfl⟩

end Idling

/-- A property of states that callbacks keep: it holds on libraries that refuse nothing, and neither
stopping a search nor records, contexts or printed lines matter to it. -/
structure Kept (P : World → Prop) : Prop where
  compliant : ∀ {w}, P w → w.Compliant
  stop : ∀ {w}, P w → P (w.after (.glpk .stopSearch))
  contexts : ∀ {w f}, P w → P { w with contexts := f }
  writings : ∀ {w l}, P w → P { w with writings := l }

/-- Waiting is a relation that callbacks keep. -/
theorem Waiting.kept (w : World) : Kept (Waiting w) where
  compliant h := h.compliant
  stop h := h.trans (Waiting.after h.compliant rfl rfl)
  contexts h := h.trans (Waiting.of_eq h.compliant rfl rfl rfl rfl rfl rfl)
  writings h := h.trans (Waiting.of_eq h.compliant rfl rfl rfl rfl rfl rfl)

/-- Idling is a relation that callbacks keep. -/
theorem Idling.kept (w : World) : Kept (Idling w) where
  compliant h := h.compliant
  stop h := h.trans (Idling.after h.compliant rfl rfl)
  contexts h := h.trans (Idling.of_eq h.compliant rfl rfl rfl rfl rfl rfl rfl)
  writings h := h.trans (Idling.of_eq h.compliant rfl rfl rfl rfl rfl rfl rfl)

namespace Action

variable {α : Type} {w : World} {P : World → Prop}

/-! ## §2 Pieces of a run -/

theorem returns_stopSearch (hP : Kept P) : Returns P (call (.glpk .stopSearch)) := fun w h =>
  ⟨true, w.after _, on_call_of_compliant (hP.compliant h), hP.stop h⟩

theorem returns_log (hP : Kept P) (level : Int) (source text : String) :
    Returns P (modify fun v => v.log level source text) := Returns.change fun _ h => hP.writings h

theorem returns_logError (hP : Kept P) (source text : String) :
    Returns P (logError source text) := returns_log hP _ _ _

theorem returns_contextError (hP : Kept P) (c : ContextId) : Returns P (contextError c) :=
  fun w h => ⟨_, _, on_contextError c w, hP.contexts h⟩

/-- Asking whether to abort does no more than look for a context and ask it. -/
theorem returns_shouldAbort (hP : Kept P) (h : Handle) : Returns P (shouldAbort h) := by
  unfold shouldAbort
  refine Returns.bind Returns.get fun v => ?_
  split
  · exact Returns.pure _
  · exact Returns.pure _
  · exact Returns.bind (returns_contextError hP _) fun _ => Returns.pure _
  · exact Returns.bind (returns_logError hP _ _) fun _ => Returns.pure _

/-- Looking for a printer changes nothing. -/
theorem returns_printerOf (target : Target) : Returns P (printerOf target) := by
  unfold printerOf
  cases target with
  | model m => exact Returns.bind Returns.get fun _ => Returns.pure _
  | holder p => exact Returns.pure _
  | context c => exact Returns.pure _
  | plain d => exact Returns.pure _

/-- A message is printed or logged, and a failure of the printer is logged. -/
theorem returns_forwardMessage (hP : Kept P) (h : Handle) (message : Payload) :
    Returns P (forwardMessage h message) := by
  unfold forwardMessage
  refine Returns.bind Returns.get fun v => ?_
  split
  · exact Returns.pure _
  · exact Returns.pure _
  · -- an object stands behind the handle; what goes wrong with its printer is logged and swallowed
    dsimp only
    split
    · exact Returns.pure _
    · refine Returns.bind (returns_printerOf _) fun printer => ?_
      refine Returns.bind Returns.get fun v => ?_
      split
      · exact Returns.change fun _ h => hP.writings h
      · exact returns_logError hP _ _

theorem returns_deliver (hP : Kept P) (h : Handle) (text : Payload) : Returns P (deliver h text) :=
  (Returns.tell _).bind fun _ => returns_forwardMessage hP h text

theorem returns_poll (hP : Kept P) (h : Handle) : Returns P (poll h) :=
  Returns.get.bind fun _ => (returns_shouldAbort hP h).bind fun _ => (Returns.tell _).bind fun _ => Returns.pure _

/-- A message goes to the hook, if there is one. -/
theorem returns_sendMessage (hP : Kept P) (hook : Option Handle) (text : Payload) :
    Returns P (sendMessage hook text) := by
  cases hook with
  | none => exact Returns.pure _
  | some h => exact returns_deliver hP h _

/-- Every poll answers, and leads to no other states than a look at a context and a call that stops. -/
theorem returns_pollHook (hP : Kept P) (hooks : RunHooks) : Returns P (pollHook hooks) := by
  unfold pollHook
  cases hooks.abort with
  | none => exact Returns.pure _
  | some h =>
    refine (returns_poll hP h).bind fun stop => ?_
    -- GLPK is stopped by a call that the callback makes, lp_solve by the answer itself
    split
    · split
      · exact returns_stopSearch hP
      · exact Returns.pure _
    · exact Returns.pure _

/-- One event keeps what callbacks keep, if it does not depend on the clock. -/
theorem preserves_runEvent (hP : Kept P) (hclock : ∀ {w t}, P w → P { w with clock := t }) (hooks : RunHooks)
    (event : RunEvent) : Preserves P (runEvent hooks event) := by
  cases event with
  | message text => exact (returns_sendMessage hP _ _).preserves.bind fun _ => Preserves.pure _
  | poll heeded => exact (returns_pollHook hP hooks).preserves
  | cancel c => exact Preserves.bind (Preserves.change fun _ h => hP.contexts h) fun _ => Preserves.pure _
  -- the clock may fail to add, and then nothing has changed
  | advance seconds =>
    refine Preserves.get.bind fun v => (Preserves.lift _).bind fun clock => ?_
    exact Preserves.bind (Preserves.change fun _ h => hclock h) fun _ => Preserves.pure _
  | fail fault => exact Preserves.fail _

/-- What each event keeps, all events keep. -/
theorem preserves_runEvents {hooks : RunHooks} (hevent : ∀ event, Preserves P (runEvent hooks event))
    (events : List RunEvent) : Preserves P (runEvents hooks events) := by
  induction events with
  | nil => exact Preserves.pure _
  | cons event rest ih =>
    refine (hevent event).bind fun stop => ?_
    -- the rest happens unless the poll told a solver that heeds it to stop
    split
    · exact Preserves.pure _
    · exact ih.bind fun _ => Preserves.pure _

end Action

/-! ## §3 Whole runs -/

namespace NativeRun

/-- The call that starts the run is one that starts a solver on the problem of the run, and what the run leaves
is no part of the mathematical problem. -/
structure Proper (r : NativeRun) : Prop where
  quiet : r.start.isQuiet = true
  entry : r.start.isEntry = true
  problems : r.start.problems = [r.problem]
  core : ∀ s v q, (r.leave s v q).core = q.core

theorem proper_simplex (p : Nat) (level presolve : Int) : (simplex p level presolve).Proper :=
  ⟨rfl, rfl, rfl, fun _ _ q => by cases q <;> rfl⟩

theorem proper_integerSearch (p : Nat) (level presolve : Int) (callback : Option Handle) :
    (integerSearch p level presolve callback).Proper :=
  ⟨rfl, rfl, rfl, fun _ _ q => by cases q <;> rfl⟩

theorem proper_lpSolve (p : Nat) : (lpSolve p).Proper := ⟨rfl, rfl, rfl, fun _ _ q => by cases q <;> rfl⟩

/-- A call that starts a solver neither makes nor copies nor deletes a problem. -/
theorem Proper.isAbout {r : NativeRun} (h : r.Proper) : r.start.IsAbout r.problem := by
  refine ⟨?_, h.problems⟩
  have hentry := h.entry
  generalize r.start = c at hentry ⊢
  rcases c with c | c <;> cases c <;> first | rfl | cases hentry

/-- How a run ends that starts in state `w`: after some callbacks, in state `w'`, it either leaves values in its
problem and returns a code, or breaks off. -/
def Ends (r : NativeRun) (w : World) (outcome : Except Fault Int × World) : Prop :=
  ∃ w', Waiting (w.after r.start) w' ∧
    ((∃ stopped values, w.script.values = .ok values ∧ outcome = (.ok (r.code w.script stopped),
        { w' with native := w'.native.modify r.problem (r.leave w.script values) })) ∨
      ∃ fault, outcome = (.error fault, w'))

end NativeRun

namespace Action

variable {w : World}

/-- Whatever happens during a run is waiting. -/
theorem waiting_runEvents (h : w.Compliant) (hooks : RunHooks) (events : List RunEvent) :
    Waiting w ((runEvents hooks events).on w).2 :=
  preserves_runEvents (preserves_runEvent (Waiting.kept w)
    (fun hw => hw.trans (Waiting.of_eq hw.compliant rfl rfl rfl rfl rfl rfl)) hooks) events w (Waiting.refl h)

/-- What happens once the call that starts a run was carried out. -/
theorem on_conduct_of_call {v : World} {r : NativeRun} (h : (call r.start).on w = (.ok true, v)) :
    (conduct r).on w =
      match (runEvents (r.hooks v.native) (r.course v.script)).on v with
      | (.error fault, w') => (.error fault, w')
      | (.ok stopped, w') =>
        match v.script.values with
        | .error fault => (.error fault, w')
        | .ok values => (.ok (r.code v.script stopped),
            { w' with native := w'.native.modify r.problem (r.leave v.script values) }) := by
  unfold conduct
  rw [on_bind_of_ok h, if_pos rfl, on_bind_of_ok (on_get _), on_bind]
  -- the events run to their end or break off with the fault of a callback
  rcases (runEvents (r.hooks v.native) (r.course v.script)).on v with ⟨fault | stopped, w'⟩
  · rfl
  · dsimp only
    cases v.script.values with
    | error fault => rfl
    | ok values => rfl

/-- **A run** is the call that starts it, then callbacks only, and then the values that it leaves. -/
theorem on_conduct (h : w.Compliant) (r : NativeRun) : r.Ends w ((conduct r).on w) := by
  rw [on_conduct_of_call (on_call_of_compliant h)]
  have hwaiting := waiting_runEvents (h.after r.start) (r.hooks (w.after r.start).native)
    (r.course (w.after r.start).script)
  rcases hrun : (runEvents (r.hooks (w.after r.start).native) (r.course (w.after r.start).script)).on
    (w.after r.start) with ⟨fault | stopped, w'⟩ <;> rw [hrun] at hwaiting
  · exact ⟨w', hwaiting, Or.inr ⟨fault, rfl⟩⟩
  · -- what the callbacks did is the same, whether the values can be read or not
    cases hv : (w.after r.start).script.values with
    | error fault => exact ⟨w', hwaiting, Or.inr ⟨fault, rfl⟩⟩
    | ok values => exact ⟨w', hwaiting, Or.inl ⟨stopped, values, hv, rfl⟩⟩

end Action

/-! ## §4 Runs that return -/

/-- The event neither breaks a run off nor lets the clock become a number too large for a double. -/
def RunEvent.Passes : RunEvent → Prop
  | .message _ | .poll _ | .cancel _ => True
  | .advance seconds => ∃ x, seconds = .float x
  | .fail _ => False

/-- Runs with the script return: every event passes, and values are left behind. -/
structure Script.Returns (s : Script) : Prop where
  simplexEvents : ∀ e ∈ s.simplexEvents, e.Passes
  events : ∀ e ∈ s.events, e.Passes
  values : ∃ v, s.values = .ok v

/-- The events of the run pass in every script with which runs return. -/
def NativeRun.Passes (r : NativeRun) : Prop := ∀ s : Script, s.Returns → ∀ e ∈ r.course s, e.Passes

namespace NativeRun

/-- Messages pass. -/
theorem passes_of_messages {messages : List Payload} {events : List RunEvent} (h : ∀ e ∈ events, e.Passes) :
    ∀ e ∈ messages.map RunEvent.message ++ events, e.Passes := by
  intro e he
  rcases List.mem_append.mp he with he | he
  · obtain ⟨text, -, rfl⟩ := List.mem_map.mp he
    trivial
  · exact h e he

theorem passes_simplex (p : Nat) (level presolve : Int) : (simplex p level presolve).Passes :=
  fun _ h => passes_of_messages h.simplexEvents

theorem passes_integerSearch (p : Nat) (level presolve : Int) (callback : Option Handle) :
    (integerSearch p level presolve callback).Passes := fun _ h => passes_of_messages h.events

theorem passes_lpSolve (p : Nat) : (lpSolve p).Passes := fun _ h => passes_of_messages h.events

end NativeRun

/-- The clock shows a number that a double can hold. -/
def World.Timed (w : World) : Prop := ∃ x, w.clock.toDouble = .ok x

/-- What runs that return need: nothing is refused and the clock can go on. -/
def World.Going (w : World) : Prop := w.Compliant ∧ w.Timed

/-- Going on is a relation that callbacks keep. -/
theorem World.Going.kept : Kept World.Going where
  compliant h := h.1
  stop h := h
  contexts h := h
  writings h := h

namespace Action

variable {w : World}

theorem add_float {clock : Number} {t : Float} (h : clock.toDouble = .ok t) (x : Float) :
    clock.add (.float x) = .ok (.float (t + x)) := by
  cases clock <;> simp only [Number.add, h] <;> rfl

/-- An event of a run leads from going on to going on. -/
theorem returns_runEvent (hooks : RunHooks) {event : RunEvent} (h : event.Passes) :
    Returns World.Going (runEvent hooks event) := by
  cases event with
  | message text => exact (returns_sendMessage World.Going.kept _ _).bind fun _ => Returns.pure _
  | poll heeded => exact returns_pollHook World.Going.kept hooks
  | cancel c => exact Returns.bind (Returns.change fun _ h => h) fun _ => Returns.pure _
  | advance seconds =>
    obtain ⟨x, rfl⟩ := h
    intro w hw
    obtain ⟨t, ht⟩ := hw.2
    unfold runEvent
    -- seconds and clock are doubles, so their sum is one
    rw [on_bind_of_ok (on_get w), add_float ht]
    exact Returns.bind (Returns.change fun _ h => ⟨h.1, _, rfl⟩) (fun _ => Returns.pure _) w hw
  | fail fault => exact h.elim

/-- **A schedule of events leads from going on to going on**, whatever the polls answer. -/
theorem returns_runEvents (hooks : RunHooks) {events : List RunEvent} (h : ∀ e ∈ events, e.Passes) :
    Returns World.Going (runEvents hooks events) := by
  -- event by event, whatever the polls before have answered
  induction events with
  | nil => exact Returns.pure _
  | cons event rest ih =>
    refine (returns_runEvent hooks (h event (List.mem_cons_self ..))).bind fun stop => ?_
    split
    · exact Returns.pure _
    · exact (ih fun e he => h e (List.mem_cons_of_mem _ he)).bind fun _ => Returns.pure _

/-- **A run returns** with every script that lets it. -/
theorem conduct_returns {r : NativeRun} (hr : r.Passes) (hs : w.script.Returns) (h : w.Going) :
    ∃ code w', (conduct r).on w = (.ok code, w') ∧ w'.Going := by
  have hs' : (w.after r.start).script.Returns := hs
  obtain ⟨values, hv⟩ := hs'.values
  obtain ⟨stopped, w', hrun, hw'⟩ := returns_runEvents (r.hooks (w.after r.start).native) (hr _ hs')
    (w.after r.start) h
  rw [on_conduct_of_call (on_call_of_compliant h.1), hrun]
  dsimp only
  rw [hv]
  exact ⟨_, _, rfl, hw'⟩

end Action

end LinearProgram
