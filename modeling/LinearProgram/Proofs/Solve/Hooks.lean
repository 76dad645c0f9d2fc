import LinearProgram.Proofs.Cancel.Forest
import LinearProgram.Proofs.Engine.Effects
import LinearProgram.Proofs.Handle

/-!
# Hooks during a solve

The libraries hold handles in hooks: one terminal hook for all of GLPK, a log and an abort hook for each
problem of lp_solve, and the handle that an engine keeps to pass it to GLPK's search. This module says which
handles are held, and what a solver at work does to them: nothing.

`Still` is the relation between two states of the layer between which no hook, no engine and no registration
has changed. An action is `Calm` when it leads from a state to a `Still` one, and each of its moments lies
between the two. This is shown of one event of a run, and by induction of all of them, in whatever order
messages and polls come.
-/

namespace LinearProgram

/-! ## §1 Handles that are held -/

namespace Native

/-- The handles in the log and in the abort hook of a problem. GLPK has no hooks for single problems. -/
def Problem.hooks : Problem → Option Handle × Option Handle
  | .lpsolve q => (q.logHook, q.abortHook)
  | .glpk _ | .deleted => (none, none)

/-- The handles in the hooks of what stands at a number. -/
def Store.hooks (s : Store) (n : Nat) : Option Handle × Option Handle :=
  ((s.problem? n).map Problem.hooks).getD (none, none)

def Call.isHook : Call → Bool
  | glpk (.terminalHook _) | lpsolve (.logHook ..) | lpsolve (.abortHook ..) => true
  | _ => false

end Native

namespace World

def engine? (w : World) (m : ModelId) : Option Engine := (w.model? m).map (·.engine)

/-- The handle is in a hook for messages. -/
def LogHeld (w : World) (h : Handle) : Prop :=
  w.native.terminalHook = some h ∨ ∃ n, (w.native.hooks n).1 = some h

/-- The handle is in a hook for polls, or an engine has it for the search. -/
def AbortHeld (w : World) (h : Handle) : Prop :=
  (∃ m e, w.engine? m = some e ∧ e.abort = some h) ∨ ∃ n, (w.native.hooks n).2 = some h

/-- No handle is held. -/
def Unhooked (w : World) : Prop := ∀ h, ¬ w.LogHeld h ∧ ¬ w.AbortHeld h

/-- The libraries refuse no function that reads, sets a hook or the verbosity, or runs a solver. -/
def Serves (w : World) : Prop := ∀ c : Native.Call, c.isQuiet = true → w.Grants c.function

end World

namespace Native

/-- Only calls that set hooks change the hooks of a problem. -/
theorem Problem.hooks_apply {c : Call} (hc : c.isHook = false) (p : Problem) : (p.apply c).hooks = p.hooks := by
  -- only problems of lp_solve have hooks, so only its calls are left after the first line
  rcases p with q | q | _ <;> rcases c with c | c <;> try rfl
  cases c <;> simp only [Call.isHook, Bool.true_eq_false] at hc <;>
    simp only [apply, LpSolve.Problem.apply, LpSolve.Problem.modifyColumn, LpSolve.Problem.modifyRow,
      hooks] <;>
    split <;> rfl

namespace Store

@[simp]
theorem terminalHook_modify (s : Store) (n : Nat) (f : Problem → Problem) :
    (s.modify n f).terminalHook = s.terminalHook := by
  unfold modify
  split <;> rfl

/-- A change to one problem leaves the hooks of the others as they are. -/
theorem hooks_modify (s : Store) (n k : Nat) (f : Problem → Problem) :
    (s.modify n f).hooks k =
      if k = n then ((s.problem? n).map fun p => (f p).hooks).getD (none, none) else s.hooks k := by
  rw [hooks, problem?_modify]
  split
  · rw [Option.map_map]
    rfl
  · rfl

theorem hooks_modify_of_hooks {f : Problem → Problem} (hf : ∀ p, (f p).hooks = p.hooks) (s : Store)
    (n k : Nat) : (s.modify n f).hooks k = s.hooks k := by
  rw [hooks_modify, funext hf]
  split
  · next hk => rw [hk, hooks]
  · rfl

/-- Calls about one problem leave all hooks alone that they do not set. -/
theorem hooks_apply {c : Call} {n : Nat} (h : c.IsAbout n) (hc : c.isHook = false) (s : Store) :
    (s.apply c).terminalHook = s.terminalHook ∧ ∀ k, (s.apply c).hooks k = s.hooks k := by
  rw [apply_of_isAbout h]
  exact ⟨terminalHook_modify .., hooks_modify_of_hooks (Problem.hooks_apply hc) s n⟩

end Store

end Native

/-! ## §2 Nothing changes hands -/

/-- From `w` to `w'`, no hook, no engine and no registration has changed; contexts are at most done. -/
structure World.Still (w w' : World) : Prop where
  registry : w.registry.SameEntries w'.registry
  engine?_eq : ∀ m, w'.engine? m = w.engine? m
  script : w'.script = w.script
  terminalHook : w'.native.terminalHook = w.native.terminalHook
  hooks : ∀ n, w'.native.hooks n = w.native.hooks n
  contexts : w.contexts.Later w'.contexts
  serves : w.Serves → w'.Serves

namespace World.Still

variable {w w₁ w₂ : World}

protected theorem refl (w : World) : w.Still w :=
  ⟨.refl _, fun _ => rfl, rfl, rfl, fun _ => rfl, .refl _, id⟩

/-- Two steps that leave hooks and registry still do so together. -/
protected theorem trans (h₁ : w.Still w₁) (h₂ : w₁.Still w₂) : w.Still w₂ where
  registry := h₁.registry.trans h₂.registry
  engine?_eq m := (h₂.engine?_eq m).trans (h₁.engine?_eq m)
  script := h₂.script.trans h₁.script
  terminalHook := h₂.terminalHook.trans h₁.terminalHook
  hooks n := (h₂.hooks n).trans (h₁.hooks n)
  contexts := h₁.contexts.trans h₂.contexts
  serves := fun h => h₂.serves (h₁.serves h)

theorem logHeld_iff (h : w.Still w₁) {k : Handle} : w₁.LogHeld k ↔ w.LogHeld k := by
  unfold LogHeld
  rw [h.terminalHook]
  simp only [h.hooks]

theorem abortHeld_iff (h : w.Still w₁) {k : Handle} : w₁.AbortHeld k ↔ w.AbortHeld k := by
  unfold AbortHeld
  simp only [h.engine?_eq, h.hooks]

theorem resolve_eq (h : w.Still w₁) (k : Handle) : w₁.registry.resolve k = w.registry.resolve k := by
  rw [Registry.resolve, Registry.resolve, h.registry.find?_eq]

theorem unhooked (h : w.Still w₁) (hw : w.Unhooked) : w₁.Unhooked := fun k =>
  ⟨fun hk => (hw k).1 (h.logHeld_iff.mp hk), fun hk => (hw k).2 (h.abortHeld_iff.mp hk)⟩

/-- Records, the clock and the record of calls do not matter. -/
theorem of_native (hregistry : w₁.registry = w.registry) (hmodels : w₁.models = w.models)
    (hscript : w₁.script = w.script) (hnative : w₁.native = w.native)
    (hcontexts : w.contexts.Later w₁.contexts) (hallowance : w₁.allowance = w.allowance) : w.Still w₁ where
  registry := by rw [hregistry]; exact .refl _
  engine?_eq m := by rw [World.engine?, World.engine?, model?, model?, hmodels]
  script := hscript
  terminalHook := by rw [hnative]
  hooks n := by rw [hnative]
  contexts := hcontexts
  serves h c hc := by
    rw [World.Grants, hallowance]
    exact h c hc

theorem log (w : World) (level : Int) (source text : String) : w.Still (w.log level source text) :=
  of_native rfl rfl rfl rfl (.refl _) rfl

/-- What a run leaves in its problem. -/
theorem modify (w : World) (n : Nat) {f : Native.Problem → Native.Problem}
    (hf : ∀ p, (f p).hooks = p.hooks) : w.Still { w with native := w.native.modify n f } where
  registry := .refl _
  engine?_eq _ := rfl
  script := rfl
  terminalHook := Native.Store.terminalHook_modify ..
  hooks := Native.Store.hooks_modify_of_hooks hf w.native n
  contexts := .refl _
  serves := id

/-- A call that sets no hook and is about one problem. -/
theorem after {c : Native.Call} {n : Nat} (h : c.IsAbout n) (hc : c.isHook = false) (w : World) :
    w.Still (w.after c) :=
  have ⟨hterminal, hhooks⟩ := Native.Store.hooks_apply h hc w.native
  ⟨.refl _, fun _ => rfl, rfl, hterminal, hhooks, .refl _, id⟩

end World.Still

namespace Action

/-- Using a function up takes nothing from the others. -/
theorem lookup_of_spend {function other : String} {allowance rest : List (String × Nat)}
    (h : spend function allowance = some rest) (hnone : allowance.lookup other = none) :
    rest.lookup other = none := by
  induction allowance generalizing rest with
  | nil =>
    cases h
    rfl
  | cons e tail ih =>
    obtain ⟨f, n⟩ := e
    rw [List.lookup_cons] at hnone
    unfold spend at h
    -- the function called is another one than that looked up, which no entry limits
    split at h
    · cases n with
      | zero => cases h
      | succ n =>
        cases h
        rw [List.lookup_cons]
        split at hnone
        · cases hnone
        · exact hnone
    · obtain ⟨tail', htail, rfl⟩ := Option.map_eq_some_iff.mp h
      rw [List.lookup_cons]
      split at hnone
      · cases hnone
      · exact ih htail hnone

/-- A call about one problem leaves everything still, unless it sets a hook. -/
theorem still_call {c : Native.Call} {n : Nat} (h : c.IsAbout n) (hc : c.isHook = false) (w : World) :
    w.Still ((call c).on w).2 := by
  rw [on_call]
  -- refused, and nothing happened; or carried out, and no hook was touched
  split
  · exact .refl w
  · next rest hspend =>
    have hstill := World.Still.after h hc w
    exact ⟨hstill.registry, hstill.engine?_eq, hstill.script, hstill.terminalHook, hstill.hooks,
      hstill.contexts, fun hs c hq => lookup_of_spend hspend (hs c hq)⟩

theorem still_stopSearch (w : World) : w.Still ((call (.glpk .stopSearch)).on w).2 := by
  rw [on_call]
  split
  · exact .refl w
  · next rest hspend =>
    exact ⟨.refl _, fun _ => rfl, rfl, rfl, fun _ => rfl, .refl _, fun hs c hq => lookup_of_spend hspend (hs c hq)⟩

/-- A poll through the handle of a context answers whether the context is done. -/
theorem on_shouldAbort_of_context {w : World} {h : Handle} {c : ContextId}
    (hc : w.registry.resolve h = some (.context c)) :
    (shouldAbort h).on w = (.ok (w.contexts.error w.clock c).1.isSome,
      { w with contexts := (w.contexts.error w.clock c).2 }) := by
  unfold shouldAbort
  rw [on_bind_of_ok (on_get w), hc]
  rfl

/-- Whatever a poll finds behind its handle, it answers; it may finish contexts and write a record. -/
theorem on_shouldAbort (h : Handle) (w : World) :
    ∃ stop contexts writings, w.contexts.Later contexts ∧
      (shouldAbort h).on w = (.ok stop, { w with contexts := contexts, writings := writings }) := by
  rcases hr : w.registry.resolve h with _ | target
  · unfold shouldAbort
    rw [on_bind_of_ok (on_get w), hr]
    exact ⟨_, _, _, .refl _, rfl⟩
  · -- only a context is asked; any other target answers without a look at the clock
    cases target with
    | context c => exact ⟨_, _, _, Forest.error_later .., on_shouldAbort_of_context hr⟩
    | model m =>
      unfold shouldAbort
      rw [on_bind_of_ok (on_get w), hr]
      exact ⟨_, _, _, .refl _, rfl⟩
    | holder p =>
      unfold shouldAbort
      rw [on_bind_of_ok (on_get w), hr]
      exact ⟨_, _, _, .refl _, rfl⟩
    | plain d =>
      unfold shouldAbort
      rw [on_bind_of_ok (on_get w), hr]
      cases d <;> exact ⟨_, _, _, .refl _, rfl⟩

private theorem on_printerOf (target : Target) (w : World) :
    ∃ printer, (printerOf target).on w = (.ok printer, w) := by
  cases target with
  | model m => exact ⟨_, rfl⟩
  | holder p => exact ⟨_, rfl⟩
  | context c => exact ⟨_, rfl⟩
  | plain d => exact ⟨_, rfl⟩

/-- Whatever a message finds behind its handle, at most something is written. -/
theorem on_forwardMessage (h : Handle) (text : Payload) (w : World) :
    ∃ writings, (forwardMessage h text).on w = (.ok (), { w with writings := writings }) := by
  unfold forwardMessage
  rw [on_bind_of_ok (on_get w)]
  split
  · exact ⟨_, rfl⟩
  · exact ⟨_, rfl⟩
  · next target _ _ =>
    dsimp only
    split
    · exact ⟨_, rfl⟩
    · obtain ⟨printer, hprinter⟩ := on_printerOf target w
      rw [on_bind_of_ok hprinter, on_bind_of_ok (on_get w)]
      -- printed, or a fault of the printer logged: both are writings
      split <;> exact ⟨_, rfl⟩

theorem tacit_shouldAbort (h : Handle) : Tacit (shouldAbort h) := by
  refine Tacit.get.bind fun w => ?_
  split
  · exact .pure _
  · exact .pure _
  · exact (Tacit.contextError _).bind fun _ => .pure _
  · exact (Tacit.change _).bind fun _ => .pure _

/-- Forwarding a message tells no moment of its own. -/
theorem tacit_forwardMessage (h : Handle) (text : Payload) : Tacit (forwardMessage h text) := by
  refine Tacit.get.bind fun w => ?_
  split
  · exact .pure _
  · exact .pure _
  · dsimp only
    split
    · exact .pure _
    · refine Tacit.bind ?_ fun printer => Tacit.get.bind fun w => ?_
      · unfold printerOf
        split
        · exact Tacit.get.bind fun _ => .pure _
        · exact .pure _
        · exact .pure _
        · exact .pure _
      · split <;> exact .change _

/-- A message is one moment, and then what its callback does. -/
theorem watch_deliver {h : Handle} {text : Payload} {w w' : World}
    (hon : (forwardMessage h text).on w = (.ok (), w')) :
    (deliver h text).watch w = ((.ok (), w'), [.message w h]) := by
  have htold : (tell fun w => .message w h).watch w = ((.ok (), w), [.message w h]) := rfl
  unfold deliver
  rw [watch_bind_of_ok htold, (tacit_forwardMessage h text).watch_eq, hon]
  rfl

/-- A poll is what its callback does, and one moment. -/
theorem watch_poll {h : Handle} {stop : Bool} {w w' : World} (hon : (shouldAbort h).on w = (.ok stop, w')) :
    (poll h).watch w = ((.ok stop, w'), [.poll w h stop]) := by
  unfold poll
  rw [watch_bind_of_tacit .get (on_get w), watch_bind_of_tacit (tacit_shouldAbort h) hon]
  rfl

end Action

/-! ## §3 Solvers at work -/

/-- The moment lies between two states: nothing has changed hands before it or after it, and the handle that
the library comes back with is one that it holds. -/
def Moment.Between (w w' : World) : Moment → Prop
  | .message v h => w.Still v ∧ v.LogHeld h ∧ v.Still w'
  | .poll v h stop =>
    w.Still v ∧ v.AbortHeld h ∧ ∃ v', (Action.shouldAbort h).on v = (.ok stop, v') ∧ v'.Still w'
  | .leaving .. => False

/-- A moment between two states is one between states around them. -/
theorem Moment.Between.widen {w w₁ w₂ w' : World} {x : Moment} (hx : x.Between w₁ w₂) (h₁ : w.Still w₁)
    (h₂ : w₂.Still w') : x.Between w w' := by
  cases x with
  | message v h => exact ⟨h₁.trans hx.1, hx.2.1, hx.2.2.trans h₂⟩
  | poll v h stop =>
    obtain ⟨hbefore, hheld, v', hon, hafter⟩ := hx
    exact ⟨h₁.trans hbefore, hheld, v', hon, hafter.trans h₂⟩
  | leaving v h => exact hx

namespace Action

variable {α β : Type} {w₀ : World}

/-- From where nothing has changed hands since `w₀`, nothing changes hands, and all moments lie between. -/
def Calm (w₀ : World) (a : Action α) : Prop :=
  ∀ w, w₀.Still w → w.Still (a.watch w).1.2 ∧ ∀ x ∈ (a.watch w).2, x.Between w (a.watch w).1.2

namespace Calm

theorem tacit {a : Action α} (ht : Tacit a) (h : ∀ w : World, w.Still (a.on w).2) : Calm w₀ a := by
  intro w _
  rw [ht.watch_eq]
  exact ⟨h w, fun x hx => by cases hx⟩

theorem pure (x : α) : Calm w₀ (Pure.pure x) := tacit (.pure x) World.Still.refl

theorem get : Calm w₀ (MonadState.get : Action World) := tacit .get World.Still.refl

/-- What the first step answers may be known when the second is looked at. -/
theorem bind_of {a : Action α} {f : α → Action β} (ha : Calm w₀ a)
    (hf : ∀ w x w' t, w₀.Still w → a.watch w = ((.ok x, w'), t) → Calm w₀ (f x)) : Calm w₀ (a >>= f) := by
  intro w hw
  obtain ⟨hstill, hmoments⟩ := ha w hw
  rcases hon : a.watch w with ⟨⟨fault | x, w'⟩, t⟩
  · rw [watch_bind_of_error hon]
    rw [hon] at hstill hmoments
    exact ⟨hstill, hmoments⟩
  · rw [watch_bind_of_ok hon]
    rw [hon] at hstill hmoments
    obtain ⟨hstill', hmoments'⟩ := hf w x w' t hw hon w' (hw.trans hstill)
    refine ⟨hstill.trans hstill', fun y hy => ?_⟩
    -- a moment of the first part, or one of the second
    rcases List.mem_append.mp hy with hy | hy
    · exact (hmoments y hy).widen (.refl w) hstill'
    · exact (hmoments' y hy).widen hstill (.refl _)

theorem bind {a : Action α} {f : α → Action β} (ha : Calm w₀ a) (hf : ∀ x, Calm w₀ (f x)) :
    Calm w₀ (a >>= f) := ha.bind_of fun _ x _ _ _ _ => hf x

theorem lift (r : Except Fault α) : Calm w₀ (Action.lift r) :=
  tacit (.lift r) fun w => by rw [on_lift]; exact .refl w

/-- A delivery under a handle that is held is calm. -/
theorem deliver {h : Handle} (hh : w₀.LogHeld h) (text : Payload) : Calm w₀ (deliver h text) := by
  intro w hw
  obtain ⟨writings, hon⟩ := on_forwardMessage h text w
  have hstill : w.Still { w with writings := writings } := .of_native rfl rfl rfl rfl (.refl _) rfl
  rw [watch_deliver hon]
  refine ⟨hstill, fun x hx => ?_⟩
  rw [List.mem_singleton.mp hx]
  exact ⟨.refl w, hw.logHeld_iff.mpr hh, hstill⟩

/-- A poll under a handle that is held is calm. -/
theorem poll {h : Handle} (hh : w₀.AbortHeld h) : Calm w₀ (poll h) := by
  intro w hw
  obtain ⟨stop, contexts, writings, hlater, hon⟩ := on_shouldAbort h w
  rw [watch_poll hon]
  refine ⟨.of_native rfl rfl rfl rfl hlater rfl, fun x hx => ?_⟩
  rw [List.mem_singleton.mp hx]
  exact ⟨.refl w, hw.abortHeld_iff.mpr hh, _, hon, .refl _⟩

end Calm

/-! ### Events -/

theorem calm_pollHook {hooks : RunHooks} (habort : ∀ h, hooks.abort = some h → w₀.AbortHeld h) :
    Calm w₀ (pollHook hooks) := by
  unfold pollHook
  cases hh : hooks.abort with
  | none => exact .pure _
  | some h =>
    refine (Calm.poll (habort h hh)).bind fun stop => ?_
    split
    · split
      · -- stopping the search sets no hook
        exact .tacit (.call _) still_stopSearch
      · exact .pure _
    · exact .pure _

/-- **One event.** The library comes back with a handle that it holds, or something else happens in which
nothing changes hands. -/
theorem calm_runEvent {hooks : RunHooks} (hlog : ∀ h, hooks.log = some h → w₀.LogHeld h)
    (habort : ∀ h, hooks.abort = some h → w₀.AbortHeld h) (event : RunEvent) :
    Calm w₀ (runEvent hooks event) := by
  cases event with
  | message text =>
    refine Calm.bind ?_ fun _ => .pure _
    cases hh : hooks.log with
    | none => exact .pure _
    | some h => exact .deliver (hlog h hh) _
  | poll heeded => exact calm_pollHook habort
  -- another thread may cancel a context at any time: contexts only get older
  | cancel c =>
    refine Calm.bind (.tacit (.change _) fun w => ?_) fun _ => .pure _
    exact .of_native rfl rfl rfl rfl (Forest.finish_finishes ..).later rfl
  | advance seconds =>
    refine Calm.get.bind fun v => (Calm.lift _).bind fun clock => Calm.bind (.tacit (.change _) fun w => ?_)
      fun _ => .pure _
    exact .of_native rfl rfl rfl rfl (.refl _) rfl
  | fail fault => exact .tacit (.fail fault) World.Still.refl

/-- A schedule of calm events is calm. -/
theorem calm_runEvents {hooks : RunHooks} (hevent : ∀ event, Calm w₀ (runEvent hooks event))
    (events : List RunEvent) : Calm w₀ (runEvents hooks events) := by
  -- event by event; the run may end early, and then it is calm already
  induction events with
  | nil => exact .pure _
  | cons event rest ih =>
    refine (hevent event).bind fun stop => ?_
    split
    · exact .pure _
    · exact ih.bind fun _ => .pure _

end Action

/-! ### Runs -/

/-- Where nothing has changed hands since `w₀`, the hooks of the run are hooks that are held, and the run sets
none: neither the call that starts it nor what it leaves has to do with hooks. -/
structure NativeRun.Tame (w₀ : World) (r : NativeRun) : Prop where
  about : r.start.IsAbout r.problem
  start : r.start.isHook = false
  leave : ∀ s v q, (r.leave s v q).hooks = q.hooks
  log : ∀ w, w₀.Still w → ∀ h, (r.hooks w.native).log = some h → w.LogHeld h
  abort : ∀ w, w₀.Still w → ∀ h, (r.hooks w.native).abort = some h → w.AbortHeld h

namespace NativeRun

variable {w₀ : World} {p : Nat}

/-- A hook that is used for printing is the hook that was given. -/
theorem hook_of_printing {level : Int} {hook : Option Handle} {h : Handle}
    (hh : printing level hook = some h) : hook = some h := by
  unfold printing at hh
  split at hh
  · exact hh
  · cases hh

theorem tame_simplex (level presolve : Int) : (simplex p level presolve).Tame w₀ where
  about := ⟨rfl, rfl⟩
  start := rfl
  leave _ _ q := by cases q <;> rfl
  log _ _ _ hh := .inl (hook_of_printing hh)
  abort _ _ _ hh := by cases hh

/-- A search with a handle that is held, or with none, is tame. -/
theorem tame_integerSearch (level presolve : Int) {callback : Option Handle}
    (hh : ∀ h, callback = some h → w₀.AbortHeld h) : (integerSearch p level presolve callback).Tame w₀ where
  about := ⟨rfl, rfl⟩
  start := rfl
  leave _ _ q := by cases q <;> rfl
  log _ _ _ hh := .inl (hook_of_printing hh)
  abort _ hw h hk := hw.abortHeld_iff.mpr (hh h hk)

/-- The hooks of an lp_solve problem are in the store. -/
theorem hooks_of_lpsolve? {w : World} {p : Nat} :
    w.native.hooks p = (((w.native.lpsolve? p).getD .fresh).logHook,
      ((w.native.lpsolve? p).getD .fresh).abortHook) := by
  unfold Native.Store.hooks Native.Store.lpsolve?
  rcases w.native.problem? p with _ | ⟨q | q | _⟩ <;> rfl

theorem tame_lpSolve : (lpSolve p).Tame w₀ where
  about := ⟨rfl, rfl⟩
  start := rfl
  leave _ _ q := by cases q <;> rfl
  log _ _ _ hh := .inr ⟨p, by rw [hooks_of_lpsolve?]; exact hook_of_printing hh⟩
  abort _ _ _ hh := .inr ⟨p, by rw [hooks_of_lpsolve?]; exact hh⟩

end NativeRun

namespace Action

variable {w₀ : World} {p : Nat}

/-- **A run changes no hooks**, and comes back only with handles that are held. -/
theorem calm_conduct {r : NativeRun} (hr : r.Tame w₀) : Calm w₀ (conduct r) := by
  unfold conduct
  refine Calm.bind (.tacit (.call _) (still_call hr.about hr.start)) fun granted => ?_
  split
  · refine Calm.get.bind_of fun w v w' t hw hon => ?_
    cases hon
    -- the hooks are those of the state in which the events begin
    have hevent (event : RunEvent) : Calm w₀ (runEvent (r.hooks w.native) event) :=
      calm_runEvent (fun h hh => hw.logHeld_iff.mp (hr.log w hw h hh))
        (fun h hh => hw.abortHeld_iff.mp (hr.abort w hw h hh)) event
    refine (calm_runEvents hevent _).bind fun stopped => (Calm.lift _).bind fun values => ?_
    exact Calm.bind (.tacit (.change _) fun w => .modify w _ (hr.leave _ _)) fun _ => .pure _
  · exact .pure _

/-! ### Methods of GLPK -/

theorem tacit_ask {α : Type} (p : Nat) (query : Glpk.Query) (absent : α) (answer : Glpk.Problem → α) :
    Tacit (Glpk.ask p query absent answer) := by
  refine (Tacit.call _).bind fun granted => ?_
  split
  · refine Tacit.get.bind fun w => ?_
    split <;> exact .pure _
  · exact .pure _

theorem still_ask {α : Type} (p : Nat) (query : Glpk.Query) (absent : α) (answer : Glpk.Problem → α)
    (w : World) : w.Still ((Glpk.ask p query absent answer).on w).2 := by
  refine Preserves.bind (P := w.Still) ?_ (fun granted => ?_) w (.refl w)
  · exact fun v hv => hv.trans (still_call ⟨rfl, rfl⟩ rfl v)
  · split
    · refine Preserves.get.bind fun v => ?_
      split <;> exact Preserves.pure _
    · exact Preserves.pure _

theorem calm_ask {α : Type} (query : Glpk.Query) (absent : α) (answer : Glpk.Problem → α) :
    Calm w₀ (Glpk.ask p query absent answer) := .tacit (tacit_ask _ _ _ _) (still_ask _ _ _ _)

/-- The relaxation is calm, as it has no handle. -/
theorem calm_simplex (parameters : Parameters) (presolve : Bool) :
    Calm w₀ (Glpk.simplex p parameters presolve) := by
  unfold Glpk.simplex
  refine (Calm.lift _).bind fun verbose => (calm_conduct (NativeRun.tame_simplex ..)).bind fun code => ?_
  split
  · exact .pure _
  · exact (calm_ask _ _ _).bind fun _ => .pure _

theorem calm_search (parameters : Parameters) {abort : Option Handle}
    (hh : ∀ h, abort = some h → w₀.AbortHeld h) : Calm w₀ (Glpk.search p parameters abort) :=
  (Calm.lift _).bind fun _ => (Calm.lift _).bind fun _ =>
    (calm_conduct (NativeRun.tame_integerSearch _ _ hh)).bind fun _ => (calm_ask _ _ _).bind fun _ => .pure _

/-- Branch-and-cut is calm, with a handle that is held. -/
theorem calm_branchCut (parameters : Parameters) {abort : Option Handle}
    (hh : ∀ h, abort = some h → w₀.AbortHeld h) : Calm w₀ (Glpk.branchCut p parameters abort) := by
  unfold Glpk.branchCut
  refine (Calm.lift _).bind fun presolve => ?_
  split
  · exact calm_search parameters hh
  · refine (calm_simplex _ _).bind fun relaxed => ?_
    split
    · exact calm_search parameters hh
    · -- the relaxation is passed on, with a word in the log
      exact Calm.bind (.tacit (.change _) fun w => World.Still.log w _ _ _) fun _ => .pure _

theorem calm_runMethod {abort : Option Handle} (hh : ∀ h, abort = some h → w₀.AbortHeld h)
    (method : Method) (parameters : Parameters) : Calm w₀ (Glpk.runMethod p abort method parameters) := by
  unfold Glpk.runMethod
  split
  · exact (Calm.lift _).bind fun _ => calm_simplex _ _
  · exact calm_branchCut parameters hh

end Action

end LinearProgram
