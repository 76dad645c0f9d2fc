import LinearProgram.Proofs.Reading
import LinearProgram.Proofs.Solve.Hooks

/-!
# Hooks are released

A solve puts handles into hooks and takes them out again. While a handle is in a hook, the model or the
context that it was made for is registered behind it; the hook is cleared before the registration is given
up; and when the solve is over, however it ended, no handle is held and the registry has the entries that it
had before.

The proof goes from the inside to the outside: the run itself is calm, around it stands the hook for
messages, around that the registration of the model, then the hook for polls and the registration of the
context. Each layer is undone at its end, so that the state after it is `Still` the one before.
-/

namespace LinearProgram

/-! ## §1 Setting hooks -/

namespace Native

namespace Store

/-- A call about one problem leaves the hooks of the others as they are. -/
theorem hooks_apply_of_isAbout {c : Call} {n : Nat} (h : c.IsAbout n) (s : Store) (k : Nat) :
    (s.apply c).hooks k =
      if k = n then ((s.problem? n).map fun p => (p.apply c).hooks).getD (none, none) else s.hooks k := by
  rw [apply_of_isAbout h]
  exact hooks_modify ..

/-- Only the hook for messages of the problem is set, if the problem has hooks. -/
theorem hooks_logHook (s : Store) (n : Nat) (h : Option Handle) :
    ∃ h', (h' = h ∨ h' = none) ∧ ∀ k, (s.apply (.lpsolve (.logHook n h))).hooks k =
      if k = n then (h', (s.hooks n).2) else s.hooks k := by
  have happly := hooks_apply_of_isAbout (c := .lpsolve (.logHook n h)) ⟨rfl, rfl⟩ s
  have hself : s.hooks n = ((s.problem? n).map Problem.hooks).getD (none, none) := rfl
  rw [hself]
  -- only a problem of lp_solve has a log hook to set
  rcases hn : s.problem? n with _ | ⟨q | q | _⟩ <;> rw [hn] at happly
  · exact ⟨none, .inr rfl, happly⟩
  · exact ⟨none, .inr rfl, happly⟩
  · exact ⟨h, .inl rfl, happly⟩
  · exact ⟨none, .inr rfl, happly⟩

/-- Only the hook for polls of the problem is set, if the problem has hooks. -/
theorem hooks_abortHook (s : Store) (n : Nat) (h : Option Handle) :
    ∃ h', (h' = h ∨ h' = none) ∧ ∀ k, (s.apply (.lpsolve (.abortHook n h))).hooks k =
      if k = n then ((s.hooks n).1, h') else s.hooks k := by
  have happly := hooks_apply_of_isAbout (c := .lpsolve (.abortHook n h)) ⟨rfl, rfl⟩ s
  have hself : s.hooks n = ((s.problem? n).map Problem.hooks).getD (none, none) := rfl
  rw [hself]
  -- only a problem of lp_solve has an abort hook to set
  rcases hn : s.problem? n with _ | ⟨q | q | _⟩ <;> rw [hn] at happly
  · exact ⟨none, .inr rfl, happly⟩
  · exact ⟨none, .inr rfl, happly⟩
  · exact ⟨h, .inl rfl, happly⟩
  · exact ⟨none, .inr rfl, happly⟩

theorem terminalHook_apply_of_isAbout {c : Call} {n : Nat} (h : c.IsAbout n) (s : Store) :
    (s.apply c).terminalHook = s.terminalHook := by
  rw [apply_of_isAbout h]
  exact terminalHook_modify ..

end Store

end Native

/-! ## §2 The hook for messages -/

/-- `w₁` is `w` with `h` in the hook for messages. -/
structure World.Hooked (w : World) (h : Handle) (w₁ : World) : Prop where
  registry : w.registry.SameEntries w₁.registry
  logHeld : ∀ k, w₁.LogHeld k → k = h
  abortHeld : ∀ k, w₁.AbortHeld k ↔ w.AbortHeld k

namespace Action

variable {α β : Type} {w w₁ : World} {h : Handle}

/-- During the run, `h` was in the hook for messages; before and after it, all hooks are the same. -/
structure HookedRun (w : World) (h : Handle) (run : (Except Fault α × World) × List Moment) : Prop where
  still : w.Still run.1.2
  moments : ∀ x ∈ run.2, ∃ w₁ w₂, w.Hooked h w₁ ∧ x.Between w₁ w₂ ∧ w₂.contexts.Later run.1.2.contexts

/-- The hook is taken out at the end, however the run ended. -/
theorem HookedRun.of_ensuring {a : Action α} {cleanup : Action Unit} (hhooked : w.Hooked h w₁)
    (ha : Calm w₁ a) (htacit : Tacit cleanup)
    (hoff : ∀ w₂, w₁.Still w₂ → ∃ w₃, cleanup.on w₂ = (.ok (), w₃) ∧ w.Still w₃ ∧
      w₃.contexts = w₂.contexts) :
    HookedRun w h ((ensuring a cleanup).watch w₁) := by
  obtain ⟨hstill, hmoments⟩ := ha w₁ (.refl w₁)
  -- the clean-up puts the hooks back as they were
  obtain ⟨w₃, hcleanup, hstill₃, hcontexts⟩ := hoff _ hstill
  rw [watch_ensuring_of_ok htacit hcleanup]
  exact ⟨hstill₃, fun x hx => ⟨w₁, _, hhooked, hmoments x hx, by rw [hcontexts]; exact .refl _⟩⟩

theorem HookedRun.without_moments {answer : Except Fault α} (hstill : w.Still w₁) :
    HookedRun w h ((answer, w₁), []) := ⟨hstill, fun x hx => by cases hx⟩

/-- A calm beginning does not matter. -/
theorem HookedRun.of_still {run : (Except Fault α × World) × List Moment} (hstill : w.Still w₁)
    (hrun : HookedRun w₁ h run) : HookedRun w h run where
  still := hstill.trans hrun.still
  moments x hx := by
    obtain ⟨v₁, v₂, hhooked, hbetween, hlater⟩ := hrun.moments x hx
    exact ⟨v₁, v₂, ⟨hstill.registry.trans hhooked.registry, hhooked.logHeld,
      fun k => (hhooked.abortHeld k).trans hstill.abortHeld_iff⟩, hbetween, hlater⟩

/-- What is made of the answer afterwards does not matter for the run. -/
theorem HookedRun.bind_pure {a : Action α} (hrun : HookedRun w h (a.watch w₁)) (f : α → β) :
    HookedRun w h ((a >>= fun x => pure (f x)).watch w₁) := by
  rcases hon : a.watch w₁ with ⟨⟨fault | x, w₂⟩, t⟩
  · rw [watch_bind_of_error hon]
    rw [hon] at hrun
    exact ⟨hrun.still, hrun.moments⟩
  · rw [watch_bind_of_ok hon]
    rw [hon] at hrun
    exact ⟨hrun.still, fun y (hy : y ∈ t ++ []) => hrun.moments y (by rwa [List.append_nil] at hy)⟩

theorem tacit_glpkTell (c : Glpk.Call) : Tacit (Glpk.tell c) := (Tacit.call _).bind fun _ => .pure _

theorem tacit_lpSolveTell (c : LpSolve.Call) : Tacit (LpSolve.tell c) := (Tacit.call _).bind fun _ => .pure _

/-- **A solve of GLPK** runs with the hooks that it sets, and takes them back. -/
theorem hookedRun_glpk (hs : w.Serves) (hlog : ∀ k, ¬ w.LogHeld k) {abort : Option Handle}
    (hh : ∀ k, abort = some k → w.AbortHeld k) (p : Nat) (method : Method) (parameters : Parameters)
    (h : Handle) : HookedRun w h ((Glpk.solve p abort method parameters (some h)).watch w) := by
  have hon (w : World) (hs : w.Serves) (hook : Option Handle) :
      (Glpk.tell (.terminalHook hook)).on w = (.ok (), w.after (.glpk (.terminalHook hook))) :=
    Glpk.on_tell (hs (.glpk (.terminalHook hook)) rfl)
  have hnone : w.native.terminalHook = none :=
    Option.eq_none_iff_forall_ne_some.mpr fun k hk => hlog k (.inl hk)
  unfold Glpk.solve
  dsimp only
  rw [watch_bind_of_tacit (tacit_glpkTell _) (hon w hs (some h))]
  -- the terminal hook is the only place where a log handle can be
  have hhooked : w.Hooked h (w.after (.glpk (.terminalHook (some h)))) := by
    refine ⟨.refl _, ?_, fun _ => Iff.rfl⟩
    rintro k (hk | ⟨n, hk⟩)
    · exact (Option.some.inj hk).symm
    · exact absurd (.inr ⟨n, hk⟩) (hlog k)
  have hcalm : Calm (w.after (.glpk (.terminalHook (some h)))) (Glpk.runMethod p abort method parameters) :=
    calm_runMethod (fun k hk => (hhooked.abortHeld k).mpr (hh k hk)) method parameters
  refine HookedRun.of_ensuring hhooked hcalm (tacit_glpkTell _) fun w₂ hstill => ?_
  -- no hook was set before, so clearing it restores the hooks
  refine ⟨_, hon w₂ (hstill.serves hs) none, ?_, rfl⟩
  exact ⟨hstill.registry, hstill.engine?_eq, hstill.script, hnone.symm, hstill.hooks, hstill.contexts,
    hstill.serves⟩

/-- Putting a handle into the hook of an lp_solve problem, and taking it out again. -/
theorem hookedRun_ensuring_logHook (hs : w.Serves) (hlog : ∀ k, ¬ w.LogHeld k) (p : Nat) (h : Handle)
    {a : Action α} (ha : ∀ w₁, Calm w₁ a) :
    HookedRun w h
      ((ensuring a (LpSolve.tell (.logHook p none))).watch (w.after (.lpsolve (.logHook p (some h))))) := by
  obtain ⟨h', hh', hset⟩ := w.native.hooks_logHook p (some h)
  have hterminal (s : Native.Store) (hook : Option Handle) :
      (s.apply (.lpsolve (.logHook p hook))).terminalHook = s.terminalHook :=
    s.terminalHook_apply_of_isAbout (c := .lpsolve (.logHook p hook)) ⟨rfl, rfl⟩
  have hsnd (n : Nat) : ((w.native.apply (.lpsolve (.logHook p (some h)))).hooks n).2 =
      (w.native.hooks n).2 := by
    rw [hset]
    split
    · next hn => rw [hn]
    · rfl
  have hhooked : w.Hooked h (w.after (.lpsolve (.logHook p (some h)))) := by
    refine ⟨.refl _, ?_, fun k => ?_⟩
    · rintro k (hk | ⟨n, hk⟩)
      · exact absurd (.inl ((hterminal ..).symm.trans hk)) (hlog k)
      · replace hk : ((w.native.apply (.lpsolve (.logHook p (some h)))).hooks n).1 = some k := hk
        rw [hset] at hk
        split at hk
        · rcases hh' with rfl | rfl
          · exact (Option.some.inj hk).symm
          · cases hk
        · exact absurd (.inr ⟨n, hk⟩) (hlog k)
    · exact or_congr Iff.rfl (exists_congr fun n => by rw [World.after, hsnd])
  -- the run leaves the hook as it was set, so clearing it restores what was there before
  refine HookedRun.of_ensuring hhooked (ha _) (tacit_lpSolveTell _) fun w₂ hstill => ?_
  refine ⟨_, LpSolve.on_tell ((hstill.serves hs) (.lpsolve (.logHook p none)) rfl), ?_, rfl⟩
  obtain ⟨h'', hh'', hclear⟩ := w₂.native.hooks_logHook p none
  have hnone : h'' = none := hh''.elim id id
  refine ⟨hstill.registry, hstill.engine?_eq, hstill.script, ?_, fun n => ?_, hstill.contexts,
    hstill.serves⟩
  · exact (hterminal ..).trans (hstill.terminalHook.trans (hterminal ..))
  · refine (hclear n).trans ?_
    have hbetween (k : Nat) : w₂.native.hooks k = _ := (hstill.hooks k).trans (hset k)
    rw [hbetween, hbetween, hnone, if_pos rfl]
    split
    · next hn =>
      have hfst : (w.native.hooks p).1 = none :=
        Option.eq_none_iff_forall_ne_some.mpr fun k hk => hlog k (.inr ⟨p, hk⟩)
      rw [hn]
      exact Prod.ext hfst.symm rfl
    · rfl

/-- **A solve of lp_solve** runs with the hooks that it sets, and takes them back. -/
theorem hookedRun_lpSolve (hs : w.Serves) (hlog : ∀ k, ¬ w.LogHeld k) (p : Nat)
    (parameters : Parameters) (h : Handle) : HookedRun w h ((LpSolve.solve p parameters (some h)).watch w) := by
  unfold LpSolve.solve
  rcases parameters.verbose with fault | verbose
  · exact .without_moments (.refl w)
  rw [watch_bind_of_tacit (.lift _) (on_lift (.ok verbose) w)]
  dsimp only
  -- the verbosity has nothing to do with hooks
  let c : Native.Call := .lpsolve (.setVerbosity p (if verbose.isTrue then 4 else 0))
  have hstill : w.Still (w.after c) := .after ⟨rfl, rfl⟩ rfl w
  rw [watch_bind_of_tacit (tacit_lpSolveTell _) (LpSolve.on_tell (hs c rfl))]
  refine HookedRun.of_still hstill ?_
  have hlog' (k : Handle) : ¬ (w.after c).LogHeld k := fun hk => hlog k (hstill.logHeld_iff.mp hk)
  rw [watch_bind_of_tacit (tacit_lpSolveTell _) (LpSolve.on_tell
    ((hstill.serves hs) (.lpsolve (.logHook p (some h))) rfl))]
  exact (hookedRun_ensuring_logHook (hstill.serves hs) hlog' p h
    fun _ => calm_conduct NativeRun.tame_lpSolve).bind_pure _

/-- **The run of an engine** happens with the handle in the hook for messages. -/
theorem hookedRun_solve (hs : w.Serves) (hlog : ∀ k, ¬ w.LogHeld k) {m : ModelId} {e : Engine}
    (he : w.engine? m = some e) (method : Method) (parameters : Parameters) (h : Handle) :
    HookedRun w h ((e.solve method parameters (some h)).watch w) := by
  unfold Engine.solve
  cases e.kind with
  | glpk => exact hookedRun_glpk hs hlog (fun k hk => .inl ⟨m, e, he, hk⟩) _ method parameters h
  | lpsolve => exact hookedRun_lpSolve hs hlog _ parameters h

end Action

/-! ## §3 Around the run -/

/-- A change to one model leaves the engines of the others as they are. -/
theorem World.engine?_modifyModel (w : World) (m k : ModelId) (f : Model → Model) :
    (w.modifyModel m f).engine? k =
      if k = m then (w.model? m).map fun model => (f model).engine else w.engine? k := by
  unfold World.engine? World.model? World.modifyModel
  rw [Array.getElem?_modify]
  by_cases hk : k = m
  · rw [if_pos hk.symm, if_pos hk, hk, Option.map_map]
    rfl
  · rw [if_neg (Ne.symm hk), if_neg hk]

/-- A model that gets the engine that it has. -/
theorem World.engine?_setEngine {w : World} {m : ModelId} {model : Model} (hm : w.model? m = some model)
    (k : ModelId) :
    (w.modifyModel m fun model' => { model' with engine := model.engine }).engine? k = w.engine? k := by
  rw [engine?_modifyModel, hm]
  split
  · next hkm => rw [hkm, engine?, hm]; rfl
  · rfl

/-- What does not concern the engine of a model does not concern hooks. -/
theorem World.Still.modifyModel (w : World) (m : ModelId) {f : Model → Model}
    (hf : ∀ model, (f model).engine = model.engine) : w.Still (w.modifyModel m f) where
  registry := .refl _
  engine?_eq k := by
    rw [engine?_modifyModel, funext hf]
    split
    · next hk => rw [hk, World.engine?]
    · rfl
  script := rfl
  terminalHook := rfl
  hooks _ := rfl
  contexts := .refl _
  serves := id

/-- A property of states that records keep, and calls that set no hook and are about one problem. -/
class PlainClosed (P : World → Prop) : Prop where
  call : ∀ {c : Native.Call} {n : Nat}, c.IsAbout n → c.isHook = false → Action.Preserves P (Action.call c)
  writings : ∀ {w l}, P w → P { w with writings := l }

namespace Action

section

variable {P : World → Prop} [PlainClosed P]

instance : ReadClosed P where
  call {c} hc := by rcases c with c | c <;> cases c <;> first | exact PlainClosed.call ⟨rfl, rfl⟩ rfl | cases hc
  writings := PlainClosed.writings

/-- Loading a matrix touches neither hooks nor handles. -/
theorem plain_loadMatrix (e : Engine) (t : Triplets) : Preserves P (e.loadMatrix t) := by
  unfold Engine.loadMatrix
  cases e.kind with
  | glpk => exact (PlainClosed.call ⟨rfl, rfl⟩ rfl).bind fun _ => Preserves.pure _
  | lpsolve =>
    dsimp only
    -- GLPK loads by one call, lp_solve by one for each entry
    induction t.toList with
    | nil => exact Preserves.pure _
    | cons x rest ih =>
      exact ((PlainClosed.call ⟨rfl, rfl⟩ rfl).bind fun _ => Preserves.pure _).bind fun _ => ih

theorem plain_noteMethod (model : Model) (given : Option Datum) : Preserves P (Model.noteMethod model given) := by
  unfold Model.noteMethod
  cases given with
  | none => exact Preserves.pure _
  | some d =>
    dsimp only
    -- a word in the log at most
    split
    · exact Preserves.pure _
    · exact reads_debug _ _

theorem plain_prepare (model : Model) (given : Option Datum) : Preserves P (Model.prepare model given) :=
  (Preserves.lift _).bind fun _ => (Preserves.lift _).bind fun _ => (plain_loadMatrix _ _).bind fun _ =>
    (Preserves.lift _).bind fun _ => (reads_debug _ _).bind fun _ => Preserves.pure _

end

variable {α : Type} {w : World}

theorem preserves_still {a : Action α} (h : ∀ v : World, v.Still (a.on v).2) : Preserves w.Still a :=
  fun v hv => hv.trans (h v)

instance (w : World) : PlainClosed w.Still where
  call h hc := preserves_still (still_call h hc)
  writings h := h.trans (.of_native rfl rfl rfl rfl (.refl _) rfl)

theorem preserves_still_contextError (c : ContextId) : Preserves w.Still (contextError c) :=
  preserves_still fun _ => .of_native rfl rfl rfl rfl (Forest.error_later ..) rfl

/-- Making a result of a report leaves hooks and registry still. -/
theorem preserves_still_conclude (m : ModelId) (method : Method) (report : EngineReport) :
    Preserves w.Still (Model.conclude m method report) := by
  unfold Model.conclude Model.touch Model.interpret
  -- the revision is raised, which hooks and registry do not see
  have htouch (v : World) :
      v.Still (v.modifyModel m fun model => { model with revision := model.revision + 1 }) :=
    .modifyModel v m fun _ => rfl
  refine Preserves.bind (fun v hv => hv.trans (htouch v)) fun _ =>
    (reads_model m).bind fun model => (reads_debug _ _).bind fun _ =>
      Preserves.bind ?_ fun status => Preserves.pure _
  cases report with
  | known outcome => exact Preserves.lift _
  | undocumented engine code =>
    exact (reads_logError _ _).bind fun _ => Preserves.lift _

/-- Telling a fault again under a context leaves hooks and registry still. -/
theorem preserves_still_retell (c : ContextId) (fault : Fault) : Preserves w.Still (Model.retell c fault) := by
  unfold Model.retell
  split
  · refine (preserves_still_contextError c).bind fun cause => ?_
    split <;> exact Preserves.fail _
  · exact Preserves.fail _

/-! ### Steps without moments -/

theorem tacit_loadMatrix (e : Engine) (t : Triplets) : Tacit (e.loadMatrix t) := by
  unfold Engine.loadMatrix
  cases e.kind with
  | glpk => exact tacit_glpkTell _
  | lpsolve =>
    dsimp only
    induction t.toList with
    | nil => exact .pure _
    | cons x rest ih => exact (tacit_lpSolveTell _).bind fun _ => ih

theorem tacit_noteMethod (model : Model) (given : Option Datum) : Tacit (Model.noteMethod model given) := by
  unfold Model.noteMethod
  cases given with
  | none => exact .pure _
  | some d =>
    dsimp only
    split
    · exact .pure _
    · exact .change _

theorem tacit_prepare (model : Model) (given : Option Datum) : Tacit (Model.prepare model given) :=
  (Tacit.lift _).bind fun _ => (Tacit.lift _).bind fun _ => (tacit_loadMatrix _ _).bind fun _ =>
    (Tacit.lift _).bind fun _ => (Tacit.change _).bind fun _ => .pure _

theorem tacit_conclude (m : ModelId) (method : Method) (report : EngineReport) :
    Tacit (Model.conclude m method report) := by
  refine (Tacit.change _).bind fun _ => (Tacit.model m).bind fun model => (Tacit.change _).bind fun _ =>
    Tacit.bind ?_ fun _ => .pure _
  cases report with
  | known outcome => exact .lift _
  | undocumented engine code => exact (Tacit.change _).bind fun _ => .lift _

theorem tacit_retell (c : ContextId) (fault : Fault) : Tacit (Model.retell c fault) := by
  unfold Model.retell
  split
  · refine (Tacit.contextError c).bind fun cause => ?_
    split <;> exact .fail _
  · exact .fail _

/-- Setting the handle for aborts tells no moment. -/
theorem tacit_setAbort (m : ModelId) (handle : Option Handle) : Tacit (Model.setAbort m handle) := by
  refine (Tacit.model m).bind fun model => Tacit.bind ?_ fun _ => .change _
  unfold Engine.setAbort
  cases model.engine.kind with
  | glpk => exact .pure _
  | lpsolve => exact (tacit_lpSolveTell _).bind fun _ => .pure _

end Action

/-! ## §4 The hook for polls -/

/-- `w₁` is `w` with `h` in the hook for polls, and in no other. -/
structure World.Polled (w : World) (h : Handle) (w₁ : World) : Prop where
  registry : w₁.registry = w.registry
  logHeld : ∀ k, w₁.LogHeld k ↔ w.LogHeld k
  abortHeld : ∀ k, w₁.AbortHeld k → k = h
  serves : w.Serves → w₁.Serves

namespace Model

variable {w : World} {m : ModelId} {model : Model}

/-- On GLPK the handle for aborts is noted, and no call is made. -/
theorem on_setAbort_glpk (hm : w.model? m = some model) (hk : model.engine.kind = .glpk)
    (handle : Option Handle) : (setAbort m handle).on w = (.ok (), w.modifyModel m fun model' =>
      { model' with engine := { model.engine with abort := handle } }) := by
  unfold setAbort Engine.setAbort
  rw [Action.on_bind_of_ok (Action.on_model_of_some hm)]
  -- GLPK takes the callback with the call of the search, so it is stored till then
  rcases he : model.engine with ⟨kind, problem, abort⟩
  rw [he] at hk
  cases hk
  rfl

/-- On lp_solve the handle for aborts is set with a call and noted. -/
theorem on_setAbort_lpsolve (hs : w.Serves) (hm : w.model? m = some model)
    (hk : model.engine.kind = .lpsolve) (handle : Option Handle) :
    (setAbort m handle).on w =
      (.ok (), (w.after (.lpsolve (.abortHook model.engine.number handle))).modifyModel m fun model' =>
        { model' with engine := model.engine }) := by
  unfold setAbort Engine.setAbort
  rw [Action.on_bind_of_ok (Action.on_model_of_some hm), hk, Action.on_bind, Action.on_bind_of_ok
    (LpSolve.on_tell (hs (.lpsolve (.abortHook model.engine.number handle)) rfl))]
  rfl

/-- The handle for polls is held until it is taken back. -/
def TakesBack (w : World) (m : ModelId) (h : Handle) : Prop :=
  ∃ w₁, (setAbort m (some h)).on w = (.ok (), w₁) ∧ w.Polled h w₁ ∧
    ∀ v, w₁.Still v → ∃ v', (setAbort m none).on v = (.ok (), v') ∧ w.Still v' ∧
      v'.contexts = v.contexts ∧ v'.clock = v.clock

/-- On GLPK, taking the handle back leaves the state as before. -/
private theorem takesBack_glpk (habort : ∀ k, ¬ w.AbortHeld k) (hm : w.model? m = some model)
    (hk : model.engine.kind = .glpk) (h : Handle) : TakesBack w m h := by
  have hengine : w.engine? m = some model.engine := by rw [World.engine?, hm]; rfl
  have hnone : model.engine.abort = none := by
    cases hh : model.engine.abort with
    | none => rfl
    | some k => exact absurd (.inl ⟨m, _, hengine, hh⟩) (habort k)
  refine ⟨_, on_setAbort_glpk hm hk (some h), ⟨rfl, fun _ => Iff.rfl, ?_, id⟩, fun v hstill => ?_⟩
  · rintro k (⟨m', e, he, hek⟩ | hk)
    · rw [World.engine?_modifyModel, hm] at he
      split at he
      · cases he
        exact (Option.some.inj hek).symm
      · exact absurd (.inl ⟨m', e, he, hek⟩) (habort k)
    · exact absurd (.inr hk) (habort k)
  · -- the engine of the model is the only one that was given a handle
    have hset (k : ModelId) := (hstill.engine?_eq k).trans (World.engine?_modifyModel ..)
    have hm' := hset m
    rw [if_pos rfl, hm] at hm'
    obtain ⟨model', hm', he⟩ := Option.map_eq_some_iff.mp hm'
    refine ⟨_, on_setAbort_glpk hm' (by rw [he]; exact hk) none, ?_, rfl, rfl⟩
    refine ⟨hstill.registry, fun k => ?_, hstill.script, hstill.terminalHook, hstill.hooks, hstill.contexts,
      hstill.serves⟩
    rw [World.engine?_modifyModel, hset, hm']
    split
    · next hkm =>
      rw [hkm, hengine, ← hnone]
      exact congrArg some (congrArg (fun e : Engine => { e with abort := model.engine.abort }) he)
    · rfl

/-- On lp_solve, taking the handle back takes the hook of the problem back too. -/
private theorem takesBack_lpsolve (hs : w.Serves) (habort : ∀ k, ¬ w.AbortHeld k)
    (hm : w.model? m = some model) (hk : model.engine.kind = .lpsolve) (h : Handle) : TakesBack w m h := by
  have hengine : w.engine? m = some model.engine := by rw [World.engine?, hm]; rfl
  have hterminal (s : Native.Store) (p : Nat) (hook : Option Handle) :
      (s.apply (.lpsolve (.abortHook p hook))).terminalHook = s.terminalHook :=
    s.terminalHook_apply_of_isAbout (c := .lpsolve (.abortHook p hook)) ⟨rfl, rfl⟩
  obtain ⟨h', hh', hset⟩ := w.native.hooks_abortHook model.engine.number (some h)
  have hfst (n : Nat) : ((w.native.apply (.lpsolve (.abortHook model.engine.number (some h)))).hooks n).1 =
      (w.native.hooks n).1 := by
    rw [hset]
    split
    · next hn => rw [hn]
    · rfl
  have hkeep (k : ModelId) := World.engine?_setEngine
    (w := w.after (.lpsolve (.abortHook model.engine.number (some h)))) hm k
  refine ⟨_, on_setAbort_lpsolve hs hm hk (some h), ⟨rfl, fun k => ?_, ?_, id⟩, fun v hstill => ?_⟩
  · exact or_congr (iff_of_eq (congrArg (· = some k) (hterminal ..))) (exists_congr fun n => by rw [← hfst]; rfl)
  · rintro k (⟨m', e, he, hek⟩ | ⟨n, hn⟩)
    · exact absurd (.inl ⟨m', e, (hkeep m').symm.trans he, hek⟩) (habort k)
    · replace hn := (congrArg Prod.snd (hset n)).symm.trans hn
      split at hn
      · rcases hh' with rfl | rfl
        · exact (Option.some.inj hn).symm
        · cases hn
      · exact absurd (.inr ⟨n, hn⟩) (habort k)
  · have hm' := (hstill.engine?_eq m).trans ((hkeep m).trans hengine)
    obtain ⟨model', hm', he⟩ := Option.map_eq_some_iff.mp hm'
    refine ⟨_, on_setAbort_lpsolve (hstill.serves hs) hm' (by rw [he]; exact hk) none, ?_, rfl, rfl⟩
    obtain ⟨h'', hh'', hclear⟩ := v.native.hooks_abortHook model'.engine.number none
    have hnone : h'' = none := hh''.elim id id
    refine ⟨hstill.registry, fun k => ?_, hstill.script, ?_, fun n => ?_, hstill.contexts, hstill.serves⟩
    · exact (World.engine?_setEngine (w := v.after _) hm' k).trans ((hstill.engine?_eq k).trans (hkeep k))
    · exact (hterminal ..).trans (hstill.terminalHook.trans (hterminal ..))
    · -- the hook of the problem was empty before, and is so again
      refine (hclear n).trans ?_
      have hbetween (k : Nat) : v.native.hooks k = _ := (hstill.hooks k).trans (hset k)
      rw [hbetween, hbetween, hnone, he, if_pos rfl]
      split
      · next hn =>
        have hsnd : (w.native.hooks model.engine.number).2 = none :=
          Option.eq_none_iff_forall_ne_some.mpr fun k hk => habort k (.inr ⟨_, hk⟩)
        rw [hn]
        exact Prod.ext rfl hsnd.symm
      · rfl

theorem takesBack (hs : w.Serves) (habort : ∀ k, ¬ w.AbortHeld k) (hm : w.model? m = some model)
    (h : Handle) : TakesBack w m h := by
  cases hk : model.engine.kind with
  | glpk => exact takesBack_glpk habort hm hk h
  | lpsolve => exact takesBack_lpsolve hs habort hm hk h

end Model

/-! ## §5 Moments of a solve -/

/-- A solve of a model, under a context if there is one. -/
def Model.solveUnder (m : ModelId) (c? : Option ContextId) (given : Option Datum) : Action SolveResult :=
  match c? with
  | none => Model.solve m given
  | some c => Model.solveWithContext m c given

/-- Whatever handle is held, the right object is registered behind it: the model for messages, the context
for polls. -/
def World.Resolves (w : World) (m : ModelId) (c? : Option ContextId) : Prop :=
  ∀ k, (w.LogHeld k → w.registry.resolve k = some (.model m)) ∧
    (w.AbortHeld k → ∃ c, c? = some c ∧ w.registry.resolve k = some (.context c))

namespace Moment

/-- When the library comes back, it does so with a handle that it holds, and what is behind the handles
that are held is right; when a registration is given up, its handle is not held. -/
def Safe (m : ModelId) (c? : Option ContextId) : Moment → Prop
  | message v h => v.LogHeld h ∧ v.Resolves m c?
  | poll v h _ => v.AbortHeld h ∧ v.Resolves m c?
  | leaving v h => ¬ v.LogHeld h ∧ ¬ v.AbortHeld h

/-- What a poll found out is still known in the state `w`. -/
def Kept (w : World) : Moment → Prop
  | poll v h stop => ∃ v', (Action.shouldAbort h).on v = (.ok stop, v') ∧ v'.contexts.Later w.contexts
  | message .. | leaving .. => True

variable {m : ModelId} {c? : Option ContextId} {w w' : World} {x : Moment}

/-- A moment that was kept is kept by all later contexts. -/
theorem Kept.later (hx : x.Kept w) (h : w.contexts.Later w'.contexts) : x.Kept w' := by
  cases x with
  | poll v k stop =>
    obtain ⟨v', hon, hlater⟩ := hx
    exact ⟨v', hon, hlater.trans h⟩
  | message v k => trivial
  | leaving v k => trivial

/-- A moment between two states is kept by the later one. -/
theorem Between.kept (hx : x.Between w w') : x.Kept w' := by
  cases x with
  | poll v k stop =>
    obtain ⟨-, -, v', hon, hstill⟩ := hx
    exact ⟨v', hon, hstill.contexts⟩
  | message v k => trivial
  | leaving v k => trivial

end Moment

theorem World.Resolves.still {w w' : World} {m : ModelId} {c? : Option ContextId} (h : w.Resolves m c?)
    (hstill : w.Still w') : w'.Resolves m c? := fun k => by
  rw [hstill.logHeld_iff, hstill.abortHeld_iff, hstill.resolve_eq]
  exact h k

/-- Moments between two states are safe where the later handles resolve. -/
theorem Moment.Between.safe {w w' : World} {x : Moment} {m : ModelId} {c? : Option ContextId}
    (hx : x.Between w w') (hw : w.Resolves m c?) : x.Safe m c? := by
  cases x with
  | poll v k stop => exact ⟨hx.2.1, hw.still hx.1⟩
  | message v k => exact ⟨hx.2.1, hw.still hx.1⟩
  | leaving v k => exact hx.elim

/-- Before a solve: the library serves, the registry is regular, no handle is held for messages, and those
held for polls are right. -/
structure World.ReadyFor (w : World) (c? : Option ContextId) : Prop where
  serves : w.Serves
  regular : w.registry.Regular
  logHeld : ∀ k, ¬ w.LogHeld k
  abortHeld : ∀ k, w.AbortHeld k → ∃ c, c? = some c ∧ w.registry.resolve k = some (.context c)

namespace World.ReadyFor

variable {w w' : World} {c? : Option ContextId} {r : Registry Target} {target : Target} {h : Handle}

theorem of_unhooked (hs : w.Serves) (hr : w.registry.Regular) (hu : w.Unhooked) : w.ReadyFor c? :=
  ⟨hs, hr, fun k => (hu k).1, fun k hk => absurd hk (hu k).2⟩

/-- Stillness leaves a state ready. -/
theorem still (hw : w.ReadyFor c?) (hstill : w.Still w') : w'.ReadyFor c? where
  serves := hstill.serves hw.serves
  regular := hstill.registry.regular hw.regular
  logHeld k hk := hw.logHeld k (hstill.logHeld_iff.mp hk)
  abortHeld k hk := by
    rw [hstill.resolve_eq]
    exact hw.abortHeld k (hstill.abortHeld_iff.mp hk)

/-- No handle that is held is a new one. -/
theorem not_held (hw : w.ReadyFor c?) (hreg : w.registry.register target = .ok (h, r)) :
    ¬ w.LogHeld h ∧ ¬ w.AbortHeld h := by
  refine ⟨hw.logHeld h, fun hh => ?_⟩
  obtain ⟨c, -, hc⟩ := hw.abortHeld h hh
  rw [Registry.resolve, (Registry.register_find? hw.regular hreg).1] at hc
  cases hc

/-- A registration changes nothing for the handles that are held. -/
theorem registered (hw : w.ReadyFor c?) (hreg : w.registry.register target = .ok (h, r)) :
    World.ReadyFor { w with registry := r } c? ∧ r.resolve h = some target := by
  obtain ⟨-, i, hfind⟩ := Registry.register_find? hw.regular hreg
  obtain ⟨-, -, -, -, -, hr, -⟩ := Registry.register_cases hw.regular hreg
  refine ⟨⟨hw.serves, hr, hw.logHeld, fun k hk => ?_⟩, by rw [Registry.resolve, hfind, if_pos rfl]; rfl⟩
  have hne : k ≠ h := fun heq => (hw.not_held hreg).2 (heq ▸ hk)
  obtain ⟨c, hc, hresolve⟩ := hw.abortHeld k hk
  exact ⟨c, hc, by rw [Registry.resolve, hfind, if_neg hne]; exact hresolve⟩

/-- The handle of a context is put into the hook for polls. -/
theorem polled {c : ContextId} (hw : w.ReadyFor c?) (hpolled : w.Polled h w')
    (hresolve : w.registry.resolve h = some (.context c)) : w'.ReadyFor (some c) where
  serves := hpolled.serves hw.serves
  regular := by rw [hpolled.registry]; exact hw.regular
  logHeld k hk := hw.logHeld k ((hpolled.logHeld k).mp hk)
  abortHeld k hk := ⟨c, rfl, by rw [hpolled.abortHeld k hk, hpolled.registry]; exact hresolve⟩

end World.ReadyFor

namespace Action

variable {α β : Type} {m : ModelId} {c? c₁? : Option ContextId} {w w₁ : World}

/-- After the run nothing has changed hands, and its moments were safe. -/
structure Secure (m : ModelId) (c? : Option ContextId) (w : World)
    (run : (Except Fault α × World) × List Moment) : Prop where
  still : w.Still run.1.2
  safe : ∀ x ∈ run.2, x.Safe m c?
  kept : ∀ x ∈ run.2, x.Kept run.1.2

namespace Secure

theorem tacit {a : Action α} (ht : Tacit a) (h : Preserves w.Still a) : Secure m c? w (a.watch w) := by
  rw [ht.watch_eq]
  exact ⟨h w (.refl w), fun _ hx => (List.not_mem_nil hx).elim, fun _ hx => (List.not_mem_nil hx).elim⟩

/-- Secure parts after each other are secure. -/
theorem bind {a : Action α} {f : α → Action β} (ha : Secure m c? w (a.watch w))
    (hf : ∀ x w' t, a.watch w = ((.ok x, w'), t) → w.Still w' → Secure m c? w' ((f x).watch w')) :
    Secure m c? w ((a >>= f).watch w) := by
  rcases hon : a.watch w with ⟨⟨fault | x, w'⟩, t⟩
  · rw [watch_bind_of_error hon]
    rw [hon] at ha
    exact ⟨ha.still, ha.safe, ha.kept⟩
  · rw [watch_bind_of_ok hon]
    rw [hon] at ha
    obtain ⟨hstill, hsafe, hkept⟩ := hf x w' t hon ha.still
    refine ⟨ha.still.trans hstill, fun y hy => ?_, fun y hy => ?_⟩
    · exact (List.mem_append.mp hy).elim (ha.safe y) (hsafe y)
    · -- contexts only get older, so what was kept early is kept to the end
      exact (List.mem_append.mp hy).elim (fun hy => (ha.kept y hy).later hstill.contexts) (hkept y)

/-- A handler that tells nothing and keeps still leaves a body secure. -/
theorem recovering {body : Action α} {handler : Fault → Action α} (hb : Secure m c? w (body.watch w))
    (ht : ∀ fault, Tacit (handler fault)) (hh : ∀ fault (v : World), Preserves v.Still (handler fault)) :
    Secure m c? w ((Action.recovering body handler).watch w) := by
  rcases hon : body.watch w with ⟨⟨fault | x, w'⟩, t⟩
  · rw [watch_recovering_of_error hon (ht fault)]
    rw [hon] at hb
    -- the handler is silent: the moments are those of the body
    have hstill := hh fault w' w' (.refl w')
    exact ⟨hb.still.trans hstill, hb.safe, fun x hx => (hb.kept x hx).later hstill.contexts⟩
  · rw [watch_recovering_of_ok hon]
    rw [hon] at hb
    exact ⟨hb.still, hb.safe, hb.kept⟩

/-- **A registration around a secure run.** It can be given up, and its handle is not held then. -/
theorem registered {target : Target} {body : Handle → Action α} (hw : w.ReadyFor c?)
    (hbody : ∀ h r, w.registry.register target = .ok (h, r) →
      Secure m c₁? { w with registry := r } ((body h).watch { w with registry := r })) :
    Secure m c₁? w ((Action.registered target body).watch w) := by
  rcases hreg : w.registry.register target with fault | ⟨h, r⟩
  · rw [watch_registered_of_error hreg]
    exact ⟨.refl w, fun _ hx => (List.not_mem_nil hx).elim, fun _ hx => (List.not_mem_nil hx).elim⟩
  obtain ⟨hstill, hsafe, hkept⟩ := hbody h r hreg
  -- the body has left the entries alone, so the new one can be removed and the old ones remain
  obtain ⟨r₃, hun, hsame⟩ := Registry.unregister_of_register hw.regular hreg hstill.registry
  rw [watch_registered_of_ok hreg hun]
  refine ⟨⟨hsame, hstill.engine?_eq, hstill.script, hstill.terminalHook, hstill.hooks, hstill.contexts,
    hstill.serves⟩, fun x hx => ?_, fun x hx => ?_⟩
  · rcases List.mem_append.mp hx with hx | hx
    · exact hsafe x hx
    · rw [List.mem_singleton.mp hx]
      -- what is held now was held before the registration, and its handle is a new one
      obtain ⟨hlog, habort⟩ := hw.not_held hreg
      exact ⟨fun hk => hlog (hstill.logHeld_iff.mp hk), fun hk => habort (hstill.abortHeld_iff.mp hk)⟩
  · rcases List.mem_append.mp hx with hx | hx
    · exact (hkept x hx).later (.refl _)
    · rw [List.mem_singleton.mp hx]
      trivial

/-- The run of an engine, with the handle of the model in the hook for messages. -/
theorem of_hookedRun {h : Handle} (hw : w.ReadyFor c?) (hh : w.registry.resolve h = some (.model m))
    {run : (Except Fault α × World) × List Moment} (hrun : HookedRun w h run) : Secure m c? w run := by
  refine ⟨hrun.still, fun x hx => ?_, fun x hx => ?_⟩
  · obtain ⟨w₁, w₂, hhooked, hbetween, -⟩ := hrun.moments x hx
    refine hbetween.safe fun k => ?_
    -- setting the hook did not touch the registry
    have hresolve (k : Handle) : w₁.registry.resolve k = w.registry.resolve k := by
      rw [Registry.resolve, Registry.resolve, hhooked.registry.find?_eq]
    refine ⟨fun hk => ?_, fun hk => ?_⟩
    · rw [hhooked.logHeld k hk, hresolve, hh]
    · rw [hresolve]
      exact hw.abortHeld k ((hhooked.abortHeld k).mp hk)
  · obtain ⟨w₁, w₂, -, hbetween, hlater⟩ := hrun.moments x hx
    exact hbetween.kept.later hlater

/-- What comes between the preparations and the conclusion. -/
theorem finish (hw : w.ReadyFor c?) {m : ModelId} {model : Model} (he : w.engine? m = some model.engine)
    (method : Method) : Secure m c? w ((Model.finish m model method).watch w) := by
  refine bind (registered hw fun h r hreg => ?_) fun report w₁ t _ _ =>
    tacit (tacit_conclude m method report) (preserves_still_conclude m method report)
  obtain ⟨hready, hresolve⟩ := hw.registered hreg
  exact of_hookedRun hready hresolve
    (hookedRun_solve (w := { w with registry := r }) hready.serves hready.logHeld (m := m) he _ _ h)

/-- **A solve**, also within a solve under a context. -/
theorem solve (hw : w.ReadyFor c?) (m : ModelId) (given : Option Datum) :
    Secure m c? w ((Model.solve m given).watch w) := by
  refine bind (tacit (.openModel m) (reads_openModel m)) fun model w₁ t hopen hstill => ?_
  obtain ⟨hm, rfl⟩ := on_openModel_eq_ok (congrArg Prod.fst hopen)
  have hengine : w.engine? m = some model.engine := by rw [World.engine?, hm]; rfl
  refine bind (tacit (tacit_noteMethod model given) (plain_noteMethod model given)) fun _ w₂ t _ hstill₂ => ?_
  refine bind (tacit (tacit_prepare model given) (plain_prepare model given)) fun method w₃ t _ hstill₃ => ?_
  -- up to here nothing was registered and no hook was set
  exact finish (((hw.still hstill).still hstill₂).still hstill₃)
    ((hstill₃.engine?_eq m).trans ((hstill₂.engine?_eq m).trans hengine)) method

/-- A solve during which the engine polls with the handle of the context. -/
theorem solvePolled {c : ContextId} (hw : w.ReadyFor c?) (hu : ∀ k, ¬ w.AbortHeld k) {m : ModelId}
    {model : Model} (hm : w.model? m = some model) {h : Handle}
    (hresolve : w.registry.resolve h = some (.context c)) (given : Option Datum) :
    Secure m (some c) w ((Model.solvePolled m c given h).watch w) := by
  obtain ⟨w₁, hset, hpolled, hback⟩ := Model.takesBack hw.serves hu hm h
  unfold Model.solvePolled
  rw [watch_bind_of_tacit (tacit_setAbort m (some h)) hset]
  obtain ⟨hstill, hsafe, hkept⟩ := recovering (solve (hw.polled hpolled hresolve) m given) (tacit_retell c)
    fun fault v => preserves_still_retell (w := v) c fault
  -- the hook is cleared in the state that the solve leaves, whatever its answer
  obtain ⟨v, hclear, hback, hcontexts, -⟩ := hback _ hstill
  rw [watch_ensuring_of_ok (tacit_setAbort m none) hclear]
  exact ⟨hback, hsafe, fun x hx => (hkept x hx).later (by rw [hcontexts]; exact .refl _)⟩

/-- **A solve under a context.** -/
theorem solveWithContext (hs : w.Serves) (hr : w.registry.Regular) (hu : w.Unhooked) (m : ModelId)
    (c : ContextId) (given : Option Datum) :
    Secure m (some c) w ((Model.solveWithContext m c given).watch w) := by
  have hw : w.ReadyFor (some c) := .of_unhooked hs hr hu
  refine bind (tacit (.contextError c) (preserves_still_contextError c)) fun cause w₁ t _ hstill => ?_
  cases cause with
  -- done before the start: nothing is registered
  | some cause => exact tacit (.fail _) (Preserves.fail _)
  | none =>
    refine bind (tacit (.openModel m) (reads_openModel m)) fun model w₂ t hopen _ => ?_
    obtain ⟨hm, rfl⟩ := on_openModel_eq_ok (congrArg Prod.fst hopen)
    refine registered (hw.still hstill) fun h r hreg => ?_
    obtain ⟨hready, hresolve⟩ := (hw.still hstill).registered hreg
    exact solvePolled (w := { w₁ with registry := r }) hready (fun k => (hstill.unhooked hu k).2) hm hresolve given

/-- **A solve is secure**, with and without a context. -/
theorem solveUnder (hs : w.Serves) (hr : w.registry.Regular) (hu : w.Unhooked) (m : ModelId)
    (c? : Option ContextId) (given : Option Datum) :
    Secure m c? w ((Model.solveUnder m c? given).watch w) := by
  cases c? with
  | none => exact solve (.of_unhooked hs hr hu) m given
  | some c => exact solveWithContext hs hr hu m c given

end Secure

end Action

end LinearProgram
