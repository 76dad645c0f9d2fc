import LinearProgram.Proofs.Reading

/-!
# Engines that solve

A solve of an engine is a run or two with some calls around it. Whatever it does, it is `Running`: models
and mathematical problems stay as they are. On scripts that return, it answers exactly if it has started
a solver, since it can only fail before that, at a setting that is missing.
-/

namespace LinearProgram

/-! ## §1 Starting a solver -/

/-- From one state to the other, a solver was started. -/
def World.Entered (w w' : World) : Prop := ∃ c ∈ w.callsSince w', c.isEntry = true

namespace World

theorem not_entered_self (w : World) : ¬ w.Entered w := by simp [Entered]

/-- A solver was started over two steps if it was in one of them. -/
theorem entered_trans {w w₁ w₂ : World} (h₁ : w.Extends w₁) (h₂ : w₁.Extends w₂) :
    w.Entered w₂ ↔ w.Entered w₁ ∨ w₁.Entered w₂ := by
  unfold Entered
  rw [callsSince_trans h₁ h₂]
  simp only [List.mem_append, or_and_right, exists_or]

end World

theorem Waiting.not_entered {w w' : World} (h : Waiting w w') : ¬ w.Entered w' := by
  rintro ⟨c, hc, he⟩
  rw [h.idle c hc] at he
  cases he

/-- The call belongs to a run on problem `n`: it is quiet, and a solver that it starts works on `n`. -/
def Native.Call.IsRunOf (n : Nat) (c : Native.Call) : Prop :=
  c.isQuiet = true ∧ (c.isEntry = true → c.problems = [n])

theorem Native.Call.isRunOf_of_idle {n : Nat} {c : Native.Call}
    (h : c.isQuiet = true ∧ c.isEntry = false) : c.IsRunOf n :=
  ⟨h.1, fun he => Bool.noConfusion (h.2.symm.trans he)⟩

/-- Every solver that was started runs on problem `n`. -/
structure RunningOn (n : Nat) (w w' : World) : Prop extends Running w w' where
  entries : ∀ c ∈ w.callsSince w', c.isEntry = true → c.problems = [n]

namespace RunningOn

variable {n : Nat} {w w₁ w₂ : World}

theorem isRunOf (h : RunningOn n w w₁) : ∀ c ∈ w.callsSince w₁, c.IsRunOf n :=
  fun c hc => ⟨h.quiet c hc, h.entries c hc⟩

theorem of_waiting (h : Waiting w w₁) : RunningOn n w w₁ where
  toRunning := h.toRunning
  entries c hc := (Native.Call.isRunOf_of_idle ⟨h.quiet c hc, h.idle c hc⟩).2

protected theorem refl (h : w.Compliant) : RunningOn n w w := of_waiting (Waiting.refl h)

/-- What runs on one problem in two parts runs on it. -/
protected theorem trans (h₁ : RunningOn n w w₁) (h₂ : RunningOn n w₁ w₂) : RunningOn n w w₂ where
  toRunning := h₁.toRunning.trans h₂.toRunning
  entries c hc := by
    rw [World.callsSince_trans h₁.extends_ h₂.extends_] at hc
    exact (List.mem_append.mp hc).elim (h₁.entries c) (h₂.entries c)

/-- One quiet call about the problem. -/
theorem after (h : w.Compliant) {c : Native.Call} (hc : c.isQuiet = true) (hn : c.problems = [n]) :
    RunningOn n w (w.after c) where
  toRunning := Running.after h hc
  entries c' hc' _ := by
    rw [World.callsSince_after] at hc'
    rw [List.mem_singleton.mp hc']
    exact hn

/-- What a run leaves in a problem is no call. -/
theorem leave (h : w.Compliant) {f : Native.Problem → Native.Problem}
    (hf : ∀ p, (f p).core = p.core) : RunningOn n w { w with native := w.native.modify n f } where
  toRunning := Running.leave h n hf
  entries c hc := by
    have hnone : w.callsSince { w with native := w.native.modify n f } = [] := w.callsSince_self
    rw [hnone] at hc
    cases hc

end RunningOn

namespace Action

variable {w : World}

/-- What idles from every state is part of every run. -/
theorem Preserves.runningOn {α : Type} {a : Action α} (h : ∀ w, Preserves (Idling w) a) {n : Nat} :
    Preserves (RunningOn n w) a := fun w₁ h₁ =>
  h₁.trans (RunningOn.of_waiting (h w₁ w₁ (Idling.refl h₁.compliant)).toWaiting)

/-- **A run works on its problem only**, and leaves models and mathematical problems alone. -/
theorem preserves_conduct {r : NativeRun} (hr : r.Proper) : Preserves (RunningOn r.problem w) (conduct r) := by
  intro v h
  have hstart : RunningOn r.problem v (v.after r.start) := .after h.compliant hr.quiet hr.problems
  refine h.trans ?_
  rcases on_conduct h.compliant r with ⟨w', hwaiting, ⟨stopped, values, -, hend⟩ | ⟨fault, hend⟩⟩ <;> rw [hend]
  · exact (hstart.trans (.of_waiting hwaiting)).trans (.leave hwaiting.compliant fun q => hr.core _ _ q)
  · exact hstart.trans (.of_waiting hwaiting)

/-- After a run all calls are granted as before. -/
theorem compliant_of_conduct {r : NativeRun} (hw : w.Compliant) {answer : Except Fault Int} {w₁ : World}
    (h : (conduct r).on w = (answer, w₁)) : w₁.Compliant := by
  rcases on_conduct hw r with ⟨w', hwaiting, ⟨stopped, values, -, hend⟩ | ⟨fault, hend⟩⟩ <;>
  · cases h.symm.trans hend
    exact hwaiting.compliant

/-- A run starts a solver, however it ends. -/
theorem entered_conduct {r : NativeRun} (hr : r.Proper) (hw : w.Compliant) : w.Entered ((conduct r).on w).2 := by
  have hfirst : w.Entered (w.after r.start) := ⟨r.start, by simp, hr.entry⟩
  obtain ⟨w', hwaiting, hend⟩ := on_conduct hw r
  have hentered := (World.entered_trans (World.Extends.after w r.start) hwaiting.extends_).mpr (Or.inl hfirst)
  rcases hend with ⟨stopped, values, -, hend⟩ | ⟨fault, hend⟩ <;> rw [hend] <;> exact hentered

end Action

open LinearProgram.Action

/-! ## §2 GLPK -/

namespace Glpk

variable {w : World}

theorem preserves_tell {c : Call} (hc : (Native.Call.glpk c).isQuiet = true)
    (he : (Native.Call.glpk c).isEntry = false) (p : Nat) : Preserves (RunningOn p w) (tell c) := by
  intro w₁ h
  rw [on_tell (h.compliant.grants _)]
  exact h.trans (RunningOn.of_waiting (Waiting.after h.compliant hc he))

/-- The relaxation runs on its problem alone. -/
theorem preserves_simplex (p : Nat) (parameters : Parameters) (presolve : Bool) :
    Preserves (RunningOn p w) (simplex p parameters presolve) := by
  unfold simplex
  refine Preserves.bind (Preserves.lift _) fun verbose => ?_
  refine Preserves.bind (preserves_conduct (NativeRun.proper_simplex ..)) fun code => ?_
  split
  · exact Preserves.pure _
  · exact Preserves.bind (Preserves.runningOn fun _ => reads_ask _ _ _ _) fun _ => Preserves.pure _

theorem preserves_search (p : Nat) (parameters : Parameters) (abort : Option Handle) :
    Preserves (RunningOn p w) (search p parameters abort) := by
  unfold search
  refine Preserves.bind (Preserves.lift _) fun verbose => Preserves.bind (Preserves.lift _) fun presolve => ?_
  refine Preserves.bind (preserves_conduct (NativeRun.proper_integerSearch ..)) fun code => ?_
  exact Preserves.bind (Preserves.runningOn fun _ => reads_ask _ _ _ _) fun _ => Preserves.pure _

/-- Branch-and-cut runs on its problem alone, both times. -/
theorem preserves_branchCut (p : Nat) (parameters : Parameters) (abort : Option Handle) :
    Preserves (RunningOn p w) (branchCut p parameters abort) := by
  unfold branchCut
  refine Preserves.bind (Preserves.lift _) fun presolve => ?_
  split
  · exact preserves_search _ _ _
  · -- without presolve the relaxation is solved first
    refine Preserves.bind (preserves_simplex _ _ _) fun relaxed => ?_
    split
    · exact preserves_search _ _ _
    · exact Preserves.bind (Preserves.runningOn fun _ => reads_debug _ _) fun _ => Preserves.pure _

theorem preserves_runMethod (p : Nat) (abort : Option Handle) (method : Method) (parameters : Parameters) :
    Preserves (RunningOn p w) (runMethod p abort method parameters) := by
  unfold runMethod
  split
  · exact Preserves.bind (Preserves.lift _) fun _ => preserves_simplex _ _ _
  · exact preserves_branchCut _ _ _

/-- A solve of GLPK runs on its problem alone, and so do the calls around it. -/
theorem preserves_solve (p : Nat) (abort : Option Handle) (method : Method) (parameters : Parameters)
    (log : Option Handle) : Preserves (RunningOn p w) (solve p abort method parameters log) := by
  have hmethod := preserves_runMethod (w := w) p abort method parameters
  unfold solve
  cases log with
  | none => exact hmethod
  -- the hook is taken off again, whatever the run answers
  | some h =>
    exact Preserves.bind (preserves_tell rfl rfl p) fun _ => Preserves.ensuring hmethod (preserves_tell rfl rfl p)

end Glpk

/-! ## §3 lp_solve -/

namespace LpSolve

variable {w : World}

theorem preserves_tell {c : Call} (hc : (Native.Call.lpsolve c).isQuiet = true)
    (he : (Native.Call.lpsolve c).isEntry = false) (p : Nat) : Preserves (RunningOn p w) (tell c) := by
  intro w₁ h
  rw [on_tell (h.compliant.grants _)]
  exact h.trans (RunningOn.of_waiting (Waiting.after h.compliant hc he))

/-- A solve of lp_solve runs on its problem alone, and so do the calls around it. -/
theorem preserves_solve (p : Nat) (parameters : Parameters) (log : Option Handle) :
    Preserves (RunningOn p w) (solve p parameters log) := by
  unfold solve
  refine Preserves.bind (Preserves.lift _) fun verbose => Preserves.bind (preserves_tell rfl rfl p) fun _ => ?_
  cases log with
  | none => exact Preserves.bind (preserves_conduct (NativeRun.proper_lpSolve ..)) fun _ => Preserves.pure _
  | some h =>
    refine Preserves.bind (preserves_tell rfl rfl p) fun _ => ?_
    refine Preserves.bind (Preserves.ensuring ?_ (preserves_tell rfl rfl p)) fun _ => Preserves.pure _
    exact preserves_conduct (NativeRun.proper_lpSolve ..)

end LpSolve

namespace Engine

variable {w : World}

/-- **A solve leaves models and mathematical problems alone**, and starts solvers on the problem of the
engine only. -/
theorem preserves_solve (e : Engine) (method : Method) (parameters : Parameters)
    (log : Option Handle) : Preserves (RunningOn e.number w) (e.solve method parameters log) := by
  unfold solve
  cases e.kind with
  | glpk => exact Glpk.preserves_solve _ _ _ _ _
  | lpsolve => exact LpSolve.preserves_solve _ _ _

end Engine

/-! ## §4 Answering and entering -/

/-- The action answers, and on the way a solver was started. -/
def Action.Enters {α : Type} (a : Action α) : Prop :=
  ∀ w, w.Going → w.script.Returns →
    ∃ x w', a.on w = (.ok x, w') ∧ w'.Going ∧ w'.script.Returns ∧ w.Extends w' ∧ w.Entered w'

/-- The action fails at once: no solver is started and no time passes. -/
def Action.Declines {α : Type} (a : Action α) : Prop :=
  ∀ w, w.Compliant → ∃ fault w', a.on w = (.error fault, w') ∧ ¬ w.Entered w' ∧ w'.clock = w.clock

namespace Action

variable {α β : Type}

theorem Declines.lift {r : Except Fault α} {fault : Fault} (h : r = .error fault)
    (f : α → Action β) : (Action.lift r >>= f).Declines := by
  intro w _
  subst h
  exact ⟨fault, w, rfl, w.not_entered_self, rfl⟩

/-- Before what declines, a setting may be looked up. -/
theorem Declines.after_lift {r : Except Fault α} {f : α → Action β} (h : ∀ x, (f x).Declines) :
    (Action.lift r >>= f).Declines := by
  cases r with
  | error fault => exact Declines.lift rfl f
  | ok x => exact h x

theorem Declines.bind {a : Action α} (h : a.Declines) (f : α → Action β) : (a >>= f).Declines := by
  intro w hw
  obtain ⟨fault, w', ha, hrest⟩ := h w hw
  exact ⟨fault, w', by rw [on_bind_of_error ha], hrest⟩

/-- A call before it that starts no solver does not change that. -/
theorem Declines.tell {c : Native.Call} (hq : c.isQuiet = true) (he : c.isEntry = false)
    {a : Action α} {tell : Action Unit} (htell : ∀ w, w.Compliant → tell.on w = (.ok (), w.after c))
    {n : Nat} (hr : ∀ w, Preserves (RunningOn n w) a) (h : a.Declines) : (tell >>= fun _ => a).Declines := by
  intro w hw
  -- a quiet call leaves everything but the record of calls as it was
  have hi := Idling.after hw hq he
  obtain ⟨fault, w', ha, hentered, hclock⟩ := h (w.after c) hw
  have hx := (hr (w.after c) _ (RunningOn.refl hw)).extends_
  rw [ha] at hx
  refine ⟨fault, w', by rw [on_bind_of_ok (htell w hw), ha], ?_, hclock⟩
  rw [World.entered_trans hi.extends_ hx]
  exact fun hor => hor.elim hi.not_entered hentered

theorem Enters.tell {c : Native.Call} {a : Action α} {tell : Action Unit}
    (htell : ∀ w, w.Compliant → tell.on w = (.ok (), w.after c)) (h : a.Enters) :
    (tell >>= fun _ => a).Enters := by
  intro w hw hs
  obtain ⟨x, w', ha, hgoing, hs', hx, hentered⟩ := h (w.after c) hw hs
  have hc := World.Extends.after w c
  exact ⟨x, w', by rw [on_bind_of_ok (htell w hw.1), ha], hgoing, hs', hc.trans hx,
    (World.entered_trans hc hx).mpr (Or.inr hentered)⟩

/-- A cleanup afterwards does not undo the entry. -/
theorem Enters.ensuring {c : Native.Call} {a : Action α} {tell : Action Unit}
    (htell : ∀ w, w.Compliant → tell.on w = (.ok (), w.after c)) (h : a.Enters) :
    (Action.ensuring a tell).Enters := by
  intro w hw hs
  obtain ⟨x, w', ha, hgoing, hs', hx, hentered⟩ := h w hw hs
  have hc := World.Extends.after w' c
  refine ⟨x, w'.after c, ?_, hgoing, hs', hx.trans hc, (World.entered_trans hx hc).mpr (Or.inl hentered)⟩
  rw [on_ensuring, ha, htell w' hgoing.1]

/-- A cleanup that starts no solver does not change the declining. -/
theorem Declines.ensuring {c : Native.Call} (hq : c.isQuiet = true) (he : c.isEntry = false)
    {a : Action α} {tell : Action Unit} (htell : ∀ w, w.Compliant → tell.on w = (.ok (), w.after c))
    {n : Nat} (hr : ∀ w, Preserves (RunningOn n w) a) (h : a.Declines) : (Action.ensuring a tell).Declines := by
  intro w hw
  obtain ⟨fault, w', ha, hentered, hclock⟩ := h w hw
  -- the clean-up runs in the world that the failed run left
  have hrunning := hr w w (RunningOn.refl hw)
  rw [ha] at hrunning
  have hi := Idling.after hrunning.compliant hq he
  refine ⟨fault, w'.after c, ?_, ?_, hclock⟩
  · rw [on_ensuring, ha, htell w' hrunning.compliant]
  · rw [World.entered_trans hrunning.extends_ hi.extends_]
    exact fun hor => hor.elim hentered hi.not_entered

/-- A run that is let return answers and has started a solver. -/
theorem conduct_enters {r : NativeRun} (hr : r.Proper) (hpasses : r.Passes) : (conduct r).Enters := by
  intro w h hs
  obtain ⟨code, w₁, hrun, hgoing⟩ := conduct_returns hpasses hs h
  have hrunning := preserves_conduct hr w (RunningOn.refl h.1)
  have hentered := entered_conduct hr h.1
  rw [hrun] at hrunning hentered
  exact ⟨code, w₁, hrun, hgoing, by rw [hrunning.script]; exact hs, hrunning.extends_, hentered⟩

/-- What comes after an action that has started a solver only has to answer. -/
theorem Enters.bind {a : Action α} {f : α → Action β} (h : a.Enters)
    (hf : ∀ x w, w.Going → ∃ y w', (f x).on w = (.ok y, w') ∧ Idling w w') : (a >>= f).Enters := by
  intro w hw hs
  obtain ⟨x, w₁, ha, hgoing, hs₁, hx, hentered⟩ := h w hw hs
  obtain ⟨y, w₂, hon, hidle⟩ := hf x w₁ hgoing
  -- the clock still shows a number, as `f` does not touch it
  obtain ⟨t, ht⟩ := hgoing.2
  exact ⟨y, w₂, by rw [on_bind_of_ok ha, hon], ⟨hidle.compliant, t, by rw [hidle.clock]; exact ht⟩,
    by rw [hidle.script]; exact hs₁, hx.trans hidle.extends_,
    (World.entered_trans hx hidle.extends_).mpr (Or.inl hentered)⟩

theorem Enters.bind_pure {a : Action α} (h : a.Enters) (f : α → β) : (a >>= fun x => pure (f x)).Enters := by
  intro w hw hs
  obtain ⟨x, w', ha, hrest⟩ := h w hw hs
  exact ⟨f x, w', by rw [on_bind_of_ok ha]; rfl, hrest⟩

end Action

namespace Glpk

private theorem ask_idles {α : Type} {w : World} (h : w.Going) (p : Nat) (query : Query) (absent : α)
    (answer : Problem → α) {β : Type} (f : α → β) :
    ∃ y w', (do
      let x ← ask p query absent answer
      pure (f x) : Action β).on w = (.ok y, w') ∧ Idling w w' :=
  ⟨_, _, Action.on_bind_of_ok (on_ask (h.1.grants _) absent answer) _, Idling.after h.1 rfl rfl⟩

/-- The relaxation is started where the first parameter can be read. -/
theorem simplex_enters {parameters : Parameters} {verbose : Datum} (hv : parameters.verbose = .ok verbose)
    (p : Nat) (presolve : Bool) : (simplex p parameters presolve).Enters := by
  unfold simplex
  rw [hv]
  refine (conduct_enters (NativeRun.proper_simplex ..) (NativeRun.passes_simplex _ _ _)).bind fun code w hw => ?_
  split
  · exact ⟨_, w, rfl, Idling.refl hw.1⟩
  · exact ask_idles hw p .status 0 (·.status) _

theorem search_enters {parameters : Parameters} {verbose presolve : Datum}
    (hv : parameters.verbose = .ok verbose) (hp : parameters.presolve = .ok presolve) (p : Nat)
    (abort : Option Handle) : (search p parameters abort).Enters := by
  unfold search
  rw [hv, hp]
  exact (conduct_enters (NativeRun.proper_integerSearch ..) (NativeRun.passes_integerSearch _ _ _ _)).bind
    fun code w hw => ask_idles hw p .integerStatus 0 (·.integerStatus) _

/-- Branch-and-cut starts a solver where both parameters can be read. -/
theorem branchCut_enters {parameters : Parameters} {verbose presolve : Datum}
    (hv : parameters.verbose = .ok verbose) (hp : parameters.presolve = .ok presolve) (p : Nat)
    (abort : Option Handle) : (branchCut p parameters abort).Enters := by
  intro w h hs
  have hsearch := search_enters hv hp p abort
  unfold branchCut
  rw [hp, Action.on_bind_of_ok (Action.on_lift _ w)]
  by_cases hon : presolve.isTrue = true
  · rw [if_pos hon]
    exact hsearch w h hs
  rw [if_neg hon]
  obtain ⟨relaxed, w₁, hsimplex, hgoing, hs₁, hextends, hentered⟩ := simplex_enters hv p false w h hs
  rw [Action.on_bind_of_ok hsimplex]
  -- the search starts only from an optimal relaxation
  by_cases hopt : relaxed = .known (.solved .optimal)
  · rw [if_pos hopt]
    -- both runs enter; the first is enough
    obtain ⟨report, w₂, hrun, hgoing₂, hs₂, hextends₂, -⟩ := hsearch w₁ hgoing hs₁
    exact ⟨report, w₂, hrun, hgoing₂, hs₂, hextends.trans hextends₂,
      (World.entered_trans hextends hextends₂).mpr (Or.inl hentered)⟩
  · rw [if_neg hopt]
    exact ⟨relaxed, _, rfl, hgoing, hs₁, hextends, hentered⟩

theorem simplex_declines {parameters : Parameters} {fault : Fault}
    (hv : parameters.verbose = .error fault) (p : Nat) (presolve : Bool) :
    (simplex p parameters presolve).Declines := Action.Declines.lift hv _

theorem search_declines {parameters : Parameters}
    (h : ∃ fault, parameters.verbose = .error fault ∨ parameters.presolve = .error fault) (p : Nat)
    (abort : Option Handle) : (search p parameters abort).Declines := by
  obtain ⟨fault, hv | hp⟩ := h
  · exact Action.Declines.lift hv _
  · exact Action.Declines.after_lift fun _ => Action.Declines.lift hp _

/-- Where a parameter cannot be read, branch-and-cut starts nothing. -/
theorem branchCut_declines {parameters : Parameters}
    (h : ∃ fault, parameters.verbose = .error fault ∨ parameters.presolve = .error fault) (p : Nat)
    (abort : Option Handle) : (branchCut p parameters abort).Declines := by
  have hsearch := search_declines h p abort
  obtain ⟨fault, hv | hp⟩ := h
  · -- presolve is read first, so a bad verbosity is met by whichever run comes first
    refine Action.Declines.after_lift fun presolve => ?_
    split
    · exact hsearch
    · exact (simplex_declines hv p false).bind _
  · exact Action.Declines.lift hp _

theorem runMethod_enters {parameters : Parameters} {verbose presolve : Datum}
    (hv : parameters.verbose = .ok verbose) (hp : parameters.presolve = .ok presolve) (p : Nat)
    (abort : Option Handle) (method : Method) : (runMethod p abort method parameters).Enters := by
  unfold runMethod
  split
  · rw [hp]
    exact simplex_enters hv p presolve.isTrue
  · exact branchCut_enters hv hp p abort

theorem runMethod_declines {parameters : Parameters}
    (h : ∃ fault, parameters.verbose = .error fault ∨ parameters.presolve = .error fault) (p : Nat)
    (abort : Option Handle) (method : Method) : (runMethod p abort method parameters).Declines := by
  unfold runMethod
  split
  · obtain ⟨fault, hv | hp⟩ := h
    · exact Action.Declines.after_lift fun _ => simplex_declines hv p _
    · exact Action.Declines.lift hp _
  · exact branchCut_declines h p abort

/-- **A solve of GLPK starts a solver** where the parameters can be read. -/
theorem solve_enters {parameters : Parameters} {verbose presolve : Datum}
    (hv : parameters.verbose = .ok verbose) (hp : parameters.presolve = .ok presolve) (p : Nat)
    (abort : Option Handle) (method : Method) (log : Option Handle) :
    (solve p abort method parameters log).Enters := by
  have hmethod := runMethod_enters hv hp p abort method
  unfold solve
  cases log with
  | none => exact hmethod
  | some h =>
    exact Action.Enters.tell (fun _ hw => on_tell (hw.grants _))
      (Action.Enters.ensuring (fun _ hw => on_tell (hw.grants _)) hmethod)

/-- **A solve of GLPK starts nothing** where a parameter cannot be read. -/
theorem solve_declines {parameters : Parameters}
    (h : ∃ fault, parameters.verbose = .error fault ∨ parameters.presolve = .error fault) (p : Nat)
    (abort : Option Handle) (method : Method) (log : Option Handle) :
    (solve p abort method parameters log).Declines := by
  have hmethod := runMethod_declines h p abort method
  have hruns (w : World) := preserves_runMethod (w := w) p abort method parameters
  unfold solve
  cases log with
  | none => exact hmethod
  | some h =>
    -- setting the hook is no entry, and it is taken off again
    refine Action.Declines.tell (n := p) rfl rfl (fun _ hw => on_tell (hw.grants _)) (fun w => ?_)
      (Action.Declines.ensuring rfl rfl (fun _ hw => on_tell (hw.grants _)) hruns hmethod)
    exact Preserves.ensuring (hruns w) (preserves_tell rfl rfl p)

end Glpk

namespace LpSolve

/-- **A solve of lp_solve starts it** where the parameter can be read. -/
theorem solve_enters {parameters : Parameters} {verbose : Datum}
    (hv : parameters.verbose = .ok verbose) (p : Nat) (log : Option Handle) :
    (solve p parameters log).Enters := by
  have htell (c : Call) (w : World) (hw : w.Compliant) : (tell c).on w = (.ok (), w.after (.lpsolve c)) :=
    on_tell (hw.grants _)
  unfold solve
  rw [hv]
  -- the one native run of lp_solve, which every method comes down to
  have hrun : (conduct (.lpSolve p)).Enters :=
    conduct_enters (NativeRun.proper_lpSolve p) (NativeRun.passes_lpSolve p)
  refine Action.Enters.tell (htell _) ?_
  cases log with
  | none => exact hrun.bind_pure _
  | some h => exact Action.Enters.tell (htell _) ((hrun.ensuring (htell _)).bind_pure _)

end LpSolve

namespace Engine

/-- **On a script that returns, an engine answers exactly if it has started a solver.** -/
theorem solve_commits (e : Engine) (method : Method) (parameters : Parameters) (log : Option Handle) :
    (e.solve method parameters log).Enters ∨ (e.solve method parameters log).Declines := by
  unfold solve
  cases e.kind with
  | glpk =>
    cases hv : parameters.verbose with
    | error fault => exact Or.inr (Glpk.solve_declines ⟨fault, Or.inl hv⟩ _ _ _ _)
    | ok verbose =>
      cases hp : parameters.presolve with
      | error fault => exact Or.inr (Glpk.solve_declines ⟨fault, Or.inr hp⟩ _ _ _ _)
      | ok presolve => exact Or.inl (Glpk.solve_enters hv hp _ _ _ _)
  -- lp_solve never reads `presolve`
  | lpsolve =>
    cases hv : parameters.verbose with
    | error fault => exact Or.inr (Action.Declines.lift hv _)
    | ok verbose => exact Or.inl (LpSolve.solve_enters hv _ _)

end Engine

end LinearProgram
