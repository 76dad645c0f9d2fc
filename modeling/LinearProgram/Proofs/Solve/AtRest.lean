import LinearProgram.Proofs.Solve.Hookless

/-!
# Sessions between solves

A solve takes its handles out of the hooks again, and everything else sets none. So between the operations of a
session the layer is at rest: no handle is held, and the registry is regular. This holds of every state that a
session leads to, whatever the native runs do.

From a layer at rest, what was shown of the handles of a solve holds without further ado.
-/

namespace LinearProgram

open LinearProgram.Action

/-! ## §1 Layers at rest -/

namespace Native.Store

variable {s : Store}

/-- No hook holds a handle. -/
def Bare (s : Store) : Prop := s.terminalHook = none ∧ ∀ n, s.hooks n = (none, none)

theorem bare_empty : empty.Bare := ⟨rfl, fun n => by unfold hooks problem?; split <;> simp [empty]⟩

/-- A problem that is added without hooks leaves the store bare. -/
theorem Bare.push (hs : s.Bare) {q : Problem} (hq : q.hooks = (none, none)) :
    Bare { s with problems := s.problems.push q } := by
  refine ⟨hs.1, fun n => ?_⟩
  rw [hooks, problem?_push]
  split
  · exact hq
  · exact hs.2 n

/-- A change that sets no hook leaves the store bare. -/
theorem Bare.modify (hs : s.Bare) {n : Nat} {f : Problem → Problem}
    (hf : ∀ p, p.hooks = (none, none) → (f p).hooks = (none, none)) : (s.modify n f).Bare := by
  refine ⟨(terminalHook_modify ..).trans hs.1, fun k => ?_⟩
  rw [hooks_modify]
  -- the problem changed keeps having no hooks
  split
  · have hn := hs.2 n
    unfold hooks at hn
    cases hp : s.problem? n with
    | none => rfl
    | some p =>
      rw [hp] at hn
      exact hf p hn
  · exact hs.2 k

/-- New problems have no hooks, and what stands where a problem was deleted has none. -/
theorem Bare.apply (hs : s.Bare) {c : Call} (hc : c.isHook = false) : (s.apply c).Bare := by
  by_cases habout : ∃ n, c.IsAbout n
  · obtain ⟨n, habout⟩ := habout
    obtain ⟨hterminal, hhooks⟩ := hooks_apply habout hc s
    exact ⟨hterminal.trans hs.1, fun k => (hhooks k).trans (hs.2 k)⟩
  · -- what is left are the calls that make, copy or delete a problem, and the one that stops a search
    rcases c with c | c <;> cases c <;> try first | exact absurd ⟨_, rfl, rfl⟩ habout | cases hc
    · exact hs.push rfl
    · exact hs.modify fun _ _ => rfl
    · simp only [Store.apply, applyGlpk]
      split
      · refine hs.modify fun p hp => ?_
        cases p <;> first | rfl | exact hp
      · exact hs
    · exact hs
    · exact hs.push rfl
    · exact hs.modify fun _ _ => rfl
    · simp only [Store.apply, applyLpSolve]
      split
      · exact hs.push rfl
      · exact hs

end Native.Store

namespace World

variable {w : World}

/-- Nothing is hooked if no problem and no engine has a hook. -/
theorem unhooked_iff :
    w.Unhooked ↔ w.native.Bare ∧ ∀ m e, w.engine? m = some e → e.abort = none := by
  constructor
  · -- no handle at all is registered anywhere, so each place that could hold one is empty
    refine fun h => ⟨⟨Option.eq_none_iff_forall_ne_some.mpr fun k hk => (h k).1 (.inl hk), fun n => ?_⟩,
      fun m e he => ?_⟩
    · exact Prod.ext (Option.eq_none_iff_forall_ne_some.mpr fun k hk => (h k).1 (.inr ⟨n, hk⟩))
        (Option.eq_none_iff_forall_ne_some.mpr fun k hk => (h k).2 (.inr ⟨n, hk⟩))
    · exact Option.eq_none_iff_forall_ne_some.mpr fun k hk => (h k).2 (.inl ⟨m, e, he, hk⟩)
  · rintro ⟨⟨hterminal, hhooks⟩, hengines⟩ k
    refine ⟨?_, ?_⟩
    · rintro (hk | ⟨n, hk⟩)
      · cases hterminal.symm.trans hk
      · cases (congrArg Prod.fst (hhooks n)).symm.trans hk
    · rintro (⟨m, e, he, hk⟩ | ⟨n, hk⟩)
      · cases (hengines m e he).symm.trans hk
      · cases (congrArg Prod.snd (hhooks n)).symm.trans hk

/-- The layer is at rest: the libraries serve, the registry is regular, and no handle is held. -/
structure AtRest (w : World) : Prop where
  serves : w.Serves
  regular : w.registry.Regular
  unhooked : w.Unhooked

theorem atRest_initial : initial.AtRest where
  serves _ _ := rfl
  regular := Registry.regular_empty
  unhooked := unhooked_iff.mpr ⟨Native.Store.bare_empty, fun m e he => by cases m <;> cases he⟩

theorem AtRest.still {w' : World} (h : w.AtRest) (hstill : w.Still w') : w'.AtRest where
  serves := hstill.serves h.serves
  regular := hstill.registry.regular h.regular
  unhooked := hstill.unhooked h.unhooked

theorem AtRest.abort_eq_none {m : ModelId} {model : Model} (h : w.AtRest) (hm : w.model? m = some model) :
    model.engine.abort = none :=
  (unhooked_iff.mp h.unhooked).2 m _ (by rw [engine?, hm]; rfl)

/-- Other models, of which none has a handle, in the same surroundings. -/
theorem AtRest.withModels (h : w.AtRest) {models : Array Model}
    (hmodels : ∀ (m : ModelId) (model : Model), models[m]? = some model → model.engine.abort = none) :
    AtRest { w with models := models } where
  serves := h.serves
  regular := h.regular
  unhooked := unhooked_iff.mpr ⟨(unhooked_iff.mp h.unhooked).1, fun m e he => by
    obtain ⟨model, hm, rfl⟩ := Option.map_eq_some_iff.mp he
    exact hmodels m model hm⟩

instance : BuildClosed AtRest where
  call {c} hc w h := by
    rw [on_call]
    split
    · exact h
    · next rest hspend =>
      obtain ⟨hbare, hengines⟩ := unhooked_iff.mp h.unhooked
      refine ⟨fun d hd => lookup_of_spend hspend (h.serves d hd), h.regular, ?_⟩
      exact unhooked_iff.mpr ⟨hbare.apply hc, hengines⟩
  writings h := ⟨h.serves, h.regular, h.unhooked⟩
  library {w kind l} h := by cases kind <;> exact ⟨h.serves, h.regular, h.unhooked⟩
  change {w m f} hf h := h.withModels fun k model hk => by
    rw [Array.getElem?_modify] at hk
    split at hk
    · obtain ⟨model', hm', rfl⟩ := Option.map_eq_some_iff.mp hk
      exact hf model' (h.abort_eq_none hm')
    · exact h.abort_eq_none hk
  add {w model} habort h := h.withModels fun k model' hk => by
    rw [Array.getElem?_push] at hk
    split at hk
    · cases hk
      exact habort
    · exact h.abort_eq_none hk
  idle h hm := h.abort_eq_none hm

end World

/-! ## §2 Sessions -/

/-- An interlude leaves a regular registry behind. -/
def Operation.Tidy : Operation → Prop
  | meanwhile i => i.registry.Regular
  | _ => True

namespace World

variable {w : World}

/-- A solve, under a context or not, leaves the layer at rest. -/
theorem AtRest.solveUnder (m : ModelId) (c? : Option ContextId) (given : Option Datum) :
    Preserves AtRest (Model.solveUnder m c? given) := by
  intro w h
  exact h.still (Secure.solveUnder h.serves h.regular h.unhooked m c? given).still

/-- **Every operation leaves the layer at rest.** -/
theorem AtRest.next (h : w.AtRest) {o : Operation} (htidy : o.Tidy) : (w.next o).AtRest := by
  have hrun {α : Type} {a : Action α} (ha : Preserves AtRest a) (f : α → Answer) :
      ((f <$> a).on w).2.AtRest := ha.map f w h
  -- only a solve registers handles; whatever it registers it takes back
  cases o with
  | create name direction options => exact hrun (Model.builds_create name direction options) _
  | clone m => exact hrun (Model.builds_clone m) _
  | free m => exact hrun (Model.builds_free m) _
  | addVariable m name kind c l u => exact hrun (Model.builds_addVariable m name kind c l u) _
  | addVariables m count stem kind c l u => exact hrun (Model.builds_addVariables m count stem kind c l u) _
  | addConstraint m l u vars cs => exact hrun (Model.builds_addConstraint m l u vars cs) _
  | setKind v kind => exact hrun (v.builds_setKind kind) _
  | setBounds v l u => exact hrun (v.builds_setBounds l u) _
  | setCoefficient v c => exact hrun (v.builds_setCoefficient c) _
  | setObjective m cs vars => exact hrun (Model.builds_setObjective m cs vars) _
  | setDirection m direction => exact hrun (Model.builds_setDirection m direction) _
  | setParameters m entries => exact hrun (Model.builds_assignParameters m entries) _
  | solve m method => exact hrun (AtRest.solveUnder m none method) _
  | solveWithContext m c method => exact hrun (AtRest.solveUnder m (some c) method) _
  | inquire i => exact hrun i.reads_run _
  | meanwhile i => exact ⟨h.serves, htidy, h.unhooked⟩

/-- **Between the operations of a session the layer is at rest.** -/
theorem AtRest.nextAll (h : w.AtRest) {os : List Operation} (htidy : ∀ o ∈ os, o.Tidy) :
    (w.nextAll os).AtRest := by
  induction os generalizing w with
  | nil => exact h
  | cons o rest ih =>
    exact ih (h.next (htidy o (List.mem_cons_self ..))) fun o' ho' => htidy o' (List.mem_cons_of_mem _ ho')

end World

/-! ## §3 Handles around a solve -/

namespace Model

/-- **Handles around a solve.** Take a solve in a layer at rest, under a context or not, whatever messages and
polls the runs of the engine come back with, in any order, also after a poll that told them to stop. When the
library comes back with a handle, it is one that it holds, and behind every handle that is held for messages
is the model, and behind every one for polls the context. When a registration is given up, its handle is not
held any more. However the solve ends, no handle is held then, and the registry has the entries it had. -/
theorem solve_releases_handles {w : World} (h : w.AtRest) (m : ModelId) (c? : Option ContextId)
    (given : Option Datum) :
    let run := (solveUnder m c? given).watch w
    (∀ x ∈ run.2, x.Safe m c?) ∧
      (∀ k, ¬ run.1.2.LogHeld k ∧ ¬ run.1.2.AbortHeld k) ∧
      (∀ k, run.1.2.registry.find? k = w.registry.find? k) ∧
      run.1.2.registry.count = w.registry.count := by
  have hsecure := Secure.solveUnder h.serves h.regular h.unhooked m c? given
  exact ⟨hsecure.safe, hsecure.still.unhooked h.unhooked, hsecure.still.registry.find?_eq,
    hsecure.still.registry.count_eq⟩

/-- A search that polls, has its context canceled, and goes on with messages and polls after it was told to
stop. The context has the first handle and the model the second; both are given up. -/
theorem handles_of_search :
    let meanwhile : Interlude :=
      { clock := .zero, contexts := (Forest.empty.make none none).2, registry := .empty
        surroundings := .standard
        script := { Script.standard with
          integerMessages := [.text "searching"], stopCode := some 13
          events := [.poll, .cancel 0, .poll false, .message (.text "stopping"), .poll] } }
    let before : List Operation :=
      [.create "" (.text "minimize") [.engine (.named (.text "glpk")), .verbose (.bool true)],
        .addVariable 0 "x" (.text "integer") (.int 1) (.int 0) (.int 1), .meanwhile meanwhile]
    let w := World.initial.nextAll before
    let run := (solveUnder 0 (some 0) none).watch w
    w.AtRest ∧ run.2.map Moment.handle = [2, 1, 1, 2, 1, 2, 1] ∧ (∀ x ∈ run.2, x.Safe 0 (some 0)) ∧
      run.1.2.registry.count = 0 := by
  intro meanwhile before w run
  have htidy : ∀ o ∈ before, o.Tidy := by
    simp [before, meanwhile, Operation.Tidy, Registry.regular_empty]
  have hrest : w.AtRest := World.atRest_initial.nextAll htidy
  -- the printer has handle 2 and the context 1, through all polls after the abort
  obtain ⟨hsafe, -, -, hcount⟩ := solve_releases_handles hrest 0 (some 0) none
  exact ⟨hrest, by decide +kernel, hsafe, hcount.trans (by decide +kernel)⟩

end Model

end LinearProgram
