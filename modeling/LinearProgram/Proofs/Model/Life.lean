import LinearProgram.Proofs.Model.Building

/-!
# Making, copying and freeing models

A model that is made gets a new problem; a copy gets a copy of the problem. When the name of a new model is
refused, the model has been made already and is freed again. Freeing a model deletes its problem.
-/

namespace LinearProgram

open LinearProgram.Action

/-! ## §1 Options -/

instance (w : World) : LoadClosed (Idling w) where
  library {w₁ kind l} h := by
    refine h.trans ?_
    cases kind <;> exact Idling.of_eq h.compliant rfl rfl rfl rfl rfl rfl rfl

namespace Action

variable {P : World → Prop} [LoadClosed P]

/-- An attempt to load does no more than to load libraries and to write logs. -/
theorem loads_attemptLoad (kind : EngineKind) : Preserves P (attemptLoad kind) := by
  intro w₁ h
  have hset : P (w₁.withLibrary kind ((w₁.library kind).load w₁.surroundings).library) :=
    LoadClosed.library h
  unfold attemptLoad
  rw [on_bind_of_ok (on_get _)]
  dsimp only
  rw [on_bind_of_ok (on_set _ _)]
  cases ((w₁.library kind).load w₁.surroundings).record? with
  -- a library already loaded is used without a word
  | none => exact hset
  | some r => exact NoteClosed.writings hset

/-- Choosing an engine does no more either. -/
theorem loads_select (choice : EngineChoice) : Preserves P (select choice) := by
  unfold select
  cases choice with
  | unusable => exact Preserves.fail _
  | named d =>
    dsimp only
    split
    · -- a name of no engine is refused before anything is loaded
      exact Preserves.fail _
    · refine Preserves.bind (Preserves.bind (loads_attemptLoad _) fun _ => ?_) fun _ => Preserves.pure _
      exact Preserves.bind (Preserves.lift _) fun _ => Preserves.pure _

theorem loads_firstAvailable (kinds : List EngineKind) :
    Preserves P (firstAvailable kinds) := by
  induction kinds with
  | nil => exact Preserves.fail _
  | cons kind rest ih =>
    refine Preserves.bind (Preserves.bind (loads_attemptLoad _) fun _ => Preserves.lift _) fun b => ?_
    -- the first engine that is available is taken, and the others are not tried
    split
    · exact Preserves.bind (reads_debug _ _) fun _ => Preserves.pure _
    · exact ih

theorem loads_selectDefault : Preserves P selectDefault := by
  unfold selectDefault
  refine Preserves.bind Preserves.get fun v => ?_
  split
  · exact Preserves.bind (reads_debug _ _) fun _ => loads_select _
  · exact loads_firstAvailable _

end Action

namespace ModelDraft

variable {P : World → Prop} [LoadClosed P]

theorem loads_apply (d : ModelDraft) (o : ModelOption) : Preserves P (d.apply o) := by
  cases o with
  | verbose value => exact Preserves.pure _
  | presolve value => exact Preserves.pure _
  | parameters p => exact Preserves.bind (Preserves.lift _) fun _ => Preserves.pure _
  | notParameters value => exact Preserves.fail _
  | engine choice => exact Preserves.bind (loads_select _) fun _ => Preserves.pure _
  | printer p => exact Preserves.pure _
  | notPrinter typeName => exact Preserves.fail _

/-- Options do no more either, whether or not they can be applied. -/
theorem loads_applyAll (d : ModelDraft) (options : List ModelOption) :
    Preserves P (d.applyAll options) := by
  induction options generalizing d with
  | nil => exact Preserves.pure _
  | cons o rest ih =>
    refine Preserves.bind ?_ fun d => ih d
    exact Preserves.recovering (loads_apply d o) fun _ => Preserves.fail _

end ModelDraft

/-! ## §2 New problems -/

namespace Native.Store

/-- A new problem is found under the next number. -/
theorem problem?_push (s : Store) (q : Problem) (h : Option Handle) (k : Nat) :
    ({ s with problems := s.problems.push q, terminalHook := h } : Store).problem? k =
      if k = s.next then some q else s.problem? k := by
  unfold problem? next
  by_cases hk : k = 0
  · subst hk
    simp
  · rw [if_neg hk, if_neg hk, Array.getElem?_push]
    -- the number behind the last is the pushed problem
    by_cases hs : k = s.problems.size + 1
    · rw [if_pos hs, if_pos (by omega)]
    · rw [if_neg hs, if_neg (by omega)]

end Native.Store

namespace Engine

variable {w : World}

def fresh : EngineKind → Native.Problem
  | .glpk => .glpk .fresh
  | .lpsolve => .lpsolve .fresh

theorem kind?_fresh (kind : EngineKind) : (fresh kind).kind? = some kind := by cases kind <;> rfl

theorem core_fresh (kind : EngineKind) : (fresh kind).core = fresh kind := by cases kind <;> rfl

/-- What making a problem, or copying one, does: there is a new problem, and nothing else changes. -/
structure AddsProblem (w w' : World) (q : Native.Problem) : Prop where
  compliant : w'.Compliant
  script : w'.script = w.script
  models : w'.models = w.models
  registry : w'.registry = w.registry
  clock : w'.clock = w.clock
  cores : ∀ k, w'.native.core? k = if k = w.native.next then some q.core else w.native.core? k
  problemCount : w'.native.problems.size = w.native.problems.size + 1
  extends_ : w.Extends w'

/-- A call about the new problem that keeps its core. -/
theorem AddsProblem.after {w' : World} {q : Native.Problem} (h : AddsProblem w w' q)
    {c : Native.Call} (hc : ∀ s k, (Native.Store.apply s c).core? k = s.core? k)
    (hsize : ∀ s, (Native.Store.apply s c).problems.size = s.problems.size) :
    AddsProblem w (w'.after c) q where
  compliant := h.compliant
  script := h.script
  models := h.models
  registry := h.registry
  clock := h.clock
  cores k := (hc _ k).trans (h.cores k)
  problemCount := (hsize _).trans h.problemCount
  extends_ := h.extends_.trans (World.Extends.after w' c)

/-- A call that appends a problem adds it to the state. -/
theorem addsProblem_of_push (h : w.Compliant) {c : Native.Call} {q : Native.Problem}
    (hc : w.native.apply c = { w.native with problems := w.native.problems.push q }) :
    AddsProblem w (w.after c) q where
  compliant := h
  script := rfl
  models := rfl
  registry := rfl
  clock := rfl
  cores k := by
    show (w.native.apply c).core? k = _
    rw [hc, Native.Store.core?, Native.Store.problem?_push]
    split <;> rfl
  problemCount := by
    show (w.native.apply c).problems.size = _
    rw [hc]
    simp
  extends_ := World.Extends.after w c

/-- The calls that keep a new lp_solve problem from printing change nothing that matters. -/
private theorem addsProblem_silence {w' : World} {q : Native.Problem} (h : AddsProblem w w' q) (p : Nat) :
    ∃ w₂, (LpSolve.silence p).on w' = (.ok (), w₂) ∧ AddsProblem w w₂ q := by
  -- neither call is seen by the core of a problem
  have houtput : AddsProblem w (w'.after (.lpsolve (.setOutput p ""))) q :=
    h.after (fun s k => Native.Store.core?_modify_of_core (fun r => by cases r <;> rfl) s p k)
      fun s => Native.Store.size_modify s p _
  have hverbose : AddsProblem w ((w'.after (.lpsolve (.setOutput p ""))).after
      (.lpsolve (.setVerbosity p 0))) q :=
    houtput.after (fun s k => Native.Store.core?_apply_of_isQuiet rfl s k)
      fun s => Native.Store.size_apply_of_isQuiet rfl s
  refine ⟨_, ?_, hverbose⟩
  unfold LpSolve.silence
  rw [Action.on_bind_of_ok (LpSolve.on_tell (h.compliant.grants _)),
    LpSolve.on_tell (houtput.compliant.grants _)]

/-- **An engine gets a problem of its own** when it is made. -/
theorem on_create (h : w.Compliant) (kind : EngineKind) :
    ∃ w', (create kind).on w = (.ok ⟨kind, some w.native.next, none⟩, w') ∧
      AddsProblem w w' (fresh kind) := by
  cases kind with
  | glpk =>
    refine ⟨w.after (.glpk (.create w.native.next)), ?_, addsProblem_of_push h rfl⟩
    unfold create Glpk.create
    simp only [Action.on_bind, Action.on_get, Action.on_call_of_compliant h, if_true, Action.on_pure]
  | lpsolve =>
    -- a new problem of lp_solve is silenced at once, one of GLPK is left as it is
    have hmake : AddsProblem w (w.after (.lpsolve (.create w.native.next))) (fresh .lpsolve) :=
      addsProblem_of_push h rfl
    obtain ⟨w', hon, hadds⟩ := addsProblem_silence hmake w.native.next
    refine ⟨w', ?_, hadds⟩
    unfold create LpSolve.create
    simp only [Action.on_bind, Action.on_get, Action.on_call_of_compliant h, if_true, Action.on_pure, hon]

/-- Copying a problem of GLPK gives it to the target. -/
theorem apply_glpkCopy {s : Native.Store} {n : Nat} {q : Glpk.Problem} (h : s.glpk? n = some q)
    (target : Nat) :
    s.apply (.glpk (.copy target n 1)) = s.modifyGlpk target fun _ => q := by
  unfold Native.Store.apply Native.Store.applyGlpk
  dsimp only
  rw [h]

/-- Copying a problem of lp_solve makes a new one. -/
theorem apply_lpsolveCopy {s : Native.Store} {n : Nat} {q : LpSolve.Problem}
    (h : s.lpsolve? n = some q) (target : Nat) :
    s.apply (.lpsolve (.copy target n)) =
      { s with problems := s.problems.push (.lpsolve q.duplicate) } := by
  unfold Native.Store.apply Native.Store.applyLpSolve
  dsimp only
  rw [h]

/-- GLPK copies into a problem that was just made. -/
private theorem addsProblem_glpkCopy (h : w.Compliant) {n : Nat} {q : Glpk.Problem}
    (hq : w.native.problem? n = some (.glpk q)) :
    AddsProblem w ((w.after (.glpk (.create w.native.next))).after (.glpk (.copy w.native.next n 1)))
      (.glpk q) := by
  have hn : n ≠ w.native.next :=
    Nat.ne_of_lt (Nat.lt_succ_of_le (Native.Store.le_size_of_problem?_eq_some hq))
  have hmake : w.native.apply (.glpk (.create w.native.next)) =
      { w.native with problems := w.native.problems.push (.glpk .fresh) } := rfl
  -- the problem that is copied is another one than the one just made
  have hcopy : (w.native.apply (.glpk (.create w.native.next))).apply
      (.glpk (.copy w.native.next n 1)) =
      (w.native.apply (.glpk (.create w.native.next))).modifyGlpk w.native.next fun _ => q := by
    have hfound : (w.native.apply (.glpk (.create w.native.next))).glpk? n = some q := by
      rw [Native.Store.glpk?, hmake, Native.Store.problem?_push, if_neg hn, hq]
    exact apply_glpkCopy hfound _
  have hnative : ((w.after (.glpk (.create w.native.next))).after
      (.glpk (.copy w.native.next n 1))).native =
        (w.native.apply (.glpk (.create w.native.next))).modifyGlpk w.native.next fun _ => q := hcopy
  refine ⟨h, rfl, rfl, rfl, rfl, fun k => ?_, ?_,
    (World.Extends.after w _).trans (World.Extends.after _ _)⟩
  · rw [hnative, Native.Store.modifyGlpk, Native.Store.core?, Native.Store.problem?_modify, hmake,
      Native.Store.problem?_push, Native.Store.problem?_push, if_pos rfl]
    split <;> rfl
  · rw [hnative, Native.Store.modifyGlpk, Native.Store.size_modify, hmake]
    simp

/-- **A copy of an engine** gets a problem with the same contents. -/
theorem on_copy (h : w.Compliant) {e : Engine} {n : Nat} {q : Native.Problem}
    (ho : e.Owns w.native n q) :
    ∃ w', e.copy.on w = (.ok ⟨e.kind, some w.native.next, none⟩, w') ∧ AddsProblem w w' q := by
  unfold copy
  rw [ho.problem]
  dsimp only
  cases hk : e.kind with
  -- an empty problem, filled by `glp_copy_prob`
  | glpk =>
    obtain ⟨q', rfl, -⟩ := ho.glpk? hk
    refine ⟨_, ?_, addsProblem_glpkCopy h ho.found⟩
    dsimp only
    unfold Glpk.copy Glpk.create
    simp only [Action.on_bind, Action.on_get, Action.on_call_of_compliant h, if_true, Action.on_pure]
    rw [Glpk.on_tell ((h.after _).grants _)]
  | lpsolve =>
    obtain ⟨q', rfl, hq'⟩ := ho.lpsolve? hk
    have hcopy : w.native.apply (.lpsolve (.copy w.native.next n)) =
        { w.native with problems := w.native.problems.push (.lpsolve q'.duplicate) } :=
      apply_lpsolveCopy hq' _
    -- `copy_lp` does not copy the hooks, which the core leaves out anyway
    have hmake : AddsProblem w (w.after (.lpsolve (.copy w.native.next n))) (.lpsolve q') := by
      have hdup := addsProblem_of_push h hcopy
      exact { hdup with cores := hdup.cores }
    obtain ⟨w', hon, hadds⟩ := addsProblem_silence hmake w.native.next
    refine ⟨w', ?_, hadds⟩
    dsimp only
    unfold LpSolve.copy
    simp only [Action.on_bind, Action.on_get, Action.on_call_of_compliant h, if_true, Action.on_pure, hon]

end Engine

/-! ## §3 New models -/

namespace Model

variable {w : World}

/-- With the model that is made for it, a problem that was added makes a model. -/
private theorem makes_of_push {w₁ : World} {q : Native.Problem} (h : Engine.AddsProblem w w₁ q)
    (model : Model) (hf : model.freed = false) (hn : model.engine.problem = some w.native.next)
    (hk : q.kind? = some model.engine.kind) :
    World.Makes w { w₁ with models := w₁.models.push model } model.core q.core where
  compliant := h.compliant
  script := h.script
  models k := by
    unfold World.modelCore? World.model?
    show (w₁.models.push model)[k]?.map _ = _
    rw [Array.getElem?_push, h.models]
    -- the new model comes last, the others keep their places
    split <;> rfl
  modelCount := by simp [h.models]
  cores := h.cores
  problemCount := h.problemCount
  extends_ := h.extends_
  unfreed := hf
  number := hn
  kind := by rw [Native.Problem.kind?_core]; exact hk
  steady := ⟨h.registry, h.clock⟩

/-- The core of a model that was just made. -/
def made (kind : EngineKind) (n : Nat) : Model := attached ⟨kind, some n, none⟩ .silent .standard

/-- The calls that name a new problem and give it its direction. -/
def namingCalls (e : Engine) (name : String) (d : Direction) : List Native.Call :=
  [match e.kind with
    | .glpk => .glpk (.setName e.number name)
    | .lpsolve => .lpsolve (.setName e.number name), e.directionCall d]

/-- Naming a problem and saying its sense concern one problem. -/
theorem isAbout_namingCalls (e : Engine) (name : String) (d : Direction) :
    ∀ c ∈ namingCalls e name d, c.IsAbout e.number := by
  intro c hc
  rcases List.mem_cons.mp hc with rfl | hc
  · cases e.kind <;> exact ⟨rfl, rfl⟩
  · rw [List.mem_singleton.mp hc]
    exact Engine.isAbout_directionCall e d

/-- Naming a new problem is refused without a trace, or it is done and the direction is given. -/
private theorem on_naming (h : w.Compliant) (e : Engine) (name : String) (d : Direction) :
    (∃ fault, (do e.checkName name; e.setName name; e.setDirection d : Action Unit).on w =
        (.error fault, w)) ∨
      (do e.checkName name; e.setName name; e.setDirection d : Action Unit).on w =
        (.ok (), w.afterAll (namingCalls e name d)) := by
  unfold Engine.setName Engine.checkName namingCalls
  -- only GLPK checks the name before it is set
  cases hk : e.kind with
  | glpk =>
    dsimp only
    cases hn : Glpk.checkName name with
    | error fault => exact Or.inl ⟨fault, Action.on_bind_of_error (Action.on_lift _ w) _⟩
    | ok =>
      refine Or.inr ?_
      rw [Action.on_bind_of_ok (Action.on_lift _ w), Action.on_bind, Action.on_bind,
        Action.on_lift]
      dsimp only
      rw [Glpk.on_tell (h.grants _)]
      dsimp only
      rw [Engine.on_setDirection (h.after _)]
      rfl
  | lpsolve =>
    refine Or.inr ?_
    dsimp only
    rw [Action.on_bind_of_ok (Action.on_pure _ w), Action.on_bind, Action.on_bind, Action.on_pure]
    dsimp only
    rw [LpSolve.on_tell (h.grants _)]
    dsimp only
    rw [Engine.on_setDirection (h.after _)]
    rfl

/-! ## §4 Freeing -/

def deleteCall (e : Engine) : Native.Call :=
  match e.kind with
  | .glpk => .glpk (.delete e.number)
  | .lpsolve => .lpsolve (.delete e.number)

theorem apply_deleteCall (e : Engine) (s : Native.Store) :
    s.apply (deleteCall e) = s.modify e.number fun _ => .deleted := by
  unfold deleteCall
  cases e.kind <;> rfl

/-- The state after an open model was freed. -/
def afterFree (w : World) (m : ModelId) (model : Model) : World :=
  ((w.after (deleteCall model.engine)).modifyModel m fun model' =>
    { model' with engine := { model.engine with problem := none }, freed := true }).log
      LogRecord.debug source "freed model"

theorem native_afterFree (w : World) (m : ModelId) (model : Model) :
    (afterFree w m model).native = w.native.modify model.engine.number fun _ => .deleted :=
  apply_deleteCall _ _

theorem calls_afterFree (w : World) (m : ModelId) (model : Model) :
    (afterFree w m model).calls = w.calls ++ [deleteCall model.engine].toArray := by
  simp [afterFree, World.after, World.modifyModel, World.log]

/-- Freeing an open model deletes its problem, if the library lets it. -/
theorem on_free {m : ModelId} {model : Model} (h : w.Grants (deleteCall model.engine).function)
    (hm : w.model? m = some model) (hf : model.freed = false) {n : Nat} (hp : model.engine.problem = some n) :
    (free m).on w = (.ok (), afterFree w m model) := by
  -- the engine deletes its problem and forgets the number
  have hdestroy : model.engine.destroy.on w =
      (.ok { model.engine with problem := none }, w.after (deleteCall model.engine)) := by
    have hnumber : model.engine.number = n := by simp [Engine.number, hp]
    unfold deleteCall at h ⊢
    unfold Engine.destroy
    rw [hp, hnumber]
    dsimp only
    cases hk : model.engine.kind with
    | glpk =>
      rw [hk] at h
      rw [Action.on_bind_of_ok (Glpk.on_tell h)]
      rfl
    | lpsolve =>
      rw [hk] at h
      rw [Action.on_bind_of_ok (LpSolve.on_tell h)]
      rfl
  unfold free
  rw [Action.on_bind_of_ok (Action.on_model_of_some hm)]
  simp only [hf, Bool.not_false, if_true]
  rw [Action.on_bind_of_ok hdestroy, Action.on_bind_of_ok (Action.on_updateModel _ _ _)]
  rfl

/-- Freeing an open model frees it. -/
theorem on_free_of_open (h : w.Compliant) {m : ModelId} {model : Model}
    (hm : w.model? m = some model) (hf : model.freed = false) {n : Nat} {q : Native.Problem}
    (ho : model.engine.Owns w.native n q) :
    ∃ w', (free m).on w = (.ok (), w') ∧ World.Frees w w' m n := by
  refine ⟨_, on_free (h.grants _) hm hf ho.problem, ?_⟩
  exact
    { compliant := h
      script := rfl
      -- whatever model was there, the one now there is marked as freed
      freed := by
        intro model' hm'
        obtain ⟨old, hold, rfl⟩ := Option.map_eq_some_iff.mp hm'
        have hold : (w.models.modify m _)[m]? = some old := hold
        rw [Array.getElem?_modify, if_pos rfl] at hold
        obtain ⟨older, -, rfl⟩ := Option.map_eq_some_iff.mp hold
        rfl
      models := by
        intro k hk
        show ((w.models.modify m _)[k]?).map _ = _
        rw [Array.getElem?_modify, if_neg (Ne.symm hk)]
        rfl
      vars := by
        show (((w.models.modify m _)[m]?).map _).map _ = ((w.models[m]?).map _).map _
        rw [Array.getElem?_modify, if_pos rfl]
        cases w.models[m]? <;> rfl
      modelCount := Array.size_modify ..
      cores := by
        intro k hk
        rw [native_afterFree, ho.number, Native.Store.core?, Native.Store.problem?_modify, if_neg hk]
        rfl
      problemCount := by
        rw [native_afterFree, Native.Store.size_modify]
      extends_ := World.Extends.after w _
      steady := ⟨rfl, rfl⟩ }

/-- Freeing what is not open changes nothing. -/
theorem on_free_of_closed {m : ModelId}
    (hclosed : ∀ model, w.model? m = some model → model.freed = true) :
    (free m).on w = (if (w.model? m).isSome then .ok () else .error .closed, w) := by
  unfold free
  rw [Action.on_bind, Action.on_model]
  cases hm : w.model? m with
  | none => rfl
  | some model => simp [hclosed model hm]

/-! ## §5 Making and copying -/

theorem on_add (model : Model) (w : World) :
    (add model).on w = (.ok w.models.size, { w with models := w.models.push model }) := rfl

/-- A fresh problem and a model around it, whatever is done with them next. -/
private theorem on_attach (hs : w.Sound) (kind : EngineKind) (printer : Printer) (parameters : Parameters) :
    let engine : Engine := ⟨kind, some w.native.next, none⟩
    ∃ w₁ q, World.Makes w w₁ (made kind w.native.next) (Engine.fresh kind) ∧
      w₁.model? w.models.size = some (attached engine printer parameters) ∧
      engine.Owns w₁.native w.native.next q ∧
      ∀ rest : Engine → ModelId → Action ModelId,
        (Engine.create kind >>= fun e => add (attached e printer parameters) >>= rest e).on w =
          (rest engine w.models.size).on w₁ := by
  intro engine
  obtain ⟨w₀, hcreate, hadds⟩ := Engine.on_create hs.compliant kind
  let w₁ : World := { w₀ with models := w₀.models.push (attached engine printer parameters) }
  have hsize : w₀.models.size = w.models.size := by rw [hadds.models]
  have hmakes : World.Makes w w₁ (made kind w.native.next) (Engine.fresh kind) := by
    have hpush := makes_of_push hadds (attached engine printer parameters) rfl rfl
      (Engine.kind?_fresh kind)
    rw [Engine.core_fresh] at hpush
    exact hpush
  have hm : w₁.model? w.models.size = some (attached engine printer parameters) := by
    show (w₀.models.push _)[w.models.size]? = _
    rw [← hsize, Array.getElem?_push, if_pos rfl]
  -- the new state is sound, so its new model owns a problem, which is the one just made
  obtain ⟨n, q, hholds, ho⟩ := (hmakes.sound hs).holds_of_model? hm rfl
  obtain rfl : n = w.native.next := Option.some.inj (hholds.number.symm.trans rfl)
  refine ⟨w₁, q, hmakes, hm, ho, fun rest => ?_⟩
  rw [Action.on_bind_of_ok hcreate, Action.on_bind_of_ok (on_add _ w₀), hsize]

private theorem on_freeingOnFault_of_ok {m : ModelId} {body : Action Unit} {w' : World}
    (h : body.on w = (.ok (), w')) : (freeingOnFault m body).on w = (.ok (), w') := by
  unfold freeingOnFault
  rw [Action.on_recovering, h]

/-- What fails without having done anything frees the model, and the fault stays. -/
private theorem on_freeingOnFault_of_error (hc : w.Compliant) {m : ModelId} {model : Model}
    (hm : w.model? m = some model) (hf : model.freed = false) {n : Nat} {q : Native.Problem}
    (ho : model.engine.Owns w.native n q) {body : Action Unit} {fault : Fault}
    (h : body.on w = (.error fault, w)) :
    ∃ w', (freeingOnFault m body).on w = (.error fault, w') ∧ World.Frees w w' m n := by
  obtain ⟨w', hfree, hfrees⟩ := on_free_of_open hc hm hf ho
  refine ⟨w', ?_, hfrees⟩
  unfold freeingOnFault
  rw [Action.on_recovering, h]
  dsimp only
  rw [Action.on_bind_of_ok hfree]
  rfl

/-- Naming a model edits its problem, and the entry in the log changes nothing more. -/
private theorem on_created (hc : w.Compliant) {m : ModelId} {model : Model} (hm : w.model? m = some model)
    {n : Nat} {q : Native.Problem} (ho : model.engine.Owns w.native n q) (name : String) (d : Direction) :
    ∃ w', (do
        Action.debug source ("created " ++ (← Action.model m).display)
        pure m : Action ModelId).on (w.afterAll (namingCalls model.engine name d)) = (.ok m, w') ∧
      World.Edits w w' m id n (namingCalls model.engine name d) ∧ w.Steady w' := by
  have hm' : (w.afterAll (namingCalls model.engine name d)).model? m = some model := by
    rw [World.afterAll_model?]
    exact hm
  -- naming the problem and setting its sense are calls about it alone
  have hedits := World.Edits.of_eq (m := m) (f := id) hc (fun _ => rfl)
    (ho.number ▸ isAbout_namingCalls model.engine name d)
  rw [World.modifyModel_id] at hedits
  refine ⟨_, ?_, hedits.andThen (World.Undisturbed.of_log hedits.compliant LogRecord.debug source
    ("created " ++ model.display)), World.afterAll_registry w _, World.afterAll_clock w _⟩
  rw [Action.on_bind_of_ok (Action.on_model_of_some hm'), Action.on_bind_of_ok (Action.on_debug _ _ _)]
  rfl

/-- Making a model once its settings are known. -/
private theorem on_make (hs : w.Sound) (name : String) (d : Direction) (draft : ModelDraft) (kind : EngineKind) :
    ∃ w₁, World.Makes w w₁ (made kind w.native.next) (Engine.fresh kind) ∧
      ((∃ fault w', (make name d draft kind).on w = (.error fault, w') ∧
          World.Frees w₁ w' w.models.size w.native.next) ∨
        ∃ w', (make name d draft kind).on w = (.ok w.models.size, w') ∧
          World.Edits w₁ w' w.models.size id w.native.next
            (namingCalls ⟨kind, some w.native.next, none⟩ name d) ∧ w₁.Steady w') := by
  obtain ⟨w₁, q, hmakes, hm, ho, hrest⟩ := on_attach hs kind draft.printer draft.parameters
  have hc : w₁.Compliant := hmakes.compliant
  have hmake := hrest fun engine m => do
    freeingOnFault m do
      engine.checkName name
      engine.setName name
      engine.setDirection d
    Action.debug source ("created " ++ (← Action.model m).display)
    pure m
  refine ⟨w₁, hmakes, ?_⟩
  rcases on_naming hc ⟨kind, some w.native.next, none⟩ name d with ⟨fault, hnaming⟩ | hnaming
  · -- the name is refused: the model is freed again
    obtain ⟨w', hfreeing, hfrees⟩ := on_freeingOnFault_of_error hc hm rfl ho hnaming
    exact Or.inl ⟨fault, w', hmake.trans (Action.on_bind_of_error hfreeing _), hfrees⟩
  · obtain ⟨w', hcreated, hends⟩ := on_created hc hm ho name d
    have hnamed := hmake.trans (Action.on_bind_of_ok (on_freeingOnFault_of_ok hnaming) _)
    exact Or.inr ⟨w', hnamed.trans hcreated, hends⟩

/-- How making a model ends. It is refused before anything was made, or for its name when the model has
been made, which is then freed again, or the model is there. -/
def Creation (w : World) (name : String) (d : Direction) (outcome : Except Fault ModelId × World) :
    Prop :=
  (∃ fault w', outcome = (.error fault, w') ∧ Idling w w') ∨
    (∃ fault w₁ w' kind n, outcome = (.error fault, w') ∧
      World.Makes w w₁ (made kind n) (Engine.fresh kind) ∧ World.Frees w₁ w' w.models.size n) ∨
    ∃ w₁ w' kind n, outcome = (.ok w.models.size, w') ∧
      World.Makes w w₁ (made kind n) (Engine.fresh kind) ∧
      World.Edits w₁ w' w.models.size id n (namingCalls ⟨kind, some n, none⟩ name d) ∧ w₁.Steady w'

/-- **Making a model**: every way in which it ends. -/
theorem create_cases (hs : w.Sound) (name : String) (direction : Datum)
    (options : List ModelOption) :
    (∃ fault, (create name direction options).on w = (.error fault, w)) ∨
      ∃ d, Choice.read direction = .ok d ∧
        Creation w name d ((create name direction options).on w) := by
  unfold create
  cases hd : (Choice.read direction : Except Fault Direction) with
  | error fault => exact Or.inl ⟨fault, rfl⟩
  | ok d =>
  refine Or.inr ⟨d, rfl, ?_⟩
  rw [Action.on_bind_of_ok (Action.on_lift _ w)]
  have hoptions := ModelDraft.loads_applyAll .standard options w (Idling.refl hs.compliant)
  rcases ha : (ModelDraft.standard.applyAll options).on w with ⟨fault | draft, w₁⟩
  · rw [ha] at hoptions
    exact Or.inl ⟨fault, w₁, Action.on_bind_of_error ha _, hoptions⟩
  rw [ha] at hoptions
  rw [Action.on_bind_of_ok ha]
  -- once the engine is chosen, the rest is the same for every way of choosing it
  have hrest (kind : EngineKind) {w₂ : World} (hidle : Idling w w₂) := by
    have hu := World.Undisturbed.of_idling hidle
    exact on_make (hu.sound hs) name d draft kind
  have hends (kind : EngineKind) {w₂ : World} (hidle : Idling w w₂) {outcome}
      (h : ∃ w₁, World.Makes w₂ w₁ (made kind w₂.native.next) (Engine.fresh kind) ∧
        ((∃ fault w', outcome = (.error fault, w') ∧
            World.Frees w₁ w' w₂.models.size w₂.native.next) ∨
          ∃ w', outcome = (.ok w₂.models.size, w') ∧
            World.Edits w₁ w' w₂.models.size id w₂.native.next
              (namingCalls ⟨kind, some w₂.native.next, none⟩ name d) ∧ w₁.Steady w')) :
      Creation w name d outcome := by
    have hu := World.Undisturbed.of_idling hidle
    obtain ⟨w₃, hmakes, hend⟩ := h
    rw [hu.modelCount] at hend
    rcases hend with ⟨fault, w', ho, hfrees⟩ | ⟨w', ho, hedits⟩
    · exact Or.inr (Or.inl ⟨fault, w₃, w', kind, _, ho, hmakes.before hidle, hfrees⟩)
    · exact Or.inr (Or.inr ⟨w₃, w', kind, _, ho, hmakes.before hidle, hedits⟩)
  cases draft.engine with
  | some kind => exact hends kind hoptions (hrest kind hoptions)
  | none =>
    have hselected := Action.loads_selectDefault w₁ hoptions
    rcases hsel : Action.selectDefault.on w₁ with ⟨fault | kind, w₂⟩
    · rw [hsel] at hselected
      exact Or.inl ⟨fault, w₂, Action.on_bind_of_error hsel _, hselected⟩
    · rw [hsel] at hselected
      dsimp only
      rw [Action.on_bind_of_ok hsel]
      exact hends kind hselected (hrest kind hselected)

/-- The core of a copy: its own problem, and variables of its own at the same positions. -/
def copied (model : Model) (m : ModelId) (n : Nat) : Model :=
  { model with
    engine := ⟨model.engine.kind, some n, none⟩
    vars := (List.range model.kinds.length).map fun i => ⟨m, Int.ofNat i⟩
    revision := 0 }

/-- Copying an open model is refused for its parameters, or makes a model with a copy of the problem. -/
theorem clone_cases (h : w.Compliant) {m : ModelId} {model : Model} (hm : w.model? m = some model)
    (hf : model.freed = false) {n : Nat} {q : Native.Problem} (ho : model.engine.Owns w.native n q) :
    (∃ fault, (clone m).on w = (.error fault, w)) ∨
      ∃ w', (clone m).on w = (.ok w.models.size, w') ∧
        World.Makes w w' (copied model.core w.models.size w.native.next) q.core := by
  unfold clone
  rw [Action.on_bind_of_ok (Action.on_openModel_of_open hm hf)]
  cases hp : model.parameters.copy with
  -- parameters that cannot be copied stop everything
  | error fault => exact Or.inl ⟨fault, rfl⟩
  | ok parameters =>
    right
    obtain ⟨w₁, hcopy, hadds⟩ := Engine.on_copy h ho
    rw [Action.on_bind_of_ok (Action.on_lift _ w), Action.on_bind_of_ok hcopy,
      Action.on_bind_of_ok (Action.on_get _), on_add, hadds.models]
    refine ⟨_, rfl, ?_⟩
    -- the copy of the problem is there; the new model owns it
    have hpush := makes_of_push hadds
      { model with
        engine := ⟨model.engine.kind, some w.native.next, none⟩
        parameters := parameters
        vars := (List.range model.kinds.length).map fun i => ⟨w.models.size, Int.ofNat i⟩
        revision := 0 } hf rfl ho.kind
    rw [hadds.models] at hpush
    exact hpush

/-- Setting parameters leaves the models and problems undisturbed. -/
theorem undisturbed_assignParameters (m : ModelId) (entries : List (String × Datum)) :
    Action.Preserves (fun w' => World.Undisturbed w w' ∧ w.Steady w') (assignParameters m entries) := by
  induction entries with
  | nil => exact Action.Preserves.pure _
  | cons entry rest ih =>
    obtain ⟨key, d⟩ := entry
    unfold assignParameters
    have hmodel : Action.Preserves (fun w' => World.Undisturbed w w' ∧ w.Steady w')
        (Action.model m) := fun w₁ h =>
      have hidle := Action.reads_model m w₁ (Idling.refl h.1.compliant)
      ⟨h.1.trans (World.Undisturbed.of_idling hidle), h.2.trans hidle.steady⟩
    refine Action.Preserves.bind hmodel fun model => ?_
    refine Action.Preserves.bind (Action.Preserves.lift _) fun p => ?_
    refine Action.Preserves.bind (Action.Preserves.change fun w₁ h =>
      ⟨h.1.trans ?_, ⟨h.2.registry, h.2.clock⟩⟩) fun _ => ih
    -- the parameters are no part of the core of a model
    exact { compliant := h.1.compliant
            script := rfl
            models := fun k => by
              unfold World.modelCore? World.model? World.modifyModel
              rw [Array.getElem?_modify]
              split
              · rw [Option.map_map]
                rfl
              · rfl
            modelCount := Array.size_modify ..
            cores := fun _ => rfl
            problemCount := rfl
            extends_ := World.Extends.refl w₁ }

end Model

end LinearProgram
