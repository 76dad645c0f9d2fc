import LinearProgram.Proofs.Twins.Session

/-!
# Copying and freeing twins

Copying a model and freeing it change who owns what, so twins have to be followed through them by hand. Here is
what both do, with nothing left out: `Model.on_clone` is an equation as `Model.on_free` is one. With them, a
matching operation of any sort on counterparts gives alike responses, makes the same calls up to the numbers of
the counterparts, and leaves counterparts (`Counterparts.respond`).
-/

namespace LinearProgram

open LinearProgram.Action

/-! ## §1 Calls and the problems they leave alone -/

namespace Native

/-- A call changes at most the problem that it names first. -/
theorem Store.problem?_apply_of_head? {c : Call} {k : Nat} (hc : c.problems.head? ≠ some k) {s : Store}
    (hk : k ≤ s.problems.size) : (s.apply c).problem? k = s.problem? k := by
  have hnext : k ≠ s.next := Nat.ne_of_lt (Nat.lt_succ_of_le hk)
  by_cases hlife : c.isLife = false
  · rw [problem?_apply_of_isLife_eq_false hlife, if_neg]
    rcases Call.problems_of_isLife_eq_false hlife with ⟨n, hn⟩ | hn
    · rw [hn] at hc ⊢
      exact fun hmem => hc (congrArg some (List.mem_singleton.mp hmem).symm)
    · simp [hn]
  · have hpush (q : Problem) : ({ s with problems := s.problems.push q } : Store).problem? k = s.problem? k := by
      rw [problem?_push, if_neg hnext]
    have hmodify {n : Nat} (hn : some n ≠ some k) (f : Problem → Problem) :
        (s.modify n f).problem? k = s.problem? k := by
      rw [problem?_modify, if_neg fun h => hn (congrArg some h.symm)]
    -- of the calls for the life of a problem, those that make one append it, and the others name theirs first
    rcases c with c | c <;> cases c <;> first | exact absurd rfl hlife | skip
    · exact hpush _
    · exact hmodify hc _
    · simp only [apply, applyGlpk]
      split
      · exact hmodify hc _
      · rfl
    · exact hpush _
    · exact hmodify hc _
    · simp only [apply, applyLpSolve]
      split
      · exact hpush _
      · rfl

/-- A call takes no problem away. -/
theorem Store.size_le_apply (s : Store) (c : Call) : s.problems.size ≤ (s.apply c).problems.size := by
  by_cases hlife : c.isLife = false
  · exact Nat.le_of_eq (size_apply_of_isLife_eq_false hlife s).symm
  · rcases c with c | c <;> cases c <;> first | exact absurd rfl hlife | skip
    all_goals simp only [apply, applyGlpk, applyLpSolve]
    all_goals (try split)
    all_goals simp [modifyGlpk, size_modify]

/-- Calls that work on other problems leave a problem as it is. -/
theorem Store.problem?_applyAll_of_head? {cs : List Call} {k : Nat}
    (hcs : ∀ c ∈ cs, c.problems.head? ≠ some k) {s : Store} (hk : k ≤ s.problems.size) :
    (cs.foldl apply s).problem? k = s.problem? k := by
  induction cs generalizing s with
  | nil => rfl
  | cons c rest ih =>
    have hrest := ih (fun d hd => hcs d (List.mem_cons_of_mem _ hd)) (Nat.le_trans hk (s.size_le_apply c))
    rw [List.foldl_cons, hrest, problem?_apply_of_head? (hcs c (List.mem_cons_self ..)) hk]

end Native

/-! ## §2 Copying -/

namespace Engine

/-- The calls that copy the problem of an engine to a new number. -/
def copyCalls (e : Engine) (target : Nat) : List Native.Call :=
  match e.kind with
  | .glpk => [.glpk (.create target), .glpk (.copy target e.number 1)]
  | .lpsolve =>
    [.lpsolve (.copy target e.number), .lpsolve (.setOutput target ""), .lpsolve (.setVerbosity target 0)]

theorem head?_copyCalls (e : Engine) (target : Nat) :
    ∀ c ∈ e.copyCalls target, c.problems.head? = some target := by
  unfold copyCalls
  cases e.kind <;> simp [Native.Call.problems, Glpk.Call.problems, LpSolve.Call.problems]

variable {w : World}

/-- A copy gets the next number, and these are the calls that make it. -/
theorem on_copyCalls (h : w.Compliant) {e : Engine} {p : Nat} (hp : e.problem = some p) :
    e.copy.on w = (.ok ⟨e.kind, some w.native.next, none⟩, w.afterAll (e.copyCalls w.native.next)) := by
  -- the engine has a problem, and calls are made with its number
  have hnumber : e.number = p := by simp [number, hp]
  unfold copy copyCalls
  rw [hp, hnumber]
  cases e.kind with
  | glpk =>
    dsimp only
    unfold Glpk.copy Glpk.create
    simp only [Action.on_bind, Action.on_get, Action.on_call_of_compliant h, if_true, Action.on_pure]
    rw [Glpk.on_tell ((h.after _).grants _)]
    rfl
  | lpsolve =>
    dsimp only
    unfold LpSolve.copy LpSolve.silence
    simp only [Action.on_bind, Action.on_get, Action.on_call_of_compliant h, if_true]
    rw [LpSolve.on_tell ((h.after _).grants _)]
    dsimp only
    rw [LpSolve.on_tell (((h.after _).after _).grants _)]
    rfl

end Engine

namespace Model

/-- The copy of a model, with parameters of its own: the model of number `k` with the problem `n`. -/
def twin (model : Model) (parameters : Parameters) (k : ModelId) (n : Nat) : Model :=
  { model with
    engine := ⟨model.engine.kind, some n, none⟩
    parameters := parameters
    vars := (List.range model.kinds.length).map fun i => ⟨k, Int.ofNat i⟩
    revision := 0 }

/-- The state after an open model was copied. -/
def afterClone (w : World) (model : Model) (parameters : Parameters) : World :=
  { w.afterAll (model.engine.copyCalls w.native.next) with
    models := w.models.push (model.twin parameters w.models.size w.native.next) }

variable {w : World}

/-- Copying an open model whose parameters can be copied. -/
theorem on_clone (h : w.Compliant) {m : ModelId} {model : Model} (hm : w.model? m = some model)
    (hf : model.freed = false) {n : Nat} (hn : model.engine.problem = some n) {parameters : Parameters}
    (hp : model.parameters.copy = .ok parameters) :
    (clone m).on w = (.ok w.models.size, afterClone w model parameters) := by
  unfold clone
  rw [on_bind_of_ok (on_openModel_of_open hm hf), hp, on_bind_of_ok (on_lift _ w),
    on_bind_of_ok (Engine.on_copyCalls h hn), on_bind_of_ok (on_get _), on_add, World.afterAll_models]
  rfl

/-- Copying fails for the parameters. -/
theorem on_clone_of_error {m : ModelId} {model : Model} (hm : w.model? m = some model)
    (hf : model.freed = false) {fault : Fault} (hp : model.parameters.copy = .error fault) :
    (clone m).on w = (.error fault, w) := by
  unfold clone
  rw [on_bind_of_ok (on_openModel_of_open hm hf), hp]
  rfl

/-- A closed model cannot be copied. -/
theorem on_clone_of_closed {m : ModelId} (h : ¬ w.Open m) : (clone m).on w = (.error .closed, w) := by
  unfold clone
  rcases on_openModel_cases m w with ⟨model, hm, hf, -⟩ | hon
  · exact absurd ⟨model, hm, hf⟩ h
  · rw [on_bind_of_error hon]

@[simp] theorem callsSince_afterClone (w : World) (model : Model) (parameters : Parameters) :
    w.callsSince (afterClone w model parameters) = model.engine.copyCalls w.native.next :=
  World.callsSince_of_calls _ (World.afterAll_calls w _)

/-- There is one problem more. -/
theorem size_afterClone (hs : w.Sound) {m : ModelId} {model : Model} (hm : w.model? m = some model)
    (hf : model.freed = false) (parameters : Parameters) :
    (afterClone w model parameters).native.problems.size = w.native.problems.size + 1 := by
  obtain ⟨n, q, -, ho⟩ := hs.holds_of_model? hm hf
  obtain ⟨w', hcopy, hadds⟩ := Engine.on_copy hs.compliant ho
  rw [Engine.on_copyCalls hs.compliant ho.problem] at hcopy
  cases hcopy
  exact hadds.problemCount

/-- The models that were there stay. -/
theorem model?_afterClone (model : Model) (parameters : Parameters) {k : ModelId} (hk : k < w.models.size) :
    (afterClone w model parameters).model? k = w.model? k := by
  show (w.models.push _)[k]? = w.models[k]?
  rw [Array.getElem?_push, if_neg (Nat.ne_of_lt hk)]

/-- The clone comes after them. -/
theorem model?_afterClone_new (model : Model) (parameters : Parameters) :
    (afterClone w model parameters).model? w.models.size =
      some (model.twin parameters w.models.size w.native.next) := by
  show (w.models.push _)[w.models.size]? = _
  rw [Array.getElem?_push, if_pos rfl]

/-- The problems that were there stay. -/
theorem problem?_afterClone (model : Model) (parameters : Parameters) {k : Nat}
    (hk : k ≤ w.native.problems.size) :
    (afterClone w model parameters).native.problem? k = w.native.problem? k := by
  -- the copy takes the next number, which no older problem has
  have hnext : w.native.next ≠ k := Nat.ne_of_gt (Nat.lt_succ_of_le hk)
  show (w.afterAll _).native.problem? k = _
  rw [World.afterAll_native]
  refine Native.Store.problem?_applyAll_of_head? (fun c hc => ?_) hk
  rw [Engine.head?_copyCalls _ _ c hc]
  exact fun heq => hnext (Option.some.inj heq)

end Model

/-! ## §3 Counterparts -/

/-- The model `m` of one state and its problem `n` are alike to the model `m'` of another state and its problem
`n'`, and the count of changes of `m` is ahead by `shift`. -/
structure Counterparts (m m' : ModelId) (n n' shift : Nat) (w w' : World) : Prop where
  alike : w.Alike (.single m m' n n' shift) w'
  left : w.Sound
  right : w'.Sound

/-- As many models and as many problems. -/
def World.SameSize (w w' : World) : Prop :=
  w.models.size = w'.models.size ∧ w.native.problems.size = w'.native.problems.size

def renumber (n n' k : Nat) : Nat := if k = n then n' else k

/-- The number of an engine is that of a problem that exists. -/
theorem World.Sound.problem_of_number {w : World} (hs : w.Sound) {m : ModelId} {model : Model} {n : Nat}
    (hm : w.model? m = some model) (hf : model.freed = false) (hn : model.engine.number = n) :
    model.engine.problem = some n ∧ n ≤ w.native.problems.size := by
  obtain ⟨k, q, -, ho⟩ := hs.holds_of_model? hm hf
  obtain rfl : k = n := ho.number.symm.trans hn
  exact ⟨ho.problem, Native.Store.le_size_of_problem?_eq_some ho.found⟩

theorem World.lt_size_of_model? {w : World} {m : ModelId} {model : Model} (h : w.model? m = some model) :
    m < w.models.size := (Array.getElem?_eq_some_iff.mp h).1

namespace Counterparts

variable {m m' : ModelId} {n n' shift : Nat} {w w' : World}

/-- What counterparts that are open look like. -/
structure Opened (m m' : ModelId) (n n' shift : Nat) (w w' : World) (x x' : Model) : Prop where
  left : w.model? m = some x
  right : w'.model? m' = some x'
  unfreed : x.freed = false
  unfreed' : x'.freed = false
  alike : x.Alike (.single m m' n n' shift) x'
  number : x.engine.number = n
  number' : x'.engine.number = n'
  problem : x.engine.problem = some n
  problem' : x'.engine.problem = some n'
  bound : n ≤ w.native.problems.size
  bound' : n' ≤ w'.native.problems.size

/-- Both models are there or neither, and they are alike. -/
theorem models_rel (h : Counterparts m m' n n' shift w w') :
    Option.Rel (Model.Alike (.single m m' n n' shift)) (w.model? m) (w'.model? m') := h.alike.models ⟨rfl, rfl⟩

/-- Counterparts are open together. -/
theorem closed_or_opened (h : Counterparts m m' n n' shift w w') :
    (¬ w.Open m ∧ ¬ w'.Open m') ∨ ∃ x x', Opened m m' n n' shift w w' x x' := by
  have hmodels := h.models_rel
  rcases hx : w.model? m with _ | x <;> rcases hx' : w'.model? m' with _ | x' <;> rw [hx, hx'] at hmodels
  · exact .inl ⟨fun ⟨_, h, _⟩ => by simp [hx] at h, fun ⟨_, h, _⟩ => by simp [hx'] at h⟩
  · cases hmodels
  · cases hmodels
  · cases hmodels with
    | some halike =>
      -- alike models were freed both or neither
      cases hf : x.freed with
      | true =>
        have hf' : x'.freed = true := halike.freed.symm.trans hf
        refine .inl ⟨?_, ?_⟩
        · rintro ⟨y, hy, hopen⟩
          cases hx.symm.trans hy
          cases hf.symm.trans hopen
        · rintro ⟨y, hy, hopen⟩
          cases hx'.symm.trans hy
          cases hf'.symm.trans hopen
      | false =>
        have hf' : x'.freed = false := halike.freed.symm.trans hf
        obtain ⟨hn, hn'⟩ := (halike.engine hf).number
        obtain ⟨hp, hb⟩ := h.left.problem_of_number hx hf hn
        obtain ⟨hp', hb'⟩ := h.right.problem_of_number hx' hf' hn'
        exact .inr ⟨x, x', hx, hx', hf, hf', halike, hn, hn', hp, hp', hb, hb'⟩

/-- How matching operations end on counterparts. -/
structure Ends (m m' : ModelId) (n n' shift : Nat) (w w' : World)
    (end_ end_' : Except Fault Response × World) : Prop where
  response : Agree (Response.Alike (.single m m' n n' shift)) end_.1 end_'.1
  alike : end_.2.Alike (.single m m' n n' shift) end_'.2
  calls : w.SameSize w' → end_.2.SameSize end_'.2 ∧
    w'.callsSince end_'.2 = (w.callsSince end_.2).map (·.rename (renumber n n'))

/-- Nothing happens to either. -/
private theorem Ends.idle (h : Counterparts m m' n n' shift w w') {a a' : Except Fault Response}
    (ha : Agree (Response.Alike (.single m m' n n' shift)) a a') : Ends m m' n n' shift w w' (a, w) (a', w') where
  response := ha
  alike := h.alike
  calls hsize := ⟨hsize, by simp⟩

/-- Calls about paired problems are the same up to the number. -/
private theorem eq_rename {c c' : Native.Call} (h : c.Alike (.single m m' n n' shift) c') :
    c' = c.rename (renumber n n') := by
  -- every problem named by the one call is `n`, every one named by the other `n'`
  have hn : ∀ k ∈ c.problems, n' = renumber n n' k := forall_left h.problems fun k _ hk => (if_pos hk.1).symm
  have hn' : ∀ k ∈ c'.problems, n' = k := forall_left h.problems.flip fun k _ hk => hk.2.symm
  calc c' = c'.rename fun _ => n' := (Native.Call.rename_eq_self hn').symm
    _ = (c'.rename fun _ => 0).rename fun _ => n' := (Native.Call.rename_rename (fun _ => 0) (fun _ => n') c').symm
    _ = (c.rename fun _ => 0).rename fun _ => n' := by rw [h.body]
    _ = c.rename fun _ => n' := Native.Call.rename_rename (fun _ => 0) (fun _ => n') c
    _ = c.rename (renumber n n') := Native.Call.rename_congr hn

/-- Lists of calls that are alike differ in the number of the problem only. -/
private theorem map_rename {cs cs' : List Native.Call}
    (h : List.Forall₂ (Native.Call.Alike (.single m m' n n' shift)) cs cs') :
    cs' = cs.map (·.rename (renumber n n')) := by
  induction h with
  | nil => rfl
  | cons hc _ ih => rw [List.map_cons, ← eq_rename hc, ← ih]

/-- What neither makes nor frees a model. -/
private theorem ends_of_twins {o o' : Operation} (h : Counterparts m m' n n' shift w w')
    (ho : o.Matches (.single m m' n n' shift) o') (hlife : o.isLife = false) :
    Ends m m' n n' shift w w' (o.respond.on w) (o'.respond.on w') := by
  obtain ⟨hresponse, htwins⟩ := ho.alike hlife w w' (Twins.start h.alike)
  refine ⟨hresponse, htwins.alike, fun hsize => ⟨⟨?_, ?_⟩, map_rename htwins.calls⟩⟩
  · rw [htwins.left.modelCount, htwins.right.modelCount, hsize.1]
  · rw [htwins.left.problemCount, htwins.right.problemCount, hsize.2]

/-- The counterparts have been freed. -/
private theorem alike_afterFree (h : Counterparts m m' n n' shift w w') {x x' : Model}
    (ho : Opened m m' n n' shift w w' x x') :
    (Model.afterFree w m x).Alike (.single m m' n n' shift) (Model.afterFree w' m' x') where
  clock := h.alike.clock
  contexts := h.alike.contexts
  script := h.alike.script
  surroundings := h.alike.surroundings
  allowance := h.alike.allowance
  registry := h.alike.registry
  models := by
    rintro a a' ⟨rfl, rfl⟩
    have hx : w.models[a]? = some x := ho.left
    have hx' : w'.models[a']? = some x' := ho.right
    show Option.Rel _ ((w.models.modify a _)[a]?) ((w'.models.modify a' _)[a']?)
    rw [Array.getElem?_modify, Array.getElem?_modify, if_pos rfl, if_pos rfl, hx, hx']
    have halike := ho.alike
    -- the engine of a freed model is not compared
    exact .some
      { engine := fun hf => by cases hf
        freed := rfl
        parameters := halike.parameters
        kinds := halike.kinds
        vars := halike.vars
        names := halike.names
        entries := halike.entries
        constraintCount := halike.constraintCount
        revision := halike.revision }
  problems := by
    rintro k k' ⟨rfl, rfl⟩
    have hmuted : w.native.muted? k = w'.native.muted? k' := h.alike.problems ⟨rfl, rfl⟩
    unfold Native.Store.muted? at hmuted ⊢
    rw [Model.native_afterFree, Model.native_afterFree, ho.number, ho.number',
      Native.Store.problem?_modify, Native.Store.problem?_modify, if_pos rfl, if_pos rfl]
    have hgone := congrArg (Option.map fun _ => Native.Problem.deleted) hmuted
    simpa [Option.map_map, Function.comp_def, Native.Problem.muted] using hgone

/-- The counterparts have been copied. -/
private theorem alike_afterClone (h : Counterparts m m' n n' shift w w') {x x' : Model}
    (ho : Opened m m' n n' shift w w' x x') (parameters : Parameters) :
    (Model.afterClone w x parameters).Alike (.single m m' n n' shift) (Model.afterClone w' x' parameters) := by
  have hm := World.lt_size_of_model? ho.left
  have hm' := World.lt_size_of_model? ho.right
  -- cloning adds a model and a problem; the paired ones are as before
  have hmodels : ∀ {a a' : ModelId}, a = m ∧ a' = m' →
      Option.Rel (Model.Alike (.single m m' n n' shift)) ((Model.afterClone w x parameters).model? a)
        ((Model.afterClone w' x' parameters).model? a') := by
    rintro a a' ⟨rfl, rfl⟩
    rw [Model.model?_afterClone x parameters hm, Model.model?_afterClone x' parameters hm']
    exact h.alike.models ⟨rfl, rfl⟩
  have hproblems : ∀ {k k' : Nat}, k = n ∧ k' = n' → (Model.afterClone w x parameters).native.muted? k =
      (Model.afterClone w' x' parameters).native.muted? k' := by
    rintro k k' ⟨rfl, rfl⟩
    unfold Native.Store.muted?
    rw [Model.problem?_afterClone x parameters ho.bound, Model.problem?_afterClone x' parameters ho.bound']
    exact h.alike.problems ⟨rfl, rfl⟩
  unfold Model.afterClone at hmodels hproblems ⊢
  rw [World.afterAll_eq, World.afterAll_eq] at hmodels hproblems ⊢
  exact { h.alike with models := hmodels, problems := hproblems }

/-- Freeing both. -/
private theorem ends_free (h : Counterparts m m' n n' shift w w') :
    Ends m m' n n' shift w w' ((Operation.free m).respond.on w) ((Operation.free m').respond.on w') := by
  unfold Operation.respond Operation.run
  rw [on_map, on_map, on_map, on_map]
  rcases h.closed_or_opened with ⟨hclosed, hclosed'⟩ | ⟨x, x', ho⟩
  · have hsome : (w.model? m).isSome = (w'.model? m').isSome := by
      have hmodels := h.models_rel
      rcases hx : w.model? m with _ | x <;> rcases hx' : w'.model? m' with _ | x' <;> rw [hx, hx'] at hmodels
      · cases hmodels
      · cases hmodels
      · rfl
    rw [Model.on_free_of_closed fun _ => World.freed_of_not_open hclosed,
      Model.on_free_of_closed fun _ => World.freed_of_not_open hclosed', hsome]
    refine Ends.idle h ?_
    cases (w'.model? m').isSome with
    | true => exact .ok (.answer .done)
    | false => exact .error _
  · rw [Model.on_free (h.left.compliant.grants _) ho.left ho.unfreed ho.problem,
      Model.on_free (h.right.compliant.grants _) ho.right ho.unfreed' ho.problem']
    refine ⟨.ok (.answer .done), alike_afterFree h ho, fun hsize => ⟨⟨?_, ?_⟩, ?_⟩⟩
    · show (w.models.modify m _).size = (w'.models.modify m' _).size
      rw [Array.size_modify, Array.size_modify, hsize.1]
    · show (Model.afterFree w m x).native.problems.size = (Model.afterFree w' m' x').native.problems.size
      rw [Model.native_afterFree, Model.native_afterFree, Native.Store.size_modify, Native.Store.size_modify,
        hsize.2]
    · have hcalls : w.callsSince (Model.afterFree w m x) = [Model.deleteCall x.engine] :=
        World.callsSince_of_calls _ (Model.calls_afterFree ..)
      -- the only call of each is the one that deletes, and it names the own problem
      have hcalls' : w'.callsSince (Model.afterFree w' m' x') = [Model.deleteCall x'.engine] :=
        World.callsSince_of_calls _ (Model.calls_afterFree ..)
      show w'.callsSince (Model.afterFree w' m' x') = (w.callsSince (Model.afterFree w m x)).map _
      rw [hcalls, hcalls', List.map_singleton]
      unfold Model.deleteCall
      rw [ho.number, ho.number', ← (ho.alike.engine ho.unfreed).kind]
      cases x.engine.kind <;>
        simp [Native.Call.rename, Glpk.Call.rename, LpSolve.Call.rename, renumber]

/-- Copying both. -/
private theorem ends_clone (h : Counterparts m m' n n' shift w w') :
    Ends m m' n n' shift w w' ((Operation.clone m).respond.on w) ((Operation.clone m').respond.on w') := by
  unfold Operation.respond Operation.run
  rw [on_map, on_map, on_map, on_map]
  rcases h.closed_or_opened with ⟨hclosed, hclosed'⟩ | ⟨x, x', ho⟩
  · rw [Model.on_clone_of_closed hclosed, Model.on_clone_of_closed hclosed']
    exact Ends.idle h (.error _)
  have hkind := (ho.alike.engine ho.unfreed).kind
  cases hp : x.parameters.copy with
  | error fault =>
    rw [Model.on_clone_of_error ho.left ho.unfreed hp,
      Model.on_clone_of_error ho.right ho.unfreed' (ho.alike.parameters ▸ hp)]
    exact Ends.idle h (.error _)
  | ok parameters =>
    rw [Model.on_clone h.left.compliant ho.left ho.unfreed ho.problem hp,
      Model.on_clone h.right.compliant ho.right ho.unfreed' ho.problem' (ho.alike.parameters ▸ hp)]
    refine ⟨.ok (.answer (.model _ _)), alike_afterClone h ho parameters, fun hsize => ⟨⟨?_, ?_⟩, ?_⟩⟩
    · show (w.models.push _).size = (w'.models.push _).size
      rw [Array.size_push, Array.size_push, hsize.1]
    · show (Model.afterClone w x parameters).native.problems.size =
        (Model.afterClone w' x' parameters).native.problems.size
      rw [Model.size_afterClone h.left ho.left ho.unfreed, Model.size_afterClone h.right ho.right ho.unfreed',
        hsize.2]
    · show w'.callsSince (Model.afterClone w' x' parameters) =
        (w.callsSince (Model.afterClone w x parameters)).map _
      -- with equally many problems, the copies get the same number
      have hnext : w'.native.next = w.native.next := congrArg (· + 1) hsize.2.symm
      have hfresh : w.native.next ≠ n := Nat.ne_of_gt (Nat.lt_succ_of_le ho.bound)
      rw [Model.callsSince_afterClone, Model.callsSince_afterClone, hnext]
      unfold Engine.copyCalls
      rw [ho.number, ho.number', ← hkind]
      cases x.engine.kind <;>
        simp [Native.Call.rename, Glpk.Call.rename, LpSolve.Call.rename, renumber, hfresh]

/-- **Operations on counterparts**: they give alike responses, make the same calls up to the number of the
problem, and leave counterparts. -/
theorem respond (h : Counterparts m m' n n' shift w w') {o o' : Operation}
    (ho : o.Matches (.single m m' n n' shift) o') :
    Ends m m' n n' shift w w' (o.respond.on w) (o'.respond.on w') ∧
      Counterparts m m' n n' shift (w.next o) (w'.next o') := by
  have hends : Ends m m' n n' shift w w' (o.respond.on w) (o'.respond.on w') := by
    -- an operation that makes or deletes no problem is followed step by step
    cases hlife : o.isLife with
    | false => exact ends_of_twins h ho hlife
    | true =>
      cases ho with
      | clone hm =>
        obtain ⟨rfl, rfl⟩ := hm
        exact ends_clone h
      | free hm =>
        obtain ⟨rfl, rfl⟩ := hm
        exact ends_free h
      | _ => cases hlife
  have halike := hends.alike
  rw [Operation.on_respond_snd, Operation.on_respond_snd] at halike
  exact ⟨hends, halike, World.sound_next h.left o, World.sound_next h.right o'⟩

end Counterparts

end LinearProgram
