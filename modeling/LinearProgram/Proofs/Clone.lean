import LinearProgram.Proofs.Lifetime
import LinearProgram.Proofs.Shape
import LinearProgram.Proofs.Solve.AtRest
import LinearProgram.Proofs.Twins.Life

/-!
# Clones

A clone is as good as its original. Right after the copying, the two are counterparts: they hold alike records
and alike problems, and there is nothing else that their operations depend on. So whatever is done to the clone
goes as it would go on the original, and since neither holds anything of the other, what is done to the one does
not show at the other.
-/

namespace LinearProgram

open LinearProgram.Action

/-! ## §1 Copying parameters -/

namespace Parameters

/-- Whether the set holds the three documented fields, with a method for the third, and nothing else. -/
def isDocumented : Parameters → Bool
  | ⟨some _, some _, some (.method _), []⟩ => true
  | _ => false

/-- Such a set is copied as it is. -/
theorem copy_of_isDocumented {p : Parameters} (h : p.isDocumented = true) : p.copy = .ok p := by
  unfold isDocumented at h
  split at h
  case h_2 => cases h
  rename_i verbose presolve method
  -- the name of a method is read back as the method
  have hmethod := Choice.read_name (Choice.ofName?_name_method method)
  show ofEntries [("verbose", verbose), ("presolve", presolve), ("method", .text (Choice.name method))] = _
  simp [ofEntries, assignAll, assign, knows, standard, put, hmethod]
  rfl

end Parameters

/-! ## §2 Right after the copying -/

namespace Model

variable {w : World}

/-- The problem of a clone is that of the original, but for what decides about messages. -/
theorem muted?_afterClone (hs : w.Sound) (hrest : w.AtRest) {m : ModelId} {model : Model}
    (hm : w.model? m = some model)
    (hf : model.freed = false) {n : Nat} (hn : model.engine.problem = some n) (parameters : Parameters) :
    (afterClone w model parameters).native.muted? w.native.next = w.native.muted? n := by
  obtain ⟨k, q, -, ho⟩ := hs.holds_of_model? hm hf
  obtain rfl : k = n := Option.some.inj (ho.problem.symm.trans hn)
  have hhooks : q.hooks = (none, none) := by
    have hbare := (World.unhooked_iff.mp hrest.unhooked).1.2 k
    rw [Native.Store.hooks, ho.found] at hbare
    exact hbare
  have hnext : k ≠ w.native.next :=
    Nat.ne_of_lt (Nat.lt_succ_of_le (Native.Store.le_size_of_problem?_eq_some ho.found))
  show (w.afterAll (model.engine.copyCalls w.native.next)).native.muted? w.native.next = _
  rw [World.afterAll_native, Native.Store.muted?, Native.Store.muted?, ho.found]
  unfold Engine.copyCalls
  rw [ho.number]
  -- GLPK is told about the copy alone; on lp_solve the log and the verbosity are set after it
  cases hk : model.engine.kind with
  | glpk =>
    obtain ⟨q', rfl, hq'⟩ := ho.glpk? hk
    let s : Native.Store := w.native.apply (.glpk (.create w.native.next))
    have hnew (k : Nat) : s.problem? k = if k = w.native.next then some (.glpk .fresh) else w.native.problem? k :=
      Native.Store.problem?_push w.native _ _ k
    have hold : s.glpk? k = some q' := by rw [Native.Store.glpk?, hnew, if_neg hnext, ho.found]
    show ((s.apply (.glpk (.copy w.native.next k 1))).problem? w.native.next).map _ = _
    rw [Engine.apply_glpkCopy hold, Native.Store.modifyGlpk, Native.Store.problem?_modify, if_pos rfl, hnew,
      if_pos rfl]
    rfl
  | lpsolve =>
    obtain ⟨q', rfl, hq'⟩ := ho.lpsolve? hk
    have habort : q'.abortHook = none := congrArg Prod.snd hhooks
    have habout : ∀ c ∈ [Native.Call.lpsolve (.setOutput w.native.next ""),
        .lpsolve (.setVerbosity w.native.next 0)], c.IsAbout w.native.next :=
      List.forall_mem_cons.mpr ⟨⟨rfl, rfl⟩, List.forall_mem_cons.mpr ⟨⟨rfl, rfl⟩, by simp⟩⟩
    show (([Native.Call.lpsolve (.setOutput w.native.next ""), .lpsolve (.setVerbosity w.native.next 0)].foldl
      Native.Store.apply (w.native.apply (.lpsolve (.copy w.native.next k)))).problem? w.native.next).map _ = _
    rw [Native.Store.problem?_applyAll habout, if_pos rfl, Engine.apply_lpsolveCopy hq',
      Native.Store.problem?_push, if_pos rfl]
    simp [Native.Problem.apply, Native.Problem.muted, LpSolve.Problem.muted, LpSolve.Problem.apply,
      LpSolve.Problem.duplicate, habort]

/-- **A clone and its original are counterparts.** -/
theorem counterparts_afterClone (hs : w.Sound) (hrest : w.AtRest) (haligned : w.Aligned) {m : ModelId}
    {model : Model} (hm : w.model? m = some model) (hf : model.freed = false) {n : Nat}
    (hn : model.engine.problem = some n) (hdoc : model.parameters.isDocumented = true) :
    Counterparts m w.models.size n w.native.next model.revision (w.next (.clone m)) (w.next (.clone m)) := by
  have hsound := World.sound_next hs (.clone m)
  have hnext : w.next (.clone m) = afterClone w model model.parameters := by
    unfold World.next Operation.run
    rw [on_map, on_clone hs.compliant hm hf hn (Parameters.copy_of_isDocumented hdoc)]
  rw [hnext] at hsound ⊢
  refine ⟨?_, hsound, hsound⟩
  have hlt := World.lt_size_of_model? hm
  have hle : n ≤ w.native.problems.size := by
    refine (hs.problem_of_number hm hf ?_).2
    simp [Engine.number, hn]
  exact
    { clock := rfl
      contexts := rfl
      script := rfl
      surroundings := rfl
      allowance := rfl
      registry := rfl
      models := by
        rintro a a' ⟨rfl, rfl⟩
        rw [model?_afterClone _ _ hlt, hm, model?_afterClone_new]
        refine .some
          { engine := fun _ => ⟨rfl, ⟨by simp [Engine.number, hn], rfl⟩, hrest.abort_eq_none hm⟩
            freed := rfl
            parameters := rfl
            kinds := rfl
            vars := ?_
            names := rfl
            entries := rfl
            constraintCount := rfl
            revision := (Nat.zero_add _).symm }
        obtain ⟨k, q, hholds, -⟩ := hs.holds_of_model? hm hf
        have hal := haligned hholds
        -- the variables are numbered from zero in both models
        have hvars : model.vars = newVariables a 0 model.kinds.length := by
          have hkinds : model.kinds.length = q.core.columnCount := hal.kinds
          rw [hkinds]
          exact hal.vars
        rw [hvars]
        show List.Forall₂ _ ((List.range _).map _) ((List.range _).map _)
        rw [List.forall₂_map_left_iff, List.forall₂_map_right_iff]
        refine List.forall₂_same.mpr fun i _ => ⟨⟨rfl, rfl⟩, ?_⟩
        simp
      problems := by
        rintro k k' ⟨rfl, rfl⟩
        rw [muted?_afterClone hs hrest hm hf hn, Native.Store.muted?, problem?_afterClone _ _ hle,
          Native.Store.muted?] }

end Model

/-! ## §3 The same on the clone -/

namespace World

def exchange (w : World) (o : Operation) : Except Fault Response × List Native.Call :=
  ((o.respond.on w).1, w.callsSince (w.next o))

/-- What operations give back, in order, each with its calls. -/
def exchanges (w : World) : List Operation → List (Except Fault Response × List Native.Call)
  | [] => []
  | o :: rest => w.exchange o :: (w.next o).exchanges rest

end World

/-- The responses are alike, and the calls are the same up to the number of the problem. -/
def Echoes (m m' : ModelId) (n n' shift : Nat) (x x' : Except Fault Response × List Native.Call) : Prop :=
  Agree (Response.Alike (.single m m' n n' shift)) x.1 x'.1 ∧ x'.2 = x.2.map (·.rename (renumber n n'))

/-- Sequences of matching operations on counterparts. -/
theorem Counterparts.exchanges {m m' : ModelId} {n n' shift : Nat} {w w' : World}
    (h : Counterparts m m' n n' shift w w') (hsize : w.SameSize w') {os os' : List Operation}
    (hos : List.Forall₂ (Operation.Matches (.single m m' n n' shift)) os os') :
    List.Forall₂ (Echoes m m' n n' shift) (w.exchanges os) (w'.exchanges os') := by
  induction hos generalizing w w' with
  | nil => exact .nil
  | @cons o o' os os' ho _ ih =>
    obtain ⟨hends, hnext⟩ := h.respond ho
    obtain ⟨hsize', hcalls⟩ := hends.calls hsize
    -- exchanges are told by answers, `Counterparts` by the worlds that are left
    rw [Operation.on_respond_snd, Operation.on_respond_snd] at hsize' hcalls
    exact .cons ⟨hends.response, hcalls⟩ (ih hnext hsize')

/-! ## §4 The two side by side -/

def Inquiry.subject : Inquiry → ModelId
  | modelValid m | modelName m | direction m | variableCount m | constraintCount m | variableList m | matrix m => m
  | variableName v | kind v | bounds v | coefficient v | variableText v => v.model
  | resultValid r | value r _ | reducedCost r _ | objective r | values r | solution r | resultText r | report r =>
    r.model

/-- The model that an operation works on, if there is one already. -/
def Operation.about? : Operation → Option ModelId
  | create .. | meanwhile _ => none
  | clone m | free m | addVariable m .. | addVariables m .. | addConstraint m .. | setObjective m ..
  | setDirection m _ | setParameters m _ | solve m _ | solveWithContext m .. => some m
  | setKind v _ | setBounds v .. | setCoefficient v _ => some v.model
  | inquire i => some i.subject

namespace World

/-- What surrounds the models. -/
def circumstances (w : World) : Interlude := ⟨w.clock, w.contexts, w.registry, w.surroundings, w.script⟩

/-- What the operations on one model give back. -/
def responsesOf (m : ModelId) (w : World) : List Operation → List (Except Fault Response)
  | [] => []
  | o :: rest =>
    let others := responsesOf m (w.next o) rest
    if o.about? = some m then (o.respond.on w).1 :: others else others

theorem responsesOf_meanwhile (m : ModelId) (w : World) (i : Interlude) (os : List Operation) :
    w.responsesOf m (.meanwhile i :: os) = (w.next (.meanwhile i)).responsesOf m os := by
  have hnone : (Operation.meanwhile i).about? ≠ some m := nofun
  rw [responsesOf, if_neg hnone]

/-- The operations on one model alone, each in the circumstances in which it is performed among all. -/
def excerpt (m : ModelId) (w : World) : List Operation → List Operation
  | [] => []
  | o :: rest =>
    let others := excerpt m (w.next o) rest
    if o.about? = some m then .meanwhile w.circumstances :: o :: others else others

end World

section

variable {m k : ModelId} {n j shift : Nat} {w w' u : World}

/-- An inquiry that matches itself is about the model in question. -/
theorem Inquiry.Matches.subject {i : Inquiry} (h : i.Matches (.single m m n n shift) i) : i.subject = m := by
  cases h with
  | variableName h | kind h | bounds h | coefficient h | variableText h => exact h.model.1
  | resultValid h | value h | reducedCost h | objective h | values h | solution h | resultText h | report h =>
    exact h.model.1
  | modelValid h | modelName h | direction h | variableCount h | constraintCount h | variableList h | matrix h =>
    exact h.1

/-- An operation that keeps to one model works on it, or is none. -/
theorem Operation.Matches.about? {o : Operation} (h : o.Matches (.single m m n n shift) o) :
    o.about? = some m ∨ ∃ i, o = .meanwhile i := by
  cases h with
  | meanwhile i => exact .inr ⟨i, rfl⟩
  | inquire h => exact .inl (congrArg some h.subject)
  | setKind h | setBounds h | setCoefficient h => exact .inl (congrArg some h.model.1)
  | clone h | free h | addVariable h | addVariables h | addConstraint h | setObjective h | setDirection h
  | setParameters h | solve h | solveWithContext h => exact .inl (congrArg some h.1)

/-- Other models and problems stay as they were. -/
structure World.Spares (k : ModelId) (j : Nat) (w w' : World) : Prop where
  models : ∀ a, a ≠ k → a < w.models.size → w'.model? a = w.model? a
  problems : ∀ i, i ≠ j → i ≤ w.native.problems.size → w'.native.problem? i = w.native.problem? i
  modelCount : w.models.size ≤ w'.models.size
  problemCount : w.native.problems.size ≤ w'.native.problems.size

theorem World.Spares.refl (k : ModelId) (j : Nat) (w : World) : World.Spares k j w w :=
  ⟨fun _ _ _ => rfl, fun _ _ _ => rfl, Nat.le_refl _, Nat.le_refl _⟩

/-- Freeing a model spares the others. -/
private theorem spares_free (h : Counterparts k k j j 0 w w) : World.Spares k j w (w.next (.free k)) := by
  have hnext : w.next (.free k) = ((Model.free k).on w).2 := by
    unfold World.next Operation.run
    rw [on_map]
  rw [hnext]
  rcases h.closed_or_opened with ⟨hclosed, -⟩ | ⟨x, _, ho⟩
  · rw [Model.on_free_of_closed fun _ => World.freed_of_not_open hclosed]
    exact .refl k j w
  · rw [Model.on_free (h.left.compliant.grants _) ho.left ho.unfreed ho.problem]
    -- model `k` and problem `j` alone change, and none is added
    refine ⟨fun a ha _ => ?_, fun i hi _ => ?_, Nat.le_of_eq ?_, Nat.le_of_eq ?_⟩
    · show (w.models.modify k _)[a]? = _
      rw [Array.getElem?_modify, if_neg (Ne.symm ha)]
      rfl
    · rw [Model.native_afterFree, ho.number, Native.Store.problem?_modify, if_neg hi]
    · exact (Array.size_modify ..).symm
    · rw [Model.native_afterFree, Native.Store.size_modify]

/-- Copying a model spares all. -/
private theorem spares_clone (h : Counterparts k k j j 0 w w) : World.Spares k j w (w.next (.clone k)) := by
  have hnext : w.next (.clone k) = ((Model.clone k).on w).2 := by
    unfold World.next Operation.run
    rw [on_map]
  rw [hnext]
  rcases h.closed_or_opened with ⟨hclosed, -⟩ | ⟨x, _, ho⟩
  · rw [Model.on_clone_of_closed hclosed]
    exact .refl k j w
  · -- parameters that cannot be copied stop the clone before the engine is asked
    cases hp : x.parameters.copy with
    | error fault =>
      rw [Model.on_clone_of_error ho.left ho.unfreed hp]
      exact .refl k j w
    | ok parameters =>
      rw [Model.on_clone h.left.compliant ho.left ho.unfreed ho.problem hp]
      refine ⟨fun a _ ha => Model.model?_afterClone x parameters ha,
        fun i _ hi => Model.problem?_afterClone x parameters hi, ?_, ?_⟩
      · show w.models.size ≤ (w.models.push _).size
        rw [Array.size_push]
        exact Nat.le_succ _
      · rw [Model.size_afterClone h.left ho.left ho.unfreed]
        exact Nat.le_succ _

/-- An operation that keeps to one model spares the others. -/
theorem Counterparts.spares (h : Counterparts k k j j 0 w w) {o : Operation}
    (ho : o.Matches (.single k k j j 0) o) : World.Spares k j w (w.next o) := by
  -- apart from copying and freeing, operations keep the state of every other model
  cases hlife : o.isLife with
  | false =>
    have hkeeps := (ho.alike hlife w w (Twins.start h.alike)).2.left
    rw [Operation.on_respond_snd] at hkeeps
    exact
      { models := fun a ha _ => hkeeps.otherModels a fun ⟨_, hpair⟩ => ha hpair.1
        problems := fun i hi _ => hkeeps.otherProblems i fun ⟨_, hpair⟩ => hi hpair.1
        modelCount := Nat.le_of_eq hkeeps.modelCount.symm
        problemCount := Nat.le_of_eq hkeeps.problemCount.symm }
  | true =>
    cases ho with
    | clone hk =>
      obtain ⟨rfl, -⟩ := hk
      exact spares_clone h
    | free hk =>
      obtain ⟨rfl, -⟩ := hk
      exact spares_free h
    | _ => cases hlife

/-- Each of two models that are alike is alike to itself. -/
theorem Model.Alike.selves {x x' : Model} (h : x.Alike (.single m k n j shift) x') :
    x.Alike (.single m m n n 0) x ∧ x'.Alike (.single k k j j 0) x' := by
  have hvars : List.Forall₂ (Variable.Alike (.single m m n n 0)) x.vars x.vars :=
    List.forall₂_same.mpr (forall_left h.vars fun _ _ hv => ⟨⟨hv.model.1, hv.model.1⟩, rfl⟩)
  have hvars' : List.Forall₂ (Variable.Alike (.single k k j j 0)) x'.vars x'.vars :=
    List.forall₂_same.mpr (forall_left h.vars.flip fun _ _ hv => ⟨⟨hv.model.2, hv.model.2⟩, rfl⟩)
  -- an open model has its problem in both worlds
  refine ⟨⟨fun hf => ?_, rfl, rfl, rfl, hvars, rfl, rfl, rfl, rfl⟩,
    ⟨fun hf => ?_, rfl, rfl, rfl, hvars', rfl, rfl, rfl, rfl⟩⟩
  · have hn := (h.engine hf).number.1
    exact ⟨rfl, ⟨hn, hn⟩, rfl⟩
  · have hn := (h.engine (h.freed.trans hf)).number.2
    exact ⟨rfl, ⟨hn, hn⟩, rfl⟩

/-- Of two values that are related, each is related to itself. -/
private theorem rel_selves {α : Type} {R S T : α → α → Prop} (hR : ∀ a b, R a b → S a a ∧ T b b) {o o' : Option α}
    (h : Option.Rel R o o') : Option.Rel S o o ∧ Option.Rel T o' o' := by
  cases h with
  | none => exact ⟨.none, .none⟩
  | some h => exact ⟨.some (hR _ _ h).1, .some (hR _ _ h).2⟩

/-- Each of two counterparts is one of itself. -/
theorem Counterparts.selves (h : Counterparts m k n j shift w u) :
    Counterparts m m n n 0 w w ∧ Counterparts k k j j 0 u u := by
  obtain ⟨hleft, hright⟩ := rel_selves (fun _ _ hx => hx.selves) h.models_rel
  refine ⟨⟨⟨rfl, rfl, rfl, rfl, rfl, rfl, ?_, ?_⟩, h.left, h.left⟩,
    ⟨⟨rfl, rfl, rfl, rfl, rfl, rfl, ?_, ?_⟩, h.right, h.right⟩⟩
  · rintro a a' ⟨ha, ha'⟩
    rw [ha, ha']
    exact hleft
  · rintro i i' ⟨rfl, rfl⟩
    rfl
  · rintro a a' ⟨ha, ha'⟩
    rw [ha, ha']
    exact hright
  · rintro i i' ⟨rfl, rfl⟩
    rfl

/-- Two models that share neither the record nor the problem. -/
structure World.Apart (m k : ModelId) (n j : Nat) (w : World) : Prop where
  first : Counterparts m m n n 0 w w
  second : Counterparts k k j j 0 w w
  models : m ≠ k
  problems : n ≠ j
  firstThere : m < w.models.size ∧ n ≤ w.native.problems.size
  secondThere : k < w.models.size ∧ j ≤ w.native.problems.size

namespace World.Apart

protected theorem symm (h : w.Apart m k n j) : w.Apart k m j n :=
  ⟨h.second, h.first, h.models.symm, h.problems.symm, h.secondThere, h.firstThere⟩

/-- What is done to the second model does not show at the first. -/
theorem next (h : w.Apart m k n j) {o : Operation} (ho : o.Matches (.single k k j j 0) o) :
    (w.next o).Apart m k n j ∧ (w.next o).model? m = w.model? m ∧
      (w.next o).native.problem? n = w.native.problem? n := by
  have hspares := h.second.spares ho
  have hmodel := hspares.models m h.models h.firstThere.1
  have hproblem := hspares.problems n h.problems h.firstThere.2
  have hsound := World.sound_next h.first.left o
  -- the first model is in step with itself, since neither it nor its problem was touched
  refine ⟨?_, hmodel, hproblem⟩
  exact
    { first :=
        { alike :=
            { clock := rfl
              contexts := rfl
              script := rfl
              surroundings := rfl
              allowance := rfl
              registry := rfl
              models := by
                rintro a a' ⟨rfl, rfl⟩
                rw [hmodel]
                exact h.first.alike.models ⟨rfl, rfl⟩
              problems := by
                rintro i i' ⟨rfl, rfl⟩
                rfl }
          left := hsound
          right := hsound }
      second := (h.second.respond ho).2
      models := h.models
      problems := h.problems
      firstThere := ⟨Nat.lt_of_lt_of_le h.firstThere.1 hspares.modelCount,
        Nat.le_trans h.firstThere.2 hspares.problemCount⟩
      secondThere := ⟨Nat.lt_of_lt_of_le h.secondThere.1 hspares.modelCount,
        Nat.le_trans h.secondThere.2 hspares.problemCount⟩ }

end World.Apart

/-- The model is the same in both states, whatever surrounds it. -/
structure World.Mirrors (m : ModelId) (n : Nat) (w u : World) : Prop where
  models : Option.Rel (Model.Alike (.single m m n n 0)) (w.model? m) (u.model? m)
  problems : w.native.muted? n = u.native.muted? n
  left : w.Sound
  right : u.Sound

/-- In the same circumstances there is no difference. -/
theorem World.Mirrors.counterparts (h : w.Mirrors m n u) :
    Counterparts m m n n 0 w (u.next (.meanwhile w.circumstances)) where
  -- the circumstances are copied over, so the worlds can differ in models and problems only
  alike :=
    { clock := rfl
      contexts := rfl
      script := rfl
      surroundings := rfl
      allowance := h.left.compliant.trans h.right.compliant.symm
      registry := rfl
      models := by
        rintro a a' ⟨rfl, rfl⟩
        exact h.models
      problems := by
        rintro i i' ⟨rfl, rfl⟩
        exact h.problems }
  left := h.left
  right := World.sound_next h.right _

theorem Counterparts.mirrors (h : Counterparts m m n n 0 w u) : w.Mirrors m n u :=
  ⟨h.alike.models ⟨rfl, rfl⟩, h.alike.problems ⟨rfl, rfl⟩, h.left, h.right⟩

/-- **Operations on the other model do not show**: what the operations on one of two models give back among all
is what they give back alone, in the same circumstances. -/
theorem World.Apart.responsesOf (h : w.Apart m k n j) (hmirrors : w.Mirrors m n u) {os : List Operation}
    (hos : ∀ o ∈ os, o.Matches (.single m m n n 0) o ∨ o.Matches (.single k k j j 0) o) :
    List.Forall₂ (Agree (Response.Alike (.single m m n n 0))) (w.responsesOf m os)
      (u.responsesOf m (w.excerpt m os)) := by
  induction os generalizing w u with
  | nil => exact .nil
  | cons o rest ih =>
    have hrest := fun o' ho' => hos o' (List.mem_cons_of_mem _ ho')
    by_cases hm : o.about? = some m
    · -- an operation on the first model
      have ho : o.Matches (.single m m n n 0) o := by
        refine (hos o (List.mem_cons_self ..)).resolve_right fun hk => ?_
        rcases hk.about? with hk | ⟨i, rfl⟩
        · exact h.models (Option.some.inj (hm.symm.trans hk))
        · cases hm
      obtain ⟨hends, hnext⟩ := hmirrors.counterparts.respond ho
      have hothers := ih (h.symm.next ho).1.symm hnext.mirrors hrest
      rw [World.excerpt, World.responsesOf, if_pos hm, if_pos hm, World.responsesOf_meanwhile, World.responsesOf,
        if_pos hm]
      exact .cons hends.response hothers
    · -- an operation on the second model, or a change of circumstances
      have ho : o.Matches (.single k k j j 0) o := by
        rcases hos o (List.mem_cons_self ..) with ho | ho
        · rcases ho.about? with hm' | ⟨i, rfl⟩
          · exact absurd hm' hm
          · exact .meanwhile i
        · exact ho
      obtain ⟨hapart, hmodel, hproblem⟩ := h.next ho
      have hstill : (w.next o).Mirrors m n u := by
        refine ⟨hmodel ▸ hmirrors.models, ?_, hapart.first.left, hmirrors.right⟩
        rw [Native.Store.muted?, hproblem]
        exact hmirrors.problems
      rw [World.excerpt, World.responsesOf, if_neg hm, if_neg hm]
      exact ih hapart hstill hrest

end

/-! ## §5 Clones of open models -/

/-- **A clone is as good as its original, and apart from it.** An open model with documented parameters can be
copied in every session. From then on, a sequence of operations on the clone goes as the same sequence would go
on the original: same answers, same faults, and the same calls up to the number of the problem. And whatever
operations on the two follow each other, those on the one give back what they would give back alone, in the same
circumstances. Results of the original from before stand for results that the clone does not have. -/
theorem Model.clone_stands_alone {os : List Operation} (htidy : ∀ o ∈ os, o.Tidy) {m : ModelId} {model : Model}
    (hm : (World.initial.nextAll os).model? m = some model) (hf : model.freed = false)
    (hdoc : model.parameters.isDocumented = true) :
    let w := World.initial.nextAll os
    let w₁ := w.next (.clone m)
    ∃ m' n n', (clone m).on w = (.ok m', w₁) ∧ m' ≠ m ∧ n' ≠ n ∧
      w₁.HoldsProblem m model.engine.kind n ∧ w₁.HoldsProblem m' model.engine.kind n' ∧
      (∀ os os', List.Forall₂ (Operation.Matches (.single m m' n n' model.revision)) os os' →
        List.Forall₂ (Echoes m m' n n' model.revision) (w₁.exchanges os) (w₁.exchanges os')) ∧
      ∀ os, (∀ o ∈ os, o.Matches (.single m m n n 0) o ∨ o.Matches (.single m' m' n' n' 0) o) →
        List.Forall₂ (Agree (Response.Alike (.single m m n n 0))) (w₁.responsesOf m os)
          (w₁.responsesOf m (w₁.excerpt m os)) ∧
        List.Forall₂ (Agree (Response.Alike (.single m' m' n' n' 0))) (w₁.responsesOf m' os)
          (w₁.responsesOf m' (w₁.excerpt m' os)) := by
  intro w w₁
  have hs : w.Sound := World.sound_nextAll World.sound_initial os
  have hrest : w.AtRest := World.atRest_initial.nextAll htidy
  have haligned : w.Aligned := World.aligned_nextAll World.aligned_initial World.sound_initial os
  obtain ⟨n, q, -, howns⟩ := hs.holds_of_model? hm hf
  have hcounterparts := counterparts_afterClone hs hrest haligned hm hf howns.problem hdoc
  have hclone := on_clone hs.compliant hm hf howns.problem (Parameters.copy_of_isDocumented hdoc)
  have hw₁ : w₁ = afterClone w model model.parameters := by
    show ((Answer.model <$> clone m).on w).2 = _
    rw [on_map, hclone]
  have hlt : m < w.models.size := World.lt_size_of_model? hm
  have hle : n ≤ w.native.problems.size := Native.Store.le_size_of_problem?_eq_some howns.found
  have hmodelCount : w₁.models.size = w.models.size + 1 := by
    rw [hw₁]
    exact Array.size_push _
  have hproblemCount : w₁.native.problems.size = w.native.problems.size + 1 := by
    rw [hw₁, size_afterClone hs hm hf]
  -- the original and the clone have models and problems of their own
  have happart : w₁.Apart m w.models.size n w.native.next :=
    { first := hcounterparts.selves.1
      second := hcounterparts.selves.2
      models := Nat.ne_of_lt hlt
      problems := Nat.ne_of_lt (Nat.lt_succ_of_le hle)
      firstThere := ⟨hmodelCount ▸ Nat.lt_succ_of_lt hlt, hproblemCount ▸ Nat.le_succ_of_le hle⟩
      secondThere := ⟨hmodelCount ▸ Nat.lt_succ_self _, Nat.le_of_eq hproblemCount.symm⟩ }
  have hmodel : w₁.model? m = some model := by rw [hw₁, model?_afterClone _ _ hlt, hm]
  have htwin : w₁.model? w.models.size = some (model.twin model.parameters w.models.size w.native.next) := by
    rw [hw₁, model?_afterClone_new]
  have hheld : w₁.HoldsProblem w.models.size model.engine.kind w.native.next := by
    rw [World.HoldsProblem, htwin, Option.map_some, Model.owner]
    exact congrArg (fun freed => some (freed, _)) hf
  refine ⟨w.models.size, n, w.native.next, by rw [hclone, hw₁], happart.models.symm, happart.problems.symm,
    World.holdsProblem_of_model? hmodel hf howns.problem, hheld,
    fun os os' hos => hcounterparts.exchanges ⟨rfl, rfl⟩ hos, fun os hos => ⟨?_, ?_⟩⟩
  · exact happart.responsesOf happart.first.mirrors hos
  · exact happart.symm.responsesOf happart.second.mirrors fun o ho => (hos o ho).symm

/-- A model with one variable and a clone of it: whatever is done to the one does not show at the other. -/
theorem Model.clone_of_small_model :
    let os : List Operation :=
      [.create "diet" (.text "minimize") [.engine (.named (.text "lpsolve"))],
        .addVariable 0 "bread" (.text "integer") .one .zero .one]
    let w := World.initial.nextAll os
    ∃ model, w.model? 0 = some model ∧ model.freed = false ∧ model.parameters.isDocumented = true ∧
      ∃ m' n n', (clone 0).on w = (.ok m', w.next (.clone 0)) ∧ m' ≠ 0 ∧ n' ≠ n ∧
        List.Forall₂ (Echoes 0 m' n n' model.revision)
          ((w.next (.clone 0)).exchanges [.addVariable 0 "bread" (.text "binary") .one .zero .one, .free 0])
          ((w.next (.clone 0)).exchanges [.addVariable m' "bread" (.text "binary") .one .zero .one, .free m']) := by
  intro os w
  have htidy : ∀ o ∈ os, o.Tidy := by simp [os, Operation.Tidy]
  obtain ⟨model, hm, hmodel⟩ := Option.map_eq_some_iff.mp
    (show (w.model? 0).map (fun model => (model.freed, model.parameters.isDocumented)) = some (false, true) by
      decide +kernel)
  obtain ⟨hf, hdoc⟩ := Prod.mk.inj hmodel
  obtain ⟨m', n, n', hclone, hne, hne', -, -, hsame, -⟩ := Model.clone_stands_alone htidy hm hf hdoc
  -- the two runs name model 0 and its clone
  have hpair : (Pairing.single 0 m' n n' model.revision).models 0 m' := ⟨rfl, rfl⟩
  exact ⟨model, hm, hf, hdoc, m', n, n', hclone, hne, hne',
    hsame _ _ (.cons (.addVariable hpair "bread" (.text "binary") .one .zero .one) (.cons (.free hpair) .nil))⟩

end LinearProgram
