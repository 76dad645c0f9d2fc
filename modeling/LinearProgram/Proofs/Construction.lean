import LinearProgram.Proofs.Lifetime

/-!
# Constructions and what they leave behind

A construction answers with one model that was not there before, or it fails, and then the models that are open
are those from before, each with its problem. A problem that is solved from arrays is built, solved and freed
again, so it never adds to the open models, however it ends.

`World.Constructed` says how a construction ends. It is shown by the steps that all constructions consist of: a
problem is acquired and gets an open model, which work on problems leaves as it is, and which is freed where this
work fails.
-/

namespace LinearProgram

open LinearProgram.Action

namespace World

/-! ## §1 What models hold -/

/-- In both states the same models are open, each with the same problem. -/
def SameHeld (w w' : World) : Prop := ∀ m kind n, w'.HoldsProblem m kind n ↔ w.HoldsProblem m kind n

/-- The model `m`, which was not open, holds a problem, and the others hold what they held. -/
structure Gains (w : World) (m : ModelId) (w' : World) : Prop where
  fresh : ∀ kind n, ¬ w.HoldsProblem m kind n
  holds : ∃ kind n, w'.HoldsProblem m kind n
  others : ∀ k, k ≠ m → ∀ kind n, w'.HoldsProblem k kind n ↔ w.HoldsProblem k kind n

/-- How a construction ends: it fails, and the open models are those from before, or it answers with a new one. -/
def Constructed (w : World) : Except Fault ModelId × World → Prop
  | (.error _, w') => w.SameHeld w'
  | (.ok m, w') => w.Gains m w'

variable {w w₁ w₂ : World} {m : ModelId} {whole : Prop}

theorem HoldsProblem.open {kind : EngineKind} {n : Nat} (h : w.HoldsProblem m kind n) : w.Open m := by
  obtain ⟨model, hm, howner⟩ := Option.map_eq_some_iff.mp h
  exact ⟨model, hm, (Prod.mk.inj howner).1⟩

namespace SameHeld

protected theorem refl (w : World) : w.SameHeld w := fun _ _ _ => Iff.rfl

protected theorem trans (h₁ : w.SameHeld w₁) (h₂ : w₁.SameHeld w₂) : w.SameHeld w₂ :=
  fun m kind n => (h₂ m kind n).trans (h₁ m kind n)

/-- Only the owners of problems matter. -/
theorem of_owner (h : ∀ k, (w₁.model? k).map Model.owner = (w.model? k).map Model.owner) : w.SameHeld w₁ :=
  fun k _ _ => by rw [HoldsProblem, HoldsProblem, h]

theorem held_iff (h : w.SameHeld w₁) (n : Nat) : w₁.Held n ↔ w.Held n :=
  exists_congr fun m => exists_congr fun kind => h m kind n

end SameHeld

namespace Gains

theorem before (hsame : w.SameHeld w₁) (h : w₁.Gains m w₂) : w.Gains m w₂ where
  fresh kind n hm := h.fresh kind n ((hsame m kind n).mpr hm)
  holds := h.holds
  others k hk kind n := (h.others k hk kind n).trans (hsame k kind n)

/-- What changes nobody may come after a gain. -/
theorem andThen (h : w.Gains m w₁) (hsame : w₁.SameHeld w₂) : w.Gains m w₂ where
  fresh := h.fresh
  holds := by
    obtain ⟨kind, n, hm⟩ := h.holds
    exact ⟨kind, n, (hsame m kind n).mpr hm⟩
  others k hk kind n := (hsame k kind n).trans (h.others k hk kind n)

/-- What was gained is given up again. -/
theorem freed (h : w.Gains m w₁) (hfree : ∀ k kind n, w₂.HoldsProblem k kind n ↔ k ≠ m ∧ w₁.HoldsProblem k kind n) :
    w.SameHeld w₂ := by
  intro k kind n
  rw [hfree]
  -- the gained model is freed again; every other one is as before
  by_cases hk : k = m
  · subst hk
    exact iff_of_false (fun h' => h'.1 rfl) (h.fresh kind n)
  · rw [and_iff_right hk]
    exact h.others k hk kind n

end Gains

/-- What changes nobody may come before a construction. -/
theorem Constructed.before {outcome : Except Fault ModelId × World} (hsame : w.SameHeld w₁)
    (h : w₁.Constructed outcome) : w.Constructed outcome := by
  rcases outcome with ⟨fault | m, w₂⟩
  · exact hsame.trans h
  · exact Gains.before hsame h

/-- A problem that was acquired is held by the model that is made for it. -/
theorem Acquires.gains {kind : EngineKind} {n : Nat} (h : w.Acquires kind n w₁) (model : Model)
    (howner : model.owner = (false, kind, some n)) :
    w.Gains w.models.size { w₁ with models := w₁.models.push model } where
  fresh kind n hm := by
    obtain ⟨model, hm, -⟩ := hm.open
    exact Nat.lt_irrefl _ (Array.getElem?_eq_some_iff.mp hm).1
  holds := ⟨kind, n, (h.holdsProblem_push howner).mpr (.inr ⟨rfl, rfl, rfl⟩)⟩
  others _ hk _ _ := (h.holdsProblem_push howner).trans (or_iff_left fun h' => hk h'.1)

/-! ## §2 Work on models and freeing them -/

instance (w₀ : World) : LoadClosed w₀.SameHeld where
  writings h := h.trans (.of_owner fun _ => rfl)
  library {w kind l} h := h.trans (.of_owner fun _ => by cases kind <;> rfl)

/-- The invariant holds, and the open models are those of `w₀`. -/
def OrderlyAs (w₀ : World) (whole : Prop) (w : World) : Prop := w.Orderly whole ∧ w₀.SameHeld w

instance (w₀ : World) : LoadClosed (w₀.OrderlyAs whole) where
  writings h := ⟨NoteClosed.writings h.1, NoteClosed.writings h.2⟩
  library h := ⟨LoadClosed.library h.1, LoadClosed.library h.2⟩

instance (w₀ : World) : WorkClosed (w₀.OrderlyAs whole) where
  work _ ho _ h :=
    have hkeeps := h.1.keeps_operation ho
    ⟨h.1.of_keeps hkeeps, h.2.trans (.of_owner hkeeps.owner)⟩

namespace Orderly

/-- After a model was freed, the others hold what they held. -/
theorem holdsProblem_free (h : w.Orderly whole) (m k : ModelId) (kind : EngineKind) (n : Nat) :
    ((Model.free m).on w).2.HoldsProblem k kind n ↔ k ≠ m ∧ w.HoldsProblem k kind n := by
  -- freeing a closed model does nothing
  rcases w.closed_or_open m with hclosed | ⟨model, hm, hf⟩
  · rw [Model.on_free_of_closed hclosed]
    refine (and_iff_right_of_imp fun hk => ?_).symm
    rintro rfl
    obtain ⟨model, hm, hf⟩ := hk.open
    exact Bool.noConfusion ((hclosed model hm).symm.trans hf)
  · obtain ⟨p, hp⟩ := h.holds hm hf
    rw [Model.on_free (h.grants_deleteCall _) hm hf hp]
    exact holdsProblem_afterFree hm

theorem not_open_free (h : w.Orderly whole) (m : ModelId) : ¬ ((Model.free m).on w).2.Open m := by
  intro hopen
  obtain ⟨kind, n, hm⟩ := (free m w h).holdsProblem hopen
  exact ((h.holdsProblem_free m m kind n).mp hm).1 rfl

/-- The same open models have the same problems, and no others are there. -/
theorem alive_congr (h : w.Orderly whole) (h₁ : w₁.Orderly whole) (hsame : w.SameHeld w₁) (n : Nat) :
    (n ∈ w₁.made ∧ n ∉ w₁.deleted) ↔ (n ∈ w.made ∧ n ∉ w.deleted) := by
  rw [h.alive, h₁.alive, hsame.held_iff]

/-- A new model is freed again where the work on it fails. -/
theorem constructed_freeingOnFault (hgains : w.Gains m w₁) {α : Type} {body : Action α}
    (hbody : w₁.OrderlyAs whole (body.on w₁).2) {rest : α → Action ModelId}
    (hrest : ∀ x v, v.Open m → ∃ v', (rest x).on v = (.ok m, v') ∧ v.SameHeld v') :
    w.Constructed ((Model.freeingOnFault m body >>= rest).on w₁) := by
  unfold Model.freeingOnFault
  rw [on_bind, on_recovering]
  rcases hon : body.on w₁ with ⟨fault | x, w₂⟩ <;> rw [hon] at hbody <;> dsimp only
  · -- the fault comes back after freeing, or that of freeing itself
    have hfree := hbody.1.holdsProblem_free m
    rw [on_bind]
    rcases hfreed : (Model.free m).on w₂ with ⟨fault' | _, w₃⟩ <;> rw [hfreed] at hfree <;>
      exact (hgains.andThen hbody.2).freed hfree
  · have hgains₂ := hgains.andThen hbody.2
    obtain ⟨kind, n, hm⟩ := hgains₂.holds
    obtain ⟨w₃, hrest, hsame⟩ := hrest x w₂ hm.open
    rw [hrest]
    exact hgains₂.andThen hsame

end Orderly

/-! ## §3 Constructions -/

namespace Orderly

/-- What comes before a construction leaves the open models as they are. -/
private theorem constructed_bind {α : Type} {a : Action α} {f : α → Action ModelId} (h : w.Orderly whole)
    (ha : Preserves (w.OrderlyAs whole) a)
    (hf : ∀ x (v : World), v.Orderly whole → v.Constructed ((f x).on v)) : w.Constructed ((a >>= f).on w) := by
  have hkept := ha w ⟨h, .refl w⟩
  rw [on_bind]
  rcases hon : a.on w with ⟨fault | x, w₁⟩ <;> rw [hon] at hkept
  · exact hkept.2
  · exact (hf x w₁ hkept.1).before hkept.2

/-- A model that is made is the only gain, and there is none where the making fails: what was acquired by
then is freed. -/
theorem constructed_make (h : w.Orderly whole) (name : String) (d : Direction) (draft : ModelDraft)
    (kind : EngineKind) : w.Constructed ((Model.make name d draft kind).on w) := by
  unfold Model.make
  -- without a problem there is no model yet
  rcases acquisition_create kind w with ⟨fault, hcreate⟩ | ⟨n, w₁, hcreate, hacquires⟩
  · rw [on_bind_of_error hcreate]
    exact .refl w
  let model := Model.attached ⟨kind, some n, none⟩ draft.printer draft.parameters
  have hgains := hacquires.gains model rfl
  obtain ⟨h₂, hholds⟩ := h.add hacquires model rfl
  rw [← hacquires.models] at hgains hholds
  rw [on_bind_of_ok hcreate, on_bind_of_ok (Model.on_add _ w₁)]
  have hnaming := h₂.keeps_naming (e := ⟨kind, some n, none⟩) hholds name d
  refine constructed_freeingOnFault hgains ⟨h₂.of_keeps hnaming, .of_owner hnaming.owner⟩ fun _ v hv => ?_
  obtain ⟨model', hm, -⟩ := hv
  refine ⟨v.log LogRecord.debug Model.source ("created " ++ model'.display), ?_, .of_owner fun _ => rfl⟩
  rw [on_bind_of_ok (on_model_of_some hm), on_bind_of_ok (on_debug _ _ _)]
  rfl

/-- **Making a model** fails without a trace among the open models, or adds one to them. -/
theorem constructed_create (h : w.Orderly whole) (name : String) (direction : Datum)
    (options : List ModelOption) : w.Constructed ((Model.create name direction options).on w) := by
  refine constructed_bind h (Preserves.lift _) fun d v hv => ?_
  refine constructed_bind hv (ModelDraft.loads_applyAll .standard options) fun draft v hv => ?_
  cases draft.engine with
  | some kind => exact constructed_make hv name d draft kind
  | none => exact constructed_bind hv loads_selectDefault fun kind v hv => constructed_make hv name d draft kind

/-- **Copying a model** likewise. -/
theorem constructed_clone (h : w.Orderly whole) (m : ModelId) : w.Constructed ((Model.clone m).on w) := by
  unfold Model.clone
  rcases on_openModel_cases m w with ⟨model, hm, hf, hon⟩ | hon
  · rw [on_bind_of_ok hon, on_bind, on_lift]
    cases model.parameters.copy with
    -- the parameters are copied first, before the engine makes anything
    | error fault => exact SameHeld.refl w
    | ok parameters =>
      obtain ⟨p, hp⟩ := h.holds hm hf
      rcases h.acquisition_copy hp (holdsProblem_of_model? hm hf hp) with
        ⟨fault, hcopy⟩ | ⟨n, w₁, hcopy, hacquires⟩
      · dsimp only
        rw [on_bind_of_error hcopy]
        exact .refl w
      · dsimp only
        rw [on_bind_of_ok hcopy, on_bind_of_ok (on_get w₁), Model.on_add, hacquires.models]
        -- from the copy on nothing raises: the model is recorded with its problem
        have hgains := hacquires.gains {
          model with
          engine := ⟨model.engine.kind, some n, none⟩
          parameters := parameters
          vars := (List.range model.kinds.length).map fun i => ⟨w₁.models.size, Int.ofNat i⟩
          revision := 0 } (by rw [Model.owner, hf])
        rwa [hacquires.models] at hgains
  · rw [on_bind_of_error hon]
    exact .refl w

/-- **Making a model from arrays** likewise: what has been built is freed where the rest cannot be. -/
theorem constructed_ofArrays (h : w.Orderly whole) (a : ProblemArrays) (name : String) (direction : Datum)
    (options : List ModelOption) : w.Constructed ((Model.ofArrays a name direction options).on w) := by
  refine constructed_bind h (Preserves.lift _) fun data v hv => ?_
  have hends := hv.constructed_create name direction options
  have hkept := create name direction options v hv
  rw [on_bind]
  rcases hon : (Model.create name direction options).on v with ⟨fault | m, v₁⟩ <;> rw [hon] at hends hkept
  · exact hends
  · -- the model exists; a fault while it is filled frees it
    exact constructed_freeingOnFault hends (WorkClosed.addArrays m data v₁ ⟨hkept, .refl v₁⟩)
      fun _ v₂ _ => ⟨v₂, rfl, .refl v₂⟩

/-- **Solving a problem from arrays** adds nothing to the open models, however it ends. -/
theorem sameHeld_solveArrays (h : w.Orderly whole) (a : ProblemArrays) (direction : Datum)
    (options : List ModelOption) : w.SameHeld ((Model.solveArrays a direction options).on w).2 := by
  unfold Model.solveArrays
  have hends := h.constructed_ofArrays a "" direction options
  have hkept := OperationClosed.ofArrays a "" direction options w h
  rw [on_bind]
  rcases hon : (Model.ofArrays a "" direction options).on w with ⟨fault | m, w₁⟩ <;> rw [hon] at hends hkept
  · exact hends
  · -- whatever the solve answers, the model is still there to be freed
    have hsolved := WorkClosed.solution (P := w₁.OrderlyAs whole) m w₁ ⟨hkept, .refl w₁⟩
    have hfree := hsolved.1.holdsProblem_free m
    dsimp only
    unfold Model.freeingAfter
    rw [on_ensuring]
    rcases hfreed : (Model.free m).on _ with ⟨fault' | _, w₂⟩ <;> rw [hfreed] at hfree <;>
      exact (hends.andThen hsolved.2).freed hfree

end Orderly

end World

/-! ## §4 Runs -/

namespace Undertaking

/-- A model is made for the caller. -/
def isConstruction : Undertaking → Bool
  | perform (.create ..) | perform (.clone _) | fromArrays .. => true
  | perform _ | solveArrays .. | within .. | limit _ => false

/-- No model is made for the caller, and none is freed that was there before. -/
def isPassing : Undertaking → Bool
  | perform o => !o.isLife
  | solveArrays .. => true
  | fromArrays .. | within .. | limit _ => false

end Undertaking

namespace World

variable {w : World} {whole : Prop}

namespace Orderly

private theorem sameHeld_perform (h : w.Orderly whole) {o : Operation} (ho : o.isLife = false) :
    w.SameHeld (o.run.on w).2 := .of_owner (h.keeps_operation ho).owner

/-- The outcome of a construction without its answer. -/
private theorem constructed_map {α : Type} {a : Action ModelId} {f : ModelId → α} (h : w.Constructed (a.on w)) :
    (∀ fault, ((f <$> a).on w).1 = .error fault → w.SameHeld ((f <$> a).on w).2) ∧
      ∀ x, ((f <$> a).on w).1 = .ok x → ∃ m, w.Gains m ((f <$> a).on w).2 := by
  rw [on_map]
  rcases hon : a.on w with ⟨fault | m, w'⟩ <;> rw [hon] at h
  · exact ⟨fun _ _ => h, by rintro x ⟨⟩⟩
  · exact ⟨by rintro fault ⟨⟩, fun _ _ => ⟨m, h⟩⟩

/-- Constructions are the operations and the functions that are made for it. -/
private theorem constructed_run (h : w.Orderly whole) {u : Undertaking} (hu : u.isConstruction = true) :
    (∀ fault, (u.run.on w).1 = .error fault → w.SameHeld (u.run.on w).2) ∧
      ((u.run.on w).1 = .ok () → ∃ m, w.Gains m (u.run.on w).2) := by
  -- a construction answers nothing but its end, so its model is forgotten
  suffices hmap : ∃ a f, u.run = f <$> a ∧ w.Constructed (a.on w) by
    obtain ⟨a, f, hrun, hends⟩ := hmap
    obtain ⟨hfails, hanswers⟩ := constructed_map (f := f) hends
    rw [hrun]
    exact ⟨hfails, hanswers ()⟩
  cases u with
  | perform o =>
    cases o with
    | create name direction options =>
      exact ⟨_, _, comp_map _ _ _ |>.symm, h.constructed_create name direction options⟩
    | clone m => exact ⟨_, _, comp_map _ _ _ |>.symm, h.constructed_clone m⟩
    | _ => cases hu
  | fromArrays a name direction options => exact ⟨_, _, rfl, h.constructed_ofArrays a name direction options⟩
  | solveArrays | within | limit => cases hu

private theorem not_open_run_free (h : w.Orderly whole) (m : ModelId) :
    ¬ ((Undertaking.perform (.free m)).run.on w).2.Open m := by
  have hfree := h.not_open_free m
  rwa [Undertaking.run, on_map, Operation.run, on_map]

/-- At the end of a block its model is freed, however the operations in it have ended. -/
private theorem not_open_run_within (h : w.Orderly whole) (m : ModelId) (os : List Operation) :
    ¬ ((Undertaking.within m os).run.on w).2.Open m := by
  have hfree := Orderly.not_open_free (OperationClosed.runAll os w h) m
  unfold Undertaking.run Model.freeingAfter
  rw [on_ensuring]
  rcases hfreed : (Model.free m).on _ with ⟨fault | _, w'⟩ <;> rw [hfreed] at hfree <;> exact hfree

/-- What passes leaves the open models as they are. -/
private theorem sameHeld_run (h : w.Orderly whole) {u : Undertaking} (hu : u.isPassing = true) :
    w.SameHeld (u.run.on w).2 := by
  cases u with
  | perform o =>
    have hsame := h.sameHeld_perform (o := o) (by simpa [Undertaking.isPassing] using hu)
    rwa [Undertaking.run, on_map]
  | solveArrays a direction options =>
    have hsame := h.sameHeld_solveArrays a direction options
    rwa [Undertaking.run, on_map]
  | fromArrays | within | limit => cases hu

end Orderly

/-- **Problems live as long as their models.** Whatever is undertaken, as long as deleting is not refused: every
problem is deleted at most once, no call names one after it was deleted, and the problems that were made and not
deleted are those of the models that have not been freed, each of which has one, a different one each. If
besides GLPK never refuses to make a problem, no call names the number 0 either, which is all that is left of the
problem of a freed model.

After that, a construction that fails leaves no problem behind: the open models hold the problems that they held,
and the problems that are there are the same. So does a problem that is solved from arrays, and whatever neither
makes nor frees a model. A construction that answers adds one model to the open ones, and at the end of a block
the model of the block is not open. -/
theorem problems_live_with_models {us : List Undertaking}
    (hdelete : ∀ u ∈ us, u.Spares "glp_delete_prob" ∧ u.Spares "delete_lp") :
    let w := World.initial.undertake us
    (w.deleted.filter (· ≠ 0)).Nodup ∧
      (w.calls.toList.Pairwise fun c c' => ∀ n, n ≠ 0 → c.deleted? = some n → n ∉ c'.problems) ∧
      (∀ n, (n ∈ w.made ∧ n ∉ w.deleted) ↔ n ≠ 0 ∧ ∃ m kind, w.HoldsProblem m kind n) ∧
      (∀ m, w.Open m → ∃ kind n, w.HoldsProblem m kind n) ∧
      (∀ m m' kind kind' n, n ≠ 0 → w.HoldsProblem m kind n → w.HoldsProblem m' kind' n → m = m') ∧
      ((∀ u ∈ us, u.Spares "glp_create_prob") →
        (∀ c ∈ w.calls.toList, 0 ∉ c.problems) ∧ ∀ m kind, ¬ w.HoldsProblem m kind 0) ∧
      ∀ u : Undertaking, let w' := w.undertake [u]
        (u.isPassing = true ∨ u.isConstruction = true ∧ (∃ fault, (u.run.on w).1 = .error fault) →
          (∀ m kind n, w'.HoldsProblem m kind n ↔ w.HoldsProblem m kind n) ∧
            ∀ n, (n ∈ w'.made ∧ n ∉ w'.deleted) ↔ (n ∈ w.made ∧ n ∉ w.deleted)) ∧
        (u.isConstruction = true → (u.run.on w).1 = .ok () → ∃ m, w.Gains m w') ∧
        ∀ m os, u = .perform (.free m) ∨ u = .within m os → ¬ w'.Open m := by
  intro w
  have h : w.Orderly (∀ u ∈ us, u.Spares "glp_create_prob") := Orderly.initial.undertake hdelete id
  refine ⟨?_, h.silent, h.alive, fun m hm => h.holdsProblem hm, fun m m' kind kind' n => h.once, fun hwhole => ?_,
    fun u => ⟨fun hu => ?_, fun hu => (h.constructed_run hu).2, fun m os hu => ?_⟩⟩
  · have hpairs : w.deleted.Pairwise fun n n' => n ≠ 0 → n ≠ n' := by
      refine h.silent.filterMap _ fun c c' hsilent n hn n' hn' h₀ heq => ?_
      exact hsilent n h₀ hn (heq ▸ Native.Call.mem_problems_of_deleted? hn')
    refine (hpairs.filter _).imp_of_mem fun hn _ hne => hne ?_
    simpa using (List.mem_filter.mp hn).2
  · obtain ⟨-, hcalls, hheld⟩ := h.numbered hwhole
    exact ⟨hcalls, fun m kind hm => hheld ⟨m, kind, hm⟩⟩
  · have hsame : w.SameHeld (u.run.on w).2 := by
      rcases hu with hpassing | ⟨hconstruction, fault, hfault⟩
      · exact h.sameHeld_run hpassing
      · exact (h.constructed_run hconstruction).1 fault hfault
    -- limits are no constructions, and do not pass either
    have hnot (allowance : List (String × Nat)) : u ≠ .limit allowance := by
      rintro rfl
      rcases hu with hu | ⟨hu, -⟩ <;> cases hu
    have hnext := OperationClosed.undertaking u (fun allowance hu => absurd hu (hnot allowance)) w h
    exact ⟨hsame, h.alive_congr hnext hsame⟩
  · rcases hu with rfl | rfl
    · exact h.not_open_run_free m
    · exact h.not_open_run_within m os

/-- A run with a name that is too long, a copy for which there is no memory, a model that is freed twice and asked
about afterwards, and a block that fails. -/
def mishaps : List Undertaking :=
  [.perform (.create (String.ofList (List.replicate 256 'x')) (.text "minimize") []),
    .perform (.create "diet" (.text "maximize") [.engine (.named (.text "lpsolve"))]),
    .limit [("copy_lp", 0)],
    .perform (.clone 1),
    .limit [],
    .perform (.clone 1),
    .within 1 [.addConstraint 1 .zero .one [.variable ⟨0, 0⟩] [.one], .setDirection 1 (.text "minimize")],
    .perform (.free 1),
    .perform (.inquire (.variableName ⟨1, 0⟩))]

/-- Three problems are made in that run, and the one of the copy is left. A further model whose name is too long
leaves it at that, though one more problem was made. -/
theorem problems_after_mishaps :
    let w := World.initial.undertake mishaps
    let u : Undertaking := .perform (.create (String.ofList (List.replicate 256 'x')) (.text "minimize") [])
    (∀ u ∈ mishaps, u.Spares "glp_delete_prob" ∧ u.Spares "delete_lp") ∧ w.made = [1, 2, 3] ∧
      w.deleted = [1, 2] ∧ (∃ m kind, w.HoldsProblem m kind 3) ∧ (w.undertake [u]).made = [1, 2, 3, 4] ∧
      ∀ m kind n, (w.undertake [u]).HoldsProblem m kind n ↔ w.HoldsProblem m kind n := by
  intro w u
  have hspares : ∀ u ∈ mishaps, u.Spares "glp_delete_prob" ∧ u.Spares "delete_lp" := by decide
  have hmade : w.made = [1, 2, 3] := by decide +kernel
  have hdeleted : w.deleted = [1, 2] := by decide +kernel
  obtain ⟨-, -, halive, -, -, -, haccount⟩ := problems_live_with_models hspares
  have hthird := halive 3
  rw [hmade, hdeleted] at hthird
  -- the name of the further model is refused
  have hfails : ((u.run.on w).1.toBool) = false := by decide +kernel
  refine ⟨hspares, hmade, hdeleted, (hthird.mp (by decide)).2, by decide +kernel, ?_⟩
  refine ((haccount u).1 (.inr ⟨rfl, ?_⟩)).1
  rcases hr : (u.run.on w).1 with fault | x
  · exact ⟨fault, rfl⟩
  · rw [hr] at hfails
    cases hfails

end World

end LinearProgram
