import LinearProgram.Proofs.Engine.Effects
import LinearProgram.Proofs.Run

/-!
# Models and their problems

Every model that has not been freed holds a problem of its own. `World.Holds` says which model holds which
problem, both without what does not matter for the mathematical problem: settings and hooks on the side
of the model, verbosity and left-over values on the side of the problem. `World.Sound` says that every
open model holds a problem and that no two hold the same one.

An operation does one of four things to the models and their problems: it leaves them undisturbed, edits
one model with its problem, frees a model, or makes a new one. Each of the four keeps the state sound, and
for each there is a theorem that says what every model holds afterwards. Later proofs follow a model
through a session with these theorems only.
-/

namespace LinearProgram

/-! ## §1 Who holds what -/

/-- The model without its settings and without the handle for polls. -/
def Model.core (model : Model) : Model :=
  { model with
    engine := { model.engine with abort := none }, printer := .silent, parameters := .standard }

@[simp] theorem Model.core_core (model : Model) : model.core.core = model.core := rfl

@[simp] theorem Model.core_freed (model : Model) : model.core.freed = model.freed := rfl

@[simp] theorem Model.core_kinds (model : Model) : model.core.kinds = model.kinds := rfl

@[simp] theorem Model.core_revision (model : Model) : model.core.revision = model.revision := rfl

@[simp] theorem Model.core_engine_problem (model : Model) :
    model.core.engine.problem = model.engine.problem := rfl

@[simp] theorem Model.core_engine_kind (model : Model) :
    model.core.engine.kind = model.engine.kind := rfl

namespace World

variable {w w' w₁ w₂ : World}

def modelCore? (w : World) (m : ModelId) : Option Model := (w.model? m).map Model.core

theorem modelCore?_of_model? {m : ModelId} {model : Model} (h : w.model? m = some model) :
    w.modelCore? m = some model.core := by
  rw [modelCore?, h]
  rfl

/-- A change to the core of one model leaves the cores of the others as they are. -/
theorem modelCore?_modifyModel {f : Model → Model} (hf : ∀ model, (f model).core = f model.core)
    (w : World) (m k : ModelId) : (w.modifyModel m f).modelCore? k =
      if k = m then (w.modelCore? m).map f else w.modelCore? k := by
  unfold modelCore? model? modifyModel
  -- `hf` lets the change be made on the core
  by_cases hk : k = m
  · subst hk
    rw [if_pos rfl, Array.getElem?_modify, if_pos rfl, Option.map_map, Option.map_map]
    exact congrArg (fun g => Option.map g w.models[k]?) (funext hf)
  · rw [if_neg hk, Array.getElem?_modify, if_neg (Ne.symm hk)]

/-- The model `m` is open and has the core `model`; it holds problem `n`, which has the core `q` and
belongs to the library of the model's engine. -/
structure Holds (w : World) (m : ModelId) (model : Model) (n : Nat) (q : Native.Problem) : Prop where
  found : w.modelCore? m = some model
  unfreed : model.freed = false
  number : model.engine.problem = some n
  problem : w.native.core? n = some q
  kind : q.kind? = some model.engine.kind

/-- Behind what is held stand an open model and the problem that its engine owns. -/
theorem Holds.owns {m : ModelId} {model : Model} {n : Nat} {q : Native.Problem}
    (h : w.Holds m model n q) :
    ∃ model' q', w.model? m = some model' ∧ model'.freed = false ∧
      model'.engine.Owns w.native n q' ∧ model'.core = model ∧ q'.core = q := by
  obtain ⟨model', hm, rfl⟩ := Option.map_eq_some_iff.mp h.found
  obtain ⟨q', hq, rfl⟩ := Option.map_eq_some_iff.mp h.problem
  refine ⟨model', q', hm, h.unfreed, ⟨h.number, hq, ?_⟩, rfl, rfl⟩
  rw [← Native.Problem.kind?_core]
  exact h.kind

/-- An open model holds the problem that its engine owns. -/
theorem Holds.of_owns {m : ModelId} {model : Model} {n : Nat} {q : Native.Problem} (hm : w.model? m = some model)
    (hf : model.freed = false) (ho : model.engine.Owns w.native n q) : w.Holds m model.core n q.core where
  found := modelCore?_of_model? hm
  unfreed := hf
  number := ho.problem
  problem := Native.Store.core?_of_problem? ho.found
  kind := (Native.Problem.kind?_core q).trans ho.kind

/-- A model holds one problem. -/
theorem Holds.unique {m : ModelId} {model₁ model₂ : Model} {n₁ n₂ : Nat} {q₁ q₂ : Native.Problem}
    (h₁ : w.Holds m model₁ n₁ q₁) (h₂ : w.Holds m model₂ n₂ q₂) :
    model₁ = model₂ ∧ n₁ = n₂ ∧ q₁ = q₂ := by
  have hmodel : model₁ = model₂ := Option.some.inj (h₁.found.symm.trans h₂.found)
  subst hmodel
  have hn : n₁ = n₂ := Option.some.inj (h₁.number.symm.trans h₂.number)
  subst hn
  exact ⟨rfl, rfl, Option.some.inj (h₁.problem.symm.trans h₂.problem)⟩

/-- Every open model holds a problem, and no two models hold the same one. -/
structure Sound (w : World) : Prop where
  compliant : w.Compliant
  holds : ∀ {m model}, w.modelCore? m = some model → model.freed = false → ∃ n q, w.Holds m model n q
  apart : ∀ {m₁ m₂ model₁ model₂ n q₁ q₂}, w.Holds m₁ model₁ n q₁ → w.Holds m₂ model₂ n q₂ → m₁ = m₂

/-- A model that was not changed, and whose problem was not changed either, holds what it held. -/
theorem Sound.holds_iff_of_same (hs : w.Sound) {m₁ : ModelId} (hmodels : w'.modelCore? m₁ = w.modelCore? m₁)
    (hcores : ∀ {model₁ n₁ q₁}, w.Holds m₁ model₁ n₁ q₁ → w'.native.core? n₁ = w.native.core? n₁) {model₁ : Model}
    {n₁ : Nat} {q₁ : Native.Problem} : w'.Holds m₁ model₁ n₁ q₁ ↔ w.Holds m₁ model₁ n₁ q₁ := by
  constructor
  · intro hh₁
    have hfound : w.modelCore? m₁ = some model₁ := hmodels ▸ hh₁.found
    -- the model held some problem before, which can only be the one whose number it has
    obtain ⟨n₂, q₂, hh₂⟩ := hs.holds hfound hh₁.unfreed
    obtain rfl : n₂ = n₁ := Option.some.inj (hh₂.number.symm.trans hh₁.number)
    exact ⟨hfound, hh₁.unfreed, hh₁.number, (hcores hh₂).symm.trans hh₁.problem, hh₁.kind⟩
  · intro hh₁
    exact ⟨hmodels.trans hh₁.found, hh₁.unfreed, hh₁.number, (hcores hh₁).trans hh₁.problem, hh₁.kind⟩

/-- A state is sound after a sound one if a single model is new or changed, and no other model held the problem that
this one holds. -/
theorem Sound.beside (hs : w.Sound) (hw : w'.Compliant) {m : ModelId} {model : Model} {n : Nat} {q : Native.Problem}
    (hhere : w'.Holds m model n q) (hmodels : ∀ m₁, m₁ ≠ m → w'.modelCore? m₁ = w.modelCore? m₁)
    (hothers : ∀ {m₁}, m₁ ≠ m → ∀ {model₁ n₁ q₁}, w'.Holds m₁ model₁ n₁ q₁ ↔ w.Holds m₁ model₁ n₁ q₁)
    (hown : ∀ {m₁ model₁ q₁}, m₁ ≠ m → ¬ w.Holds m₁ model₁ n q₁) : w'.Sound where
  compliant := hw
  holds {m₁ model₁} hm hf := by
    by_cases hk : m₁ = m
    · subst hk
      cases hm.symm.trans hhere.found
      exact ⟨_, _, hhere⟩
    · obtain ⟨n₁, q₁, hh₁⟩ := hs.holds ((hmodels m₁ hk).symm.trans hm) hf
      exact ⟨n₁, q₁, (hothers hk).mpr hh₁⟩
  apart {m₁ m₂ model₁ model₂ n₁ q₁ q₂} h₁ h₂ := by
    -- neither, one or both of two models with one problem may be the one that differs
    by_cases hk₁ : m₁ = m
    · by_cases hk₂ : m₂ = m
      · rw [hk₁, hk₂]
      · subst hk₁
        obtain ⟨-, rfl, -⟩ := h₁.unique hhere
        exact absurd ((hothers hk₂).mp h₂) (hown hk₂)
    · by_cases hk₂ : m₂ = m
      · subst hk₂
        obtain ⟨-, rfl, -⟩ := h₂.unique hhere
        exact absurd ((hothers hk₁).mp h₁) (hown hk₁)
      · exact hs.apart ((hothers hk₁).mp h₁) ((hothers hk₂).mp h₂)

/-- The model that an operation finds open is one that holds a problem. -/
theorem Sound.holds_of_model? (h : w.Sound) {m : ModelId} {model : Model}
    (hm : w.model? m = some model) (hf : model.freed = false) :
    ∃ n q, w.Holds m model.core n q.core ∧ model.engine.Owns w.native n q := by
  obtain ⟨n, q, hh⟩ := h.holds (modelCore?_of_model? hm) hf
  obtain ⟨model', q', hm', -, ho, -, rfl⟩ := hh.owns
  cases hm.symm.trans hm'
  exact ⟨n, q', hh, ho⟩

/-! ## §2 Leaving undisturbed -/

/-- Models and problems stay as they are, without regard to what cores leave out. -/
structure Undisturbed (w w' : World) : Prop where
  compliant : w'.Compliant
  script : w'.script = w.script
  models : ∀ k, w'.modelCore? k = w.modelCore? k
  modelCount : w'.models.size = w.models.size
  cores : ∀ k, w'.native.core? k = w.native.core? k
  problemCount : w'.native.problems.size = w.native.problems.size
  extends_ : w.Extends w'

theorem Undisturbed.refl (h : w.Compliant) : Undisturbed w w :=
  ⟨h, rfl, fun _ => rfl, rfl, fun _ => rfl, rfl, Extends.refl w⟩

/-- What two steps leave undisturbed, both together do. -/
theorem Undisturbed.trans (h₁ : Undisturbed w w₁) (h₂ : Undisturbed w₁ w₂) : Undisturbed w w₂ where
  compliant := h₂.compliant
  script := h₂.script.trans h₁.script
  models k := (h₂.models k).trans (h₁.models k)
  modelCount := h₂.modelCount.trans h₁.modelCount
  cores k := (h₂.cores k).trans (h₁.cores k)
  problemCount := h₂.problemCount.trans h₁.problemCount
  extends_ := h₁.extends_.trans h₂.extends_

/-- While a solver runs, models are left undisturbed. -/
theorem Undisturbed.of_running (h : Running w w') : Undisturbed w w' where
  compliant := h.compliant
  script := h.script
  models k := by rw [modelCore?, model?, h.models]; rfl
  modelCount := by rw [h.models]
  cores := h.cores
  problemCount := h.size
  extends_ := h.extends_

theorem Undisturbed.of_idling (h : Idling w w') : Undisturbed w w' := of_running h.toRunning

theorem Undisturbed.of_log (h : w.Compliant) (level : Int) (source text : String) :
    Undisturbed w (w.log level source text) :=
  of_idling ((Idling.kept w).writings (Idling.refl h))

/-- Where nobody is disturbed, the models hold the problems that they held. -/
theorem Undisturbed.holds_iff (h : Undisturbed w w') {m : ModelId} {model : Model} {n : Nat}
    {q : Native.Problem} : w'.Holds m model n q ↔ w.Holds m model n q := by
  constructor
  · exact fun hh => ⟨h.models m ▸ hh.found, hh.unfreed, hh.number, h.cores n ▸ hh.problem, hh.kind⟩
  · exact fun hh => ⟨(h.models m).trans hh.found, hh.unfreed, hh.number,
      (h.cores n).trans hh.problem, hh.kind⟩

theorem Undisturbed.sound (h : Undisturbed w w') (hs : w.Sound) : w'.Sound where
  compliant := h.compliant
  holds hm hf := by
    obtain ⟨n, q, hh⟩ := hs.holds (h.models _ ▸ hm) hf
    exact ⟨n, q, h.holds_iff.mpr hh⟩
  apart h₁ h₂ := hs.apart (h.holds_iff.mp h₁) (h.holds_iff.mp h₂)

/-! ## §3 Editing -/

/-- The core of model `m` is changed by `f`, and problem `n` by the calls `cs`. -/
structure Edits (w w' : World) (m : ModelId) (f : Model → Model) (n : Nat) (cs : List Native.Call) :
    Prop where
  compliant : w'.Compliant
  script : w'.script = w.script
  models : ∀ k, w'.modelCore? k = if k = m then (w.modelCore? m).map f else w.modelCore? k
  modelCount : w'.models.size = w.models.size
  cores : ∀ k, w'.native.core? k =
    if k = n then (w.native.core? n).map fun q => (q.applyAll cs).core else w.native.core? k
  problemCount : w'.native.problems.size = w.native.problems.size
  extends_ : w.Extends w'

/-- To disturb nobody is an edit that changes nothing. -/
theorem Undisturbed.edits (h : Undisturbed w w') (m : ModelId) (n : Nat) : Edits w w' m id n [] where
  compliant := h.compliant
  script := h.script
  models k := by
    rw [h.models k]
    split
    · next hk => rw [hk, Option.map_id, id_eq]
    · rfl
  modelCount := h.modelCount
  cores k := by
    rw [h.cores k]
    split
    · next hk =>
      subst hk
      unfold Native.Store.core?
      cases w.native.problem? k <;> simp
    · rfl
  problemCount := h.problemCount
  extends_ := h.extends_

/-- Two edits of a model are one, with the calls of both. -/
theorem Edits.trans {m : ModelId} {f g : Model → Model} {n : Nat} {cs ds : List Native.Call}
    (h₁ : Edits w w₁ m f n cs) (h₂ : Edits w₁ w₂ m g n ds) : Edits w w₂ m (g ∘ f) n (cs ++ ds) where
  compliant := h₂.compliant
  script := h₂.script.trans h₁.script
  -- at `m` the two changes compose, elsewhere nothing happened
  models k := by
    rw [h₂.models k, h₁.models k, h₁.models m]
    split
    · rw [if_pos rfl, Option.map_map]
    · rfl
  modelCount := h₂.modelCount.trans h₁.modelCount
  cores k := by
    rw [h₂.cores k, h₁.cores k, h₁.cores n]
    split
    · rw [if_pos rfl, Option.map_map]
      congr 1
      funext q
      simp [Native.Problem.applyAll_append, ← Native.Problem.core_applyAll]
    · rfl
  problemCount := h₂.problemCount.trans h₁.problemCount
  extends_ := h₁.extends_.trans h₂.extends_

/-- What stays undisturbed before and after an edit belongs to the edit. -/
theorem Edits.before {m : ModelId} {f : Model → Model} {n : Nat} {cs : List Native.Call}
    (h₂ : Edits w₁ w₂ m f n cs) (h₁ : Undisturbed w w₁) : Edits w w₂ m f n cs :=
  (h₁.edits m n).trans h₂

theorem Edits.andThen {m : ModelId} {f : Model → Model} {n : Nat} {cs : List Native.Call}
    (h₁ : Edits w w₁ m f n cs) (h₂ : Undisturbed w₁ w₂) : Edits w w₂ m f n cs := by
  have h := h₁.trans (h₂.edits m n)
  rwa [List.append_nil] at h

/-- An edit by calls about the problem and a change of the model, with some records written. -/
theorem Edits.of_eq (h : w.Compliant) {m : ModelId} {f : Model → Model}
    (hf : ∀ model, (f model).core = f model.core) {n : Nat} {cs : List Native.Call}
    (hcs : ∀ c ∈ cs, c.IsAbout n) : Edits w ((w.afterAll cs).modifyModel m f) m f n cs where
  compliant := h.afterAll cs
  script := afterAll_script w cs
  models k := by
    rw [modelCore?_modifyModel hf]
    simp [modelCore?]
  modelCount := by simp [modifyModel]
  cores k := by
    show (w.afterAll cs).native.core? k = _
    rw [afterAll_native, Native.Store.core?, Native.Store.problem?_applyAll hcs]
    -- the calls are all about problem `n`, so no other core moves
    split
    · unfold Native.Store.core?
      rw [Option.map_map, Option.map_map]
      congr 1
      funext q
      exact Native.Problem.core_applyAll q cs
    · rfl
  problemCount := by
    show (w.afterAll cs).native.problems.size = _
    rw [afterAll_native, Native.Store.size_applyAll hcs]
  extends_ := Extends.afterAll w cs

/-- What the edited model holds afterwards. -/
theorem Edits.holds {m : ModelId} {f : Model → Model} {n : Nat} {cs : List Native.Call}
    (h : Edits w w' m f n cs) {model : Model} {q : Native.Problem} (hh : w.Holds m model n q)
    (hf : (f model).freed = model.freed) (he : (f model).engine = model.engine) :
    w'.Holds m (f model) n (q.applyAll cs).core where
  found := by rw [h.models m, if_pos rfl, hh.found]; rfl
  unfreed := hf.trans hh.unfreed
  number := by rw [he]; exact hh.number
  problem := by rw [h.cores n, if_pos rfl, hh.problem]; rfl
  kind := by rw [he, Native.Problem.kind?_core, Native.Problem.kind?_applyAll]; exact hh.kind

/-- The other models hold what they held. -/
theorem Edits.holds_other {m : ModelId} {f : Model → Model} {n : Nat} {cs : List Native.Call}
    (h : Edits w w' m f n cs) (hs : w.Sound) {model : Model} {q : Native.Problem}
    (hh : w.Holds m model n q) {m₁ : ModelId} (hne : m₁ ≠ m) {model₁ : Model} {n₁ : Nat}
    {q₁ : Native.Problem} : w'.Holds m₁ model₁ n₁ q₁ ↔ w.Holds m₁ model₁ n₁ q₁ := by
  refine hs.holds_iff_of_same (by rw [h.models m₁, if_neg hne]) fun hh₁ => ?_
  rw [h.cores, if_neg fun heq => hne (hs.apart (heq ▸ hh₁) hh)]

/-- What is held after an edit. -/
theorem Edits.holds_cases {m : ModelId} {f : Model → Model} {n : Nat} {cs : List Native.Call}
    (h : Edits w w' m f n cs) (hs : w.Sound) {model : Model} {q : Native.Problem}
    (hh : w.Holds m model n q) (hf : (f model).freed = model.freed)
    (he : (f model).engine = model.engine) {m₁ : ModelId} {model₁ : Model} {n₁ : Nat}
    {q₁ : Native.Problem} (hh₁ : w'.Holds m₁ model₁ n₁ q₁) :
    (m₁ = m ∧ model₁ = f model ∧ n₁ = n ∧ q₁ = (q.applyAll cs).core) ∨
      (m₁ ≠ m ∧ w.Holds m₁ model₁ n₁ q₁) := by
  by_cases hk : m₁ = m
  · subst hk
    exact Or.inl ⟨rfl, hh₁.unique (h.holds hh hf he)⟩
  · exact Or.inr ⟨hk, (h.holds_other hs hh hk).mp hh₁⟩

/-- An edit of a model by calls about its own problem keeps a state sound. -/
theorem Edits.sound {m : ModelId} {f : Model → Model} {n : Nat} {cs : List Native.Call}
    (h : Edits w w' m f n cs) (hs : w.Sound) {model : Model} {q : Native.Problem}
    (hh : w.Holds m model n q) (hf : (f model).freed = model.freed)
    (he : (f model).engine = model.engine) : w'.Sound :=
  hs.beside h.compliant (h.holds hh hf he) (fun m₁ hne => by rw [h.models, if_neg hne]) (h.holds_other hs hh)
    fun hne hh₁ => hne (hs.apart hh₁ hh)

/-! ## §4 Freeing -/

/-- Model `m` is freed, and the problem `n` that it held is deleted. -/
structure Frees (w w' : World) (m : ModelId) (n : Nat) : Prop where
  compliant : w'.Compliant
  script : w'.script = w.script
  freed : ∀ model, w'.modelCore? m = some model → model.freed = true
  models : ∀ k, k ≠ m → w'.modelCore? k = w.modelCore? k
  vars : (w'.modelCore? m).map Model.vars = (w.modelCore? m).map Model.vars
  modelCount : w'.models.size = w.models.size
  cores : ∀ k, k ≠ n → w'.native.core? k = w.native.core? k
  problemCount : w'.native.problems.size = w.native.problems.size
  extends_ : w.Extends w'
  steady : w.Steady w'

/-- After a model was freed, the others hold what they held, and nothing else is held. -/
theorem Frees.holds_iff {m : ModelId} {n : Nat} (h : Frees w w' m n) (hs : w.Sound) {model : Model}
    {q : Native.Problem} (hh : w.Holds m model n q) {m₁ : ModelId} {model₁ : Model} {n₁ : Nat}
    {q₁ : Native.Problem} : w'.Holds m₁ model₁ n₁ q₁ ↔ m₁ ≠ m ∧ w.Holds m₁ model₁ n₁ q₁ := by
  have hothers (hne : m₁ ≠ m) : w'.Holds m₁ model₁ n₁ q₁ ↔ w.Holds m₁ model₁ n₁ q₁ :=
    hs.holds_iff_of_same (h.models m₁ hne) fun hh₁ => h.cores _ fun heq => hne (hs.apart (heq ▸ hh₁) hh)
  constructor
  · intro hh₁
    -- the freed model holds nothing, so it is not this one
    have hne : m₁ ≠ m := by
      rintro rfl
      exact Bool.noConfusion ((h.freed model₁ hh₁.found).symm.trans hh₁.unfreed)
    exact ⟨hne, (hothers hne).mp hh₁⟩
  · rintro ⟨hne, hh₁⟩
    exact (hothers hne).mpr hh₁

/-- After a model has been freed, the others are sound as before. -/
theorem Frees.sound {m : ModelId} {n : Nat} (h : Frees w w' m n) (hs : w.Sound) {model : Model}
    {q : Native.Problem} (hh : w.Holds m model n q) : w'.Sound where
  compliant := h.compliant
  holds {m₁ model₁} hm hf := by
    have hne : m₁ ≠ m := by
      rintro rfl
      exact Bool.noConfusion ((h.freed model₁ hm).symm.trans hf)
    obtain ⟨n₁, q₁, hh₁⟩ := hs.holds (h.models m₁ hne ▸ hm) hf
    exact ⟨n₁, q₁, (h.holds_iff hs hh).mpr ⟨hne, hh₁⟩⟩
  apart h₁ h₂ := hs.apart ((h.holds_iff hs hh).mp h₁).2 ((h.holds_iff hs hh).mp h₂).2

/-! ## §5 Making -/

/-- A model with the core `model` is made, together with a problem that has the core `q`. -/
structure Makes (w w' : World) (model : Model) (q : Native.Problem) : Prop where
  compliant : w'.Compliant
  script : w'.script = w.script
  models : ∀ k, w'.modelCore? k = if k = w.models.size then some model else w.modelCore? k
  modelCount : w'.models.size = w.models.size + 1
  cores : ∀ k, w'.native.core? k = if k = w.native.next then some q else w.native.core? k
  problemCount : w'.native.problems.size = w.native.problems.size + 1
  extends_ : w.Extends w'
  unfreed : model.freed = false
  number : model.engine.problem = some w.native.next
  kind : q.kind? = some model.engine.kind
  steady : w.Steady w'

/-- Before a model is made, something may happen that disturbs nobody. -/
theorem Makes.before {model : Model} {q : Native.Problem} (h₂ : Makes w₁ w₂ model q)
    (h : Idling w w₁) : Makes w w₂ model q :=
  have h₁ := Undisturbed.of_idling h
  { compliant := h₂.compliant
    script := h₂.script.trans h₁.script
    models := fun k => by rw [h₂.models k, h₁.models k, h₁.modelCount]
    modelCount := by rw [h₂.modelCount, h₁.modelCount]
    cores := fun k => by
      rw [h₂.cores k, h₁.cores k, Native.Store.next, Native.Store.next, h₁.problemCount]
    problemCount := by rw [h₂.problemCount, h₁.problemCount]
    extends_ := h₁.extends_.trans h₂.extends_
    unfreed := h₂.unfreed
    number := by rw [h₂.number, Native.Store.next, Native.Store.next, h₁.problemCount]
    kind := h₂.kind
    steady := h.steady.trans h₂.steady }

theorem Holds.lt_size {m : ModelId} {model : Model} {n : Nat} {q : Native.Problem}
    (h : w.Holds m model n q) : m < w.models.size := by
  obtain ⟨model', hm, -⟩ := Option.map_eq_some_iff.mp h.found
  exact (Array.getElem?_eq_some_iff.mp hm).1

theorem Holds.number_lt_next {m : ModelId} {model : Model} {n : Nat} {q : Native.Problem}
    (h : w.Holds m model n q) : n < w.native.next := by
  obtain ⟨q', hq, -⟩ := Option.map_eq_some_iff.mp h.problem
  exact Nat.lt_succ_of_le (Native.Store.le_size_of_problem?_eq_some hq)

/-- A new model has the number that was the next one. -/
theorem Makes.eq_next {model : Model} {q : Native.Problem} {n : Nat} (h : Makes w w' model q)
    (hn : model.engine.problem = some n) : n = w.native.next :=
  Option.some.inj (hn.symm.trans h.number)

/-- What the new model holds. -/
theorem Makes.holds_new {model : Model} {q : Native.Problem} (h : Makes w w' model q) :
    w'.Holds w.models.size model w.native.next q where
  found := by rw [h.models, if_pos rfl]
  unfreed := h.unfreed
  number := h.number
  problem := by rw [h.cores, if_pos rfl]
  kind := h.kind

/-- The models that there were hold what they held. -/
theorem Makes.holds_old {model : Model} {q : Native.Problem} (h : Makes w w' model q) (hs : w.Sound)
    {m₁ : ModelId} (hne : m₁ ≠ w.models.size) {model₁ : Model} {n₁ : Nat} {q₁ : Native.Problem} :
    w'.Holds m₁ model₁ n₁ q₁ ↔ w.Holds m₁ model₁ n₁ q₁ := by
  refine hs.holds_iff_of_same (by rw [h.models, if_neg hne]) fun hh₁ => ?_
  rw [h.cores, if_neg (Nat.ne_of_lt hh₁.number_lt_next)]

/-- What is held after a model was made. -/
theorem Makes.holds_cases {model : Model} {q : Native.Problem} (h : Makes w w' model q) (hs : w.Sound)
    {m₁ : ModelId} {model₁ : Model} {n₁ : Nat} {q₁ : Native.Problem}
    (hh₁ : w'.Holds m₁ model₁ n₁ q₁) :
    (m₁ = w.models.size ∧ model₁ = model ∧ n₁ = w.native.next ∧ q₁ = q) ∨
      (m₁ ≠ w.models.size ∧ w.Holds m₁ model₁ n₁ q₁) := by
  -- the last model is the one made
  by_cases hk : m₁ = w.models.size
  · subst hk
    exact Or.inl ⟨rfl, hh₁.unique h.holds_new⟩
  · exact Or.inr ⟨hk, (h.holds_old hs hk).mp hh₁⟩

theorem Makes.sound {model : Model} {q : Native.Problem} (h : Makes w w' model q) (hs : w.Sound) :
    w'.Sound :=
  hs.beside h.compliant h.holds_new (fun m₁ hne => by rw [h.models, if_neg hne]) (h.holds_old hs)
    fun _ hh₁ => Nat.lt_irrefl _ hh₁.number_lt_next

/-- What is held after a model was made and then edited. -/
theorem Makes.holds_cases_of_edits {model : Model} {q : Native.Problem} {n : Nat} (h₁ : Makes w w₁ model q)
    (hs : w.Sound) (hn : model.engine.problem = some n) {f : Model → Model} {cs : List Native.Call}
    (h₂ : Edits w₁ w₂ w.models.size f n cs) (hf : (f model).freed = model.freed)
    (he : (f model).engine = model.engine) {m₁ : ModelId} {model₁ : Model} {n₁ : Nat} {q₁ : Native.Problem}
    (hh₁ : w₂.Holds m₁ model₁ n₁ q₁) :
    (m₁ = w.models.size ∧ model₁ = f model ∧ q₁ = (q.applyAll cs).core) ∨
      (m₁ ≠ w.models.size ∧ w.Holds m₁ model₁ n₁ q₁) := by
  obtain rfl := h₁.eq_next hn
  rcases h₂.holds_cases (h₁.sound hs) h₁.holds_new hf he hh₁ with ⟨hm, hmodel, -, hq⟩ | ⟨hne, hold⟩
  · exact .inl ⟨hm, hmodel, hq⟩
  · exact .inr ⟨hne, (h₁.holds_old hs hne).mp hold⟩

/-- Making a model and then editing it leaves what was held. -/
theorem Makes.holds_of_edits {model : Model} {q : Native.Problem} {n : Nat} (h₁ : Makes w w₁ model q)
    (hs : w.Sound) (hn : model.engine.problem = some n) {f : Model → Model} {cs : List Native.Call}
    (h₂ : Edits w₁ w₂ w.models.size f n cs) {m₁ : ModelId} {model₁ : Model} {n₁ : Nat} {q₁ : Native.Problem}
    (hh₁ : w.Holds m₁ model₁ n₁ q₁) : w₂.Holds m₁ model₁ n₁ q₁ := by
  obtain rfl := h₁.eq_next hn
  have hne : m₁ ≠ w.models.size := Nat.ne_of_lt hh₁.lt_size
  exact (h₂.holds_other (h₁.sound hs) h₁.holds_new hne).mpr ((h₁.holds_old hs hne).mpr hh₁)

/-- Making a model and at once freeing it leaves what was held, and nothing else is held. -/
theorem Makes.holds_iff_of_frees {model : Model} {q : Native.Problem} {n : Nat} (h₁ : Makes w w₁ model q)
    (hs : w.Sound) (hn : model.engine.problem = some n) (h₂ : Frees w₁ w₂ w.models.size n) {m₁ : ModelId}
    {model₁ : Model} {n₁ : Nat} {q₁ : Native.Problem} :
    w₂.Holds m₁ model₁ n₁ q₁ ↔ w.Holds m₁ model₁ n₁ q₁ := by
  obtain rfl := h₁.eq_next hn
  rw [h₂.holds_iff (h₁.sound hs) h₁.holds_new]
  constructor
  · rintro ⟨hne, hh₁⟩
    exact (h₁.holds_old hs hne).mp hh₁
  · intro hh₁
    -- a model that was there before is not the one made and freed
    have hne : m₁ ≠ w.models.size := Nat.ne_of_lt hh₁.lt_size
    exact ⟨hne, (h₁.holds_old hs hne).mpr hh₁⟩

end World

end LinearProgram
