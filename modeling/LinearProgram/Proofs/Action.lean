import LinearProgram.World

/-!
# Running actions

How an action runs: one equation for every way in which actions are put together. They turn
`Action.on` into a function of the state, so that later proofs run an operation by rewriting and never
open the monad.

The second half is about what an action keeps. `Action.Preserves P a` says that `a` leads from states
with the property `P` to states with `P`, whether it answers or fails, and `Action.Returns P a` that it
also answers. Both hold of a compound action as soon as they hold of its parts.
-/

namespace LinearProgram.Action

variable {α β : Type}

/-! ## §1 Equations for running -/

/-- Moments are told in the order in which they pass, so it does not matter how steps are grouped. -/
instance : LawfulMonad Told :=
  LawfulMonad.mk' Told (fun a => Prod.ext rfl (List.append_nil a.2)) (fun _ _ => rfl)
    fun _ _ _ => Prod.ext rfl (List.append_assoc ..)

@[simp] theorem on_pure (a : α) (w : World) : (pure a : Action α).on w = (.ok a, w) := rfl

/-- One step after the other, if the first does not fail. The moments of the first come first. -/
theorem watch_bind (a : Action α) (f : α → Action β) (w : World) :
    (a >>= f).watch w =
      match a.watch w with
      | ((.ok x, w'), t) => (((f x).watch w').1, t ++ ((f x).watch w').2)
      | ((.error fault, w'), t) => ((.error fault, w'), t) := by
  show (do
    let outcome ← (a w : Told _)
    ExceptT.bindCont f outcome.1 outcome.2 : Told _) = _
  unfold watch ExceptT.run StateT.run
  rcases a w with ⟨⟨fault | x, w'⟩, t⟩
  · -- the rest never runs, so it adds no moments
    exact congrArg (Prod.mk _) (List.append_nil t)
  · rfl

/-- A sequence goes on with the answer of its first part, in the state that this part left, or ends with its
fault. -/
theorem on_bind (a : Action α) (f : α → Action β) (w : World) :
    (a >>= f).on w =
      match a.on w with
      | (.ok x, w') => (f x).on w'
      | (.error fault, w') => (.error fault, w') := by
  unfold on
  rw [watch_bind]
  rcases a.watch w with ⟨⟨fault | x, w'⟩, t⟩ <;> rfl

/-- A first step that answers hands over to the second. -/
theorem on_bind_of_ok {a : Action α} {w w' : World} {x : α} (h : a.on w = (.ok x, w'))
    (f : α → Action β) : (a >>= f).on w = (f x).on w' := by
  rw [on_bind, h]

/-- A first step that fails is the end. -/
theorem on_bind_of_error {a : Action α} {w w' : World} {fault : Fault}
    (h : a.on w = (.error fault, w')) (f : α → Action β) :
    (a >>= f).on w = (.error fault, w') := by
  rw [on_bind, h]

/-- A compound action answers exactly when both steps do. -/
theorem on_bind_eq_ok {a : Action α} {f : α → Action β} {w w' : World} {y : β} :
    (a >>= f).on w = (.ok y, w') ↔
      ∃ x w₁, a.on w = (.ok x, w₁) ∧ (f x).on w₁ = (.ok y, w') := by
  rw [on_bind]
  rcases h : a.on w with ⟨x | x, w₁⟩
  · simp
  · constructor
    · intro hf
      exact ⟨x, w₁, rfl, hf⟩
    · rintro ⟨x', w₁', he, hf⟩
      cases he
      exact hf

theorem on_pure_eq_ok {a x : α} {w w' : World} :
    (pure a : Action α).on w = (.ok x, w') ↔ a = x ∧ w = w' := by simp

@[simp] theorem on_map (f : α → β) (a : Action α) (w : World) :
    (f <$> a).on w = ((a.on w).1.map f, (a.on w).2) := by
  show (ExceptT.map f a w : Told _).1 = _
  simp only [ExceptT.map, ExceptT.mk, bind, StateT.bind, on, watch, ExceptT.run, StateT.run]
  rcases a w with ⟨⟨fault | x, w'⟩, t⟩ <;> rfl

@[simp] theorem on_get (w : World) : (get : Action World).on w = (.ok w, w) := rfl

@[simp] theorem on_set (v w : World) : (set v : Action PUnit).on w = (.ok ⟨⟩, v) := rfl

@[simp] theorem on_modify (f : World → World) (w : World) :
    (modify f : Action PUnit).on w = (.ok ⟨⟩, f w) := rfl

/-- The moments do not matter to what comes out. -/
@[simp] theorem on_tell (x : World → Moment) (w : World) : (tell x).on w = (.ok (), w) := rfl

@[simp] theorem on_fail (fault : Fault) (w : World) :
    (fail fault : Action α).on w = (.error fault, w) := rfl

@[simp] theorem on_lift (r : Except Fault α) (w : World) : (lift r).on w = (r, w) := by
  cases r <;> rfl

/-- A computation that answers hands its answer over. -/
theorem on_lift_bind_eq_ok {r : Except Fault α} {f : α → Action β} {w w' : World} {y : β} :
    (lift r >>= f).on w = (.ok y, w') ↔ ∃ x, r = .ok x ∧ (f x).on w = (.ok y, w') := by
  rw [on_bind, on_lift]
  cases r with
  | error fault => simp
  | ok x => simp

/-- What is ensured runs in the state that the body left, and a fault of it takes the place of the answer. -/
theorem on_ensuring (body : Action α) (cleanup : Action Unit) (w : World) :
    (ensuring body cleanup).on w =
      match cleanup.on (body.on w).2 with
      | (.ok (), w') => ((body.on w).1, w')
      | (.error fault, w') => (.error fault, w') := by
  show (ensuring body cleanup w).1 = _
  unfold ensuring on
  rcases body.watch w with ⟨⟨r, w₁⟩, before⟩
  dsimp only
  -- a fault of the clean-up takes the place of whatever the body answered
  rcases cleanup.watch w₁ with ⟨⟨fault | x, w'⟩, after⟩ <;> rfl

/-- An answer comes out only if both the body and what is ensured end well. -/
theorem on_ensuring_eq_ok {body : Action α} {cleanup : Action Unit} {w w' : World} {x : α} :
    (ensuring body cleanup).on w = (.ok x, w') ↔
      ∃ w₁, body.on w = (.ok x, w₁) ∧ cleanup.on w₁ = (.ok (), w') := by
  rw [on_ensuring]
  rcases hb : body.on w with ⟨answer, w₁⟩
  constructor
  · intro h
    dsimp only at h
    rcases hc : cleanup.on w₁ with ⟨fault | ⟨⟩, w₂⟩
    · -- the clean-up failed, so the whole cannot have answered
      rw [hc] at h
      cases h
    · rw [hc] at h
      cases h
      exact ⟨w₁, rfl, hc⟩
  · rintro ⟨w₂, h, hc⟩
    cases h
    dsimp only
    rw [hc]

/-- A handler sees the state in which the fault arose. -/
theorem on_recovering (body : Action α) (handler : Fault → Action α) (w : World) :
    (recovering body handler).on w =
      match body.on w with
      | (.ok x, w') => (.ok x, w')
      | (.error fault, w') => (handler fault).on w' := by
  show (recovering body handler w).1 = _
  unfold recovering on
  rcases body.watch w with ⟨⟨fault | x, w'⟩, before⟩ <;> rfl

@[simp] theorem on_debug (source text : String) (w : World) :
    (debug source text).on w = (.ok (), w.log LogRecord.debug source text) := rfl

@[simp] theorem on_logError (source text : String) (w : World) :
    (logError source text).on w = (.ok (), w.log LogRecord.error source text) := rfl

@[simp] theorem on_updateModel (m : ModelId) (f : Model → Model) (w : World) :
    (updateModel m f).on w = (.ok (), w.modifyModel m f) := rfl

@[simp] theorem on_contextError (c : ContextId) (w : World) :
    (contextError c).on w =
      (.ok (w.contexts.error w.clock c).1,
        { w with contexts := (w.contexts.error w.clock c).2 }) := rfl

/-- A model that has never been made counts as closed. -/
theorem on_model (m : ModelId) (w : World) :
    (model m).on w =
      match w.model? m with
      | some model => (.ok model, w)
      | none => (.error .closed, w) := by
  unfold Action.model
  rw [on_bind, on_get]
  dsimp only
  cases w.model? m <;> rfl

theorem on_model_of_some {m : ModelId} {w : World} {model : Model}
    (h : w.model? m = some model) : (Action.model m).on w = (.ok model, w) := by
  rw [on_model, h]

theorem on_model_eq_ok {m : ModelId} {w w' : World} {model : Model}
    (h : (Action.model m).on w = (.ok model, w')) : w.model? m = some model ∧ w = w' := by
  rw [on_model] at h
  cases hm : w.model? m with
  -- an unknown model answers a fault
  | none =>
    rw [hm] at h
    cases h
  | some model' =>
    rw [hm] at h
    cases h
    exact ⟨rfl, rfl⟩

/-- Looking for an open model changes nothing, and a freed model is refused. -/
theorem on_openModel (m : ModelId) (w : World) :
    (openModel m).on w =
      match w.model? m with
      | some model => (if model.freed then .error .closed else .ok model, w)
      | none => (.error .closed, w) := by
  unfold openModel
  rw [on_bind, on_model]
  cases w.model? m with
  | none => rfl
  | some model => dsimp only; cases model.freed <;> rfl

theorem on_openModel_of_open {m : ModelId} {w : World} {model : Model}
    (h : w.model? m = some model) (hopen : model.freed = false) :
    (openModel m).on w = (.ok model, w) := by
  rw [on_openModel, h]
  simp [hopen]

/-- Looking an open model up changes nothing, and what it finds is open. -/
theorem on_openModel_cases (m : ModelId) (w : World) :
    (∃ model, w.model? m = some model ∧ model.freed = false ∧
        (openModel m).on w = (.ok model, w)) ∨
      (openModel m).on w = (.error .closed, w) := by
  rw [on_openModel]
  cases h : w.model? m with
  | none => exact Or.inr rfl
  | some model =>
    cases hf : model.freed with
    | false => exact Or.inl ⟨model, rfl, hf, by simp [hf]⟩
    | true => exact Or.inr (by simp [hf])

/-- Whoever gets hold of an open model finds it in the state. -/
theorem on_openModel_eq_ok {m : ModelId} {w w' : World} {model : Model}
    (h : (openModel m).on w = (.ok model, w')) : w.model? m = some model ∧ w = w' := by
  rcases on_openModel_cases m w with ⟨model', hm, -, hon⟩ | hon
  · rw [hon] at h
    cases h
    exact ⟨hm, rfl⟩
  · rw [hon] at h
    cases h

/-! ## §2 What actions keep -/

/-- The action leads from states with the property to states with the property, however it ends. -/
def Preserves (P : World → Prop) (a : Action α) : Prop := ∀ w, P w → P (a.on w).2

namespace Preserves

variable {P : World → Prop}

theorem pure (a : α) : Preserves P (Pure.pure a : Action α) := fun _ h => h

theorem fail (fault : Fault) : Preserves P (Action.fail fault : Action α) := fun _ h => h

theorem lift (r : Except Fault α) : Preserves P (Action.lift r) := by
  intro w h
  rw [on_lift]
  exact h

theorem get : Preserves P (MonadState.get : Action World) := fun _ h => h

theorem tell (x : World → Moment) : Preserves P (Action.tell x) := fun _ h => h

/-- A first step that leads to such a state from this one, and then what keeps the property. -/
theorem bind_on {a : Action α} {f : α → Action β} (hf : ∀ x, Preserves P (f x)) {w : World}
    (h : P (a.on w).2) : P ((a >>= f).on w).2 := by
  rw [on_bind]
  rcases hr : a.on w with ⟨fault | x, w'⟩
  · rw [hr] at h
    exact h
  · rw [hr] at h
    exact hf x w' h

theorem bind {a : Action α} {f : α → Action β} (ha : Preserves P a)
    (hf : ∀ x, Preserves P (f x)) : Preserves P (a >>= f) :=
  fun w h => bind_on hf (ha w h)

/-- What the first step answers may be known when the second is looked at. -/
theorem bind_of {a : Action α} {f : α → Action β} (ha : Preserves P a)
    (hf : ∀ w x w', P w → a.on w = (.ok x, w') → Preserves P (f x)) : Preserves P (a >>= f) := by
  intro w hw
  have h₁ := ha w hw
  rw [on_bind]
  rcases hon : a.on w with ⟨fault | x, w'⟩
  · -- the first step failed and left a world it preserves
    rw [hon] at h₁
    exact h₁
  · rw [hon] at h₁
    exact hf w x w' hw hon w' h₁

theorem map {a : Action α} (f : α → β) (ha : Preserves P a) : Preserves P (f <$> a) := by
  intro w h
  rw [on_map]
  exact ha w h

theorem change {f : World → World} (hf : ∀ w, P w → P (f w)) :
    Preserves P (modify f : Action PUnit) := hf

/-- A property that body and cleanup preserve holds in the end, also where the body has failed. -/
theorem ensuring {body : Action α} {cleanup : Action Unit} (hb : Preserves P body)
    (hc : Preserves P cleanup) : Preserves P (Action.ensuring body cleanup) := by
  intro w h
  have h₁ := hc _ (hb w h)
  rw [on_ensuring]
  rcases hr : cleanup.on (body.on w).2 with ⟨fault | x, w'⟩ <;>
  · rw [hr] at h₁
    exact h₁

/-- A body that leads to such a state from this one, and a handler that keeps the property. -/
theorem recovering_on {body : Action α} {handler : Fault → Action α} (hh : ∀ fault, Preserves P (handler fault))
    {w : World} (h : P (body.on w).2) : P ((Action.recovering body handler).on w).2 := by
  rw [on_recovering]
  rcases hr : body.on w with ⟨fault | x, w'⟩
  · rw [hr] at h
    exact hh fault w' h
  · rw [hr] at h
    exact h

theorem recovering {body : Action α} {handler : Fault → Action α} (hb : Preserves P body)
    (hh : ∀ fault, Preserves P (handler fault)) : Preserves P (Action.recovering body handler) :=
  fun w h => recovering_on hh (hb w h)

end Preserves

/-- From states with the property, the action answers, and leads to states with the property. -/
def Returns (P : World → Prop) (a : Action α) : Prop :=
  ∀ w, P w → ∃ x w', a.on w = (.ok x, w') ∧ P w'

namespace Returns

variable {P : World → Prop}

/-- An action that returns to a property preserves it. -/
theorem preserves {a : Action α} (h : Returns P a) : Preserves P a := by
  intro w hw
  obtain ⟨x, w', ha, hw'⟩ := h w hw
  rw [ha]
  exact hw'

theorem pure (a : α) : Returns P (Pure.pure a : Action α) := fun w h => ⟨a, w, rfl, h⟩

theorem get : Returns P (MonadState.get : Action World) := fun w h => ⟨w, w, rfl, h⟩

theorem tell (x : World → Moment) : Returns P (Action.tell x) := fun w h => ⟨(), w, rfl, h⟩

theorem bind {a : Action α} {f : α → Action β} (ha : Returns P a) (hf : ∀ x, Returns P (f x)) :
    Returns P (a >>= f) := by
  intro w h
  obtain ⟨x, w₁, ha, h₁⟩ := ha w h
  rw [on_bind_of_ok ha]
  exact hf x w₁ h₁

theorem change {f : World → World} (hf : ∀ w, P w → P (f w)) :
    Returns P (modify f : Action PUnit) := fun w h => ⟨⟨⟩, f w, rfl, hf w h⟩

end Returns

/-! ## §3 What actions tell -/

/-- A first step that answers hands over to the second. -/
theorem watch_bind_of_ok {a : Action α} {w w' : World} {x : α} {t : List Moment}
    (h : a.watch w = ((.ok x, w'), t)) (f : α → Action β) :
    (a >>= f).watch w = (((f x).watch w').1, t ++ ((f x).watch w').2) := by
  rw [watch_bind, h]

/-- A first step that fails is the end. -/
theorem watch_bind_of_error {a : Action α} {w w' : World} {fault : Fault} {t : List Moment}
    (h : a.watch w = ((.error fault, w'), t)) (f : α → Action β) :
    (a >>= f).watch w = ((.error fault, w'), t) := by
  rw [watch_bind, h]

/-- The action tells no moments. -/
def Tacit (a : Action α) : Prop := ∀ w, (a.watch w).2 = []

namespace Tacit

theorem watch_eq {a : Action α} (h : Tacit a) (w : World) : a.watch w = (a.on w, []) := Prod.ext rfl (h w)

theorem pure (x : α) : Tacit (Pure.pure x : Action α) := fun _ => rfl

theorem fail (fault : Fault) : Tacit (Action.fail fault : Action α) := fun _ => rfl

theorem get : Tacit (MonadState.get : Action World) := fun _ => rfl

theorem set (v : World) : Tacit (MonadStateOf.set v : Action PUnit) := fun _ => rfl

theorem change (f : World → World) : Tacit (modify f : Action PUnit) := fun _ => rfl

theorem contextError (c : ContextId) : Tacit (contextError c) := fun _ => rfl

theorem lift (r : Except Fault α) : Tacit (Action.lift r) := by cases r <;> exact fun _ => rfl

/-- A sequence of actions that tell nothing tells nothing. -/
theorem bind {a : Action α} {f : α → Action β} (ha : Tacit a) (hf : ∀ x, Tacit (f x)) : Tacit (a >>= f) := by
  intro w
  rcases hon : a.on w with ⟨fault | x, w'⟩
  · rw [watch_bind_of_error ((ha.watch_eq w).trans (congrArg (·, []) hon))]
  · rw [watch_bind_of_ok ((ha.watch_eq w).trans (congrArg (·, []) hon))]
    exact hf x w'

theorem model (m : ModelId) : Tacit (model m) := by
  refine Tacit.get.bind fun w => ?_
  split
  · exact .pure _
  · exact .fail _

theorem openModel (m : ModelId) : Tacit (openModel m) := by
  refine (Tacit.model m).bind fun model => ?_
  split
  · exact .fail _
  · exact .pure _

theorem call (c : Native.Call) : Tacit (call c) := by
  refine Tacit.get.bind fun w => ?_
  split
  · exact .pure _
  · exact (Tacit.set _).bind fun _ => .pure _

end Tacit

/-- Before what tells moments, one may do what tells none. -/
theorem watch_bind_of_tacit {a : Action α} (ha : Tacit a) {w w' : World} {x : α} (h : a.on w = (.ok x, w'))
    (f : α → Action β) : (a >>= f).watch w = (f x).watch w' := by
  rw [watch_bind_of_ok ((ha.watch_eq w).trans (congrArg (·, []) h))]
  rfl

/-- A cleanup that tells nothing and ends well adds no moment to those of the body. -/
theorem watch_ensuring_of_ok {body : Action α} {cleanup : Action Unit} (hc : Tacit cleanup) {w w' : World}
    (h : cleanup.on (body.watch w).1.2 = (.ok (), w')) :
    (ensuring body cleanup).watch w = (((body.watch w).1.1, w'), (body.watch w).2) := by
  have hclean := (hc.watch_eq _).trans (congrArg (·, []) h)
  show ensuring body cleanup w = _
  unfold ensuring
  simp only [hclean, List.append_nil]
  rfl

theorem watch_recovering_of_ok {body : Action α} {w w' : World} {x : α} {t : List Moment}
    (h : body.watch w = ((.ok x, w'), t)) (handler : Fault → Action α) :
    (recovering body handler).watch w = ((.ok x, w'), t) := by
  show recovering body handler w = _
  unfold recovering
  rw [h]

/-- A handler that tells nothing adds no moment to those that led to the fault. -/
theorem watch_recovering_of_error {body : Action α} {handler : Fault → Action α} {w w' : World} {fault : Fault}
    {t : List Moment} (h : body.watch w = ((.error fault, w'), t)) (hh : Tacit (handler fault)) :
    (recovering body handler).watch w = ((handler fault).on w', t) := by
  show recovering body handler w = _
  unfold recovering
  simp only [h, hh.watch_eq, List.append_nil]
  rfl

/-- Where there is no handle, the body does not run and there are no moments. -/
theorem watch_registered_of_error {target : Target} {body : Handle → Action α} {w : World} {fault : Fault}
    (h : w.registry.register target = .error fault) :
    (registered target body).watch w = ((.error fault, w), []) := by
  unfold registered
  rw [watch_bind_of_tacit .get (on_get w)]
  exact watch_bind_of_error (((Tacit.lift _).watch_eq w).trans (by rw [on_lift, h])) _

/-- What was registered is given up when the body has ended. -/
theorem watch_registered_of_ok {target : Target} {body : Handle → Action α} {w : World} {h : Handle}
    {r r' : Registry Target} (hreg : w.registry.register target = .ok (h, r))
    (hun : ((body h).watch { w with registry := r }).1.2.registry.unregister h = .ok r') :
    (registered target body).watch w =
      let run := (body h).watch { w with registry := r }
      ((run.1.1, { run.1.2 with registry := r' }), run.2 ++ [.leaving run.1.2 h]) := by
  unfold registered
  rw [watch_bind_of_tacit .get (on_get w), watch_bind_of_tacit (.lift _) ((on_lift _ w).trans (by rw [hreg])),
    watch_bind_of_tacit (.change _) (on_modify _ w)]
  -- what the body leaves decides which registry the clean-up works on
  rcases hbody : (body h).watch { w with registry := r } with ⟨⟨answer, w₁⟩, t⟩
  rw [hbody] at hun
  dsimp only at hun
  -- the clean-up alone: it tells that the handle goes and releases it
  have hclean : (do
      tell fun w => .leaving w h
      let registry ← lift ((← get).registry.unregister h)
      modify fun w => { w with registry := registry } : Action Unit).watch w₁ =
        ((.ok (), { w₁ with registry := r' }), [.leaving w₁ h]) := by
    have htold : (tell fun w => .leaving w h).watch w₁ = ((.ok (), w₁), [.leaving w₁ h]) := rfl
    rw [watch_bind_of_ok htold, watch_bind_of_tacit .get (on_get w₁),
      watch_bind_of_tacit (.lift _) ((on_lift _ w₁).trans (by rw [hun]))]
    rfl
  show ensuring (body h) _ { w with registry := r } = _
  unfold ensuring
  rw [hbody]
  simp only [hclean]
  rfl

end LinearProgram.Action
