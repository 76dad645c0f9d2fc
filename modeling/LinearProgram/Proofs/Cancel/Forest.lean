import LinearProgram.Cancel.Forest

/-!
# What the operations on contexts do to a forest

Finishing, canceling and asking all do one kind of thing: they record one and the same cause in some
contexts that had none. `Finishes` says so, and everything that outlasts the operations is read off it. An
answer to the question why a context is done is recorded in that context before it is given.

Making a context leaves all others as they are, but for the list of children of its parent.
-/

namespace LinearProgram

namespace Forest

variable {f f' f'' : Forest} {cause : Interruption}

/-! ## §1 One context -/

/-- A change to one context leaves the others as they are. -/
theorem context?_modify (f : Forest) (c k : ContextId) (g : Context → Context) :
    (f.modify c g).context? k = if k = c then (f.context? k).map g else f.context? k := by
  unfold modify context?
  rw [Array.getElem?_modify]
  by_cases h : c = k
  · simp [h]
  · simp [h, Ne.symm h]

theorem context?_eq_none_iff {c : ContextId} : f.context? c = none ↔ f.size ≤ c := by
  simp [context?, size]

@[simp]
theorem size_modify (c : ContextId) (g : Context → Context) : (f.modify c g).size = f.size := by
  simp [modify, size]

@[simp]
theorem parent?_modify (f : Forest) (c k : ContextId) {g : Context → Context}
    (hg : ∀ node, (g node).parent = node.parent) : (f.modify c g).parent? k = f.parent? k := by
  rw [parent?, parent?, context?_modify]
  split <;> cases f.context? k <;> simp [hg]

@[simp]
theorem deadline?_modify (f : Forest) (c k : ContextId) {g : Context → Context}
    (hg : ∀ node, (g node).deadline = node.deadline) : (f.modify c g).deadline? k = f.deadline? k := by
  rw [deadline?, deadline?, context?_modify]
  split <;> cases f.context? k <;> simp [hg]

theorem recorded_modify_of_error (f : Forest) (c k : ContextId) {g : Context → Context}
    (hg : ∀ node, (g node).error = node.error) : (f.modify c g).recorded k = f.recorded k := by
  rw [recorded, recorded, context?_modify]
  split <;> cases f.context? k <;> simp [hg]

theorem lt_size_of_context? {c : ContextId} {node : Context} (h : f.context? c = some node) : c < f.size :=
  (Array.getElem?_eq_some_iff.mp h).1

theorem lt_size_of_parent? {c p : ContextId} (h : f.parent? c = some p) : c < f.size := by
  obtain ⟨node, hnode, -⟩ := Option.bind_eq_some_iff.mp h
  exact lt_size_of_context? hnode

theorem lt_size_of_deadline? {c : ContextId} {d : Number} (h : f.deadline? c = some d) : c < f.size := by
  obtain ⟨node, hnode, -⟩ := Option.bind_eq_some_iff.mp h
  exact lt_size_of_context? hnode

theorem lt_size_of_recorded {c : ContextId} (h : f.recorded c = some cause) : c < f.size := by
  obtain ⟨node, hnode, -⟩ := Option.bind_eq_some_iff.mp h
  exact lt_size_of_context? hnode

/-- A live context is one that is there and has no cause. -/
theorem isLive_iff {c : ContextId} : f.isLive c = true ↔ c < f.size ∧ f.recorded c = none := by
  rw [isLive, recorded]
  rcases h : f.context? c with _ | node
  · have := context?_eq_none_iff.mp h
    simp [Nat.not_lt.mpr this]
  · simp [lt_size_of_context? h]

/-! ## §2 Causes that are recorded -/

/-- `f'` is `f` with one and the same cause recorded in some contexts that had none. -/
structure Finishes (f f' : Forest) (cause : Interruption) : Prop where
  size_eq : f'.size = f.size
  parent_eq : ∀ c, f'.parent? c = f.parent? c
  deadline_eq : ∀ c, f'.deadline? c = f.deadline? c
  recorded_or : ∀ c, f'.recorded c = f.recorded c ∨ f.recorded c = none ∧ f'.recorded c = some cause

namespace Finishes

theorem refl (f : Forest) (cause : Interruption) : f.Finishes f cause :=
  ⟨rfl, fun _ => rfl, fun _ => rfl, fun _ => Or.inl rfl⟩

/-- Two waves of one cause are one. -/
theorem trans (h₁ : f.Finishes f' cause) (h₂ : f'.Finishes f'' cause) : f.Finishes f'' cause where
  size_eq := h₂.size_eq.trans h₁.size_eq
  parent_eq c := (h₂.parent_eq c).trans (h₁.parent_eq c)
  deadline_eq c := (h₂.deadline_eq c).trans (h₁.deadline_eq c)
  recorded_or c := by
    rcases h₂.recorded_or c with h | ⟨h, h'⟩
    · rw [h]
      exact h₁.recorded_or c
    · -- a context that finished in the first part cannot finish again
      rcases h₁.recorded_or c with heq | ⟨-, hsome⟩
      · exact Or.inr ⟨heq ▸ h, h'⟩
      · rw [h] at hsome
        cases hsome

/-- A cause that is recorded is never replaced. -/
theorem recorded (h : f.Finishes f' cause) {c : ContextId} {old : Interruption}
    (hold : f.recorded c = some old) : f'.recorded c = some old := by
  rcases h.recorded_or c with heq | ⟨hnone, -⟩
  · rw [heq, hold]
  · rw [hold] at hnone
    cases hnone

end Finishes

/-- To settle a context is to record a cause for it, and for no other. -/
theorem recorded_settle (f : Forest) (c k : ContextId) (cause : Interruption) :
    (f.settle c cause).recorded k = if k = c ∧ c < f.size then some cause else f.recorded k := by
  have hown : (f.modify c fun node => { node with error := some cause, children := [] }).recorded k =
      if k = c ∧ c < f.size then some cause else f.recorded k := by
    rw [recorded, recorded, context?_modify]
    by_cases hk : k = c
    · subst hk
      rcases h : f.context? k with _ | node
      · have := context?_eq_none_iff.mp h
        simp [this]
      · -- a context of the forest, which the change marks
        simp [lt_size_of_context? h]
    · simp [hk]
  unfold settle
  split
  · rw [recorded_modify_of_error _ _ _ (by simp), hown]
  · exact hown

/-- Recording the cause of a live context. -/
theorem settle_finishes {c : ContextId} (hlive : f.isLive c = true) (cause : Interruption) :
    f.Finishes (f.settle c cause) cause where
  size_eq := by
    unfold settle
    split <;> simp
  parent_eq k := by
    unfold settle
    split <;> simp
  deadline_eq k := by
    unfold settle
    split <;> simp
  recorded_or k := by
    -- the one context that changes was live before
    rw [recorded_settle]
    split
    · next h => exact Or.inr ⟨h.1 ▸ (isLive_iff.mp hlive).2, rfl⟩
    · exact Or.inl rfl

/-- A cascade changes no more than causes and lists of children. -/
theorem cascade_finishes (cause : Interruption) (f : Forest) (pending : List ContextId) :
    f.Finishes (f.cascade cause pending) cause := by
  fun_induction cascade cause f pending with
  | case1 f => exact .refl f cause
  | case2 f c rest hlive ih => exact (settle_finishes hlive cause).trans ih
  | case3 f c rest hlive ih => exact ih

/-- What a cascade has to finish is done after it. -/
theorem recorded_cascade (cause : Interruption) (f : Forest) (pending : List ContextId) :
    ∀ c ∈ pending, c < f.size → (f.cascade cause pending).recorded c ≠ none := by
  fun_induction cascade cause f pending with
  | case1 f => simp
  | case2 f c rest hlive ih =>
    intro k hk hlt
    have hsettled := settle_finishes hlive cause
    rcases List.mem_cons.mp hk with rfl | hk
    · -- the first one that is pending is settled here, and nothing takes a cause away later
      have : (f.settle k cause).recorded k = some cause := by
        rw [recorded_settle, if_pos ⟨rfl, hlt⟩]
      rw [(cascade_finishes cause _ _).recorded this]
      simp
    · exact ih k (List.mem_append_right _ hk) (by rw [hsettled.size_eq]; exact hlt)
  | case3 f c rest hlive ih =>
    intro k hk hlt
    rcases List.mem_cons.mp hk with rfl | hk
    · obtain ⟨old, hold⟩ := Option.ne_none_iff_exists'.mp fun h => hlive (isLive_iff.mpr ⟨hlt, h⟩)
      rw [(cascade_finishes cause _ _).recorded hold]
      simp
    · exact ih k hk hlt

theorem finish_finishes (f : Forest) (c : ContextId) (cause : Interruption) :
    f.Finishes (f.finish c cause) cause := cascade_finishes cause f [c]

/-- Finishing a context that has no cause records the cause. -/
theorem recorded_finish {c : ContextId} (hlt : c < f.size) (hnone : f.recorded c = none) :
    (f.finish c cause).recorded c = some cause := by
  rcases (finish_finishes f c cause).recorded_or c with heq | ⟨-, hsome⟩
  · exact absurd (heq.trans hnone) (recorded_cascade cause f [c] c (by simp) hlt)
  · exact hsome

/-! ## §3 Asking -/

theorem error_of_recorded {c : ContextId} (h : f.recorded c = some cause) (now : Number) :
    f.error now c = (some cause, f) := by
  rw [error, h]

/-- What the parent of a context answers. -/
def askParent (f : Forest) (now : Number) (c : ContextId) : Option Interruption × Forest :=
  match f.parent? c with
  | some p => if p < c then f.error now p else (none, f)
  | none => (none, f)

/-- A context without a cause asks its parent first, and then looks at its own deadline. -/
theorem error_of_live {c : ContextId} (h : f.recorded c = none) (now : Number) :
    f.error now c =
      match (f.askParent now c).1 with
      | some cause => (some cause, (f.askParent now c).2.finish c cause)
      | none =>
        let f' := (f.askParent now c).2
        match f'.deadline? c with
        | some d =>
          if d.atMost now then
            ((f'.finish c .deadlineExceeded).recorded c, f'.finish c .deadlineExceeded)
          else (none, f')
        | none => (none, f') := by
  rw [error, h]
  rfl

/-- **Asking** changes nothing when the context is not done. Otherwise the answer is the only cause that is
recorded on the way, and it is recorded in the context itself. -/
theorem error_spec (f : Forest) (now : Number) (c : ContextId) :
    ((f.error now c).1 = none → (f.error now c).2 = f) ∧
    ∀ cause, (f.error now c).1 = some cause →
      f.Finishes (f.error now c).2 cause ∧ (f.error now c).2.recorded c = some cause := by
  induction c using Nat.strongRecOn with
  | ind c ih =>
  rcases hr : f.recorded c with _ | old
  case some =>
    rw [error_of_recorded hr]
    refine ⟨by simp, fun cause h => ?_⟩
    cases h
    exact ⟨.refl f _, hr⟩
  case none =>
  have hparent : ((f.askParent now c).1 = none → (f.askParent now c).2 = f) ∧
      ∀ cause, (f.askParent now c).1 = some cause →
        c < f.size ∧ f.Finishes (f.askParent now c).2 cause := by
    unfold askParent
    split
    · next p hp =>
      split
      · next hlt =>
        exact ⟨(ih p hlt).1, fun cause h => ⟨lt_size_of_parent? hp, ((ih p hlt).2 cause h).1⟩⟩
      · simp
    · simp
  rw [error_of_live hr]
  rcases ha : (f.askParent now c).1 with _ | cause
  · -- the parent is not done, so nothing has changed so far
    rw [hparent.1 ha]
    dsimp only
    split
    · next d hd =>
      split
      · have hsome : (f.finish c .deadlineExceeded).recorded c = some .deadlineExceeded :=
          recorded_finish (lt_size_of_deadline? hd) hr
        refine ⟨by simp [hsome], fun cause h => ?_⟩
        obtain rfl : .deadlineExceeded = cause := Option.some.inj (hsome.symm.trans h)
        exact ⟨finish_finishes f c _, hsome⟩
      · simp
    · simp
  · refine ⟨by simp, fun cause' h => ?_⟩
    cases h
    obtain ⟨hlt, hf⟩ := hparent.2 cause ha
    refine ⟨hf.trans (finish_finishes _ c cause), ?_⟩
    rcases hf.recorded_or c with heq | ⟨-, hsome⟩
    · exact recorded_finish (by rw [hf.size_eq]; exact hlt) (heq.trans hr)
    · -- finishing the parent has already finished this context
      exact (finish_finishes _ c cause).recorded hsome

/-- A context below one that is done is done. -/
theorem error_of_parent {c p : ContextId} (hp : f.parent? c = some p) (hlt : p < c) {now : Number}
    (hdone : (f.error now p).1 ≠ none) : (f.error now c).1 ≠ none := by
  rcases hr : f.recorded c with _ | old
  · obtain ⟨cause, hcause⟩ := Option.ne_none_iff_exists'.mp hdone
    -- the parent is asked, and whatever it answers is taken over
    have ha : (f.askParent now c).1 = some cause := by
      rw [askParent, hp]
      dsimp only
      rw [if_pos hlt, hcause]
    rw [error_of_live hr, ha]
    simp
  · rw [error_of_recorded hr]
    simp

/-- Asked again at the same time, a context answers the same. -/
theorem error_again (f : Forest) (now : Number) (c : ContextId) :
    ((f.error now c).2.error now c).1 = (f.error now c).1 := by
  rcases h : (f.error now c).1 with _ | cause
  · rw [(error_spec f now c).1 h, h]
  · rw [error_of_recorded ((error_spec f now c).2 cause h).2]

/-! ## §4 Making -/

/-- What stays when contexts are made, finished and asked. -/
structure Later (f f' : Forest) : Prop where
  size_le : f.size ≤ f'.size
  parent_eq : ∀ c, c < f.size → f'.parent? c = f.parent? c
  deadline_eq : ∀ c, c < f.size → f'.deadline? c = f.deadline? c
  recorded : ∀ c cause, f.recorded c = some cause → f'.recorded c = some cause

theorem Later.refl (f : Forest) : f.Later f := ⟨Nat.le_refl _, fun _ _ => rfl, fun _ _ => rfl, fun _ _ h => h⟩

/-- Whatever is later than something later is later. -/
theorem Later.trans (h₁ : f.Later f') (h₂ : f'.Later f'') : f.Later f'' where
  size_le := Nat.le_trans h₁.size_le h₂.size_le
  parent_eq c hc := (h₂.parent_eq c (Nat.lt_of_lt_of_le hc h₁.size_le)).trans (h₁.parent_eq c hc)
  deadline_eq c hc := (h₂.deadline_eq c (Nat.lt_of_lt_of_le hc h₁.size_le)).trans (h₁.deadline_eq c hc)
  recorded c cause h := h₂.recorded c cause (h₁.recorded c cause h)

/-- Contexts that finish make a later forest. -/
theorem Finishes.later (h : f.Finishes f' cause) : f.Later f' where
  size_le := Nat.le_of_eq h.size_eq.symm
  parent_eq c _ := h.parent_eq c
  deadline_eq c _ := h.deadline_eq c
  recorded _ _ := h.recorded

/-- Asking makes a later forest. -/
theorem error_later (f : Forest) (now : Number) (c : ContextId) : f.Later (f.error now c).2 := by
  rcases h : (f.error now c).1 with _ | cause
  · rw [(error_spec f now c).1 h]
    exact .refl f
  · exact ((error_spec f now c).2 cause h).1.later

/-- Parents were made before their children. -/
def Ordered (f : Forest) : Prop := ∀ c p, f.parent? c = some p → p < c

theorem Finishes.ordered (h : f.Finishes f' cause) (ho : f.Ordered) : f'.Ordered :=
  fun c p hp => ho c p (by rwa [← h.parent_eq])

theorem error_ordered (ho : f.Ordered) (now : Number) (c : ContextId) : (f.error now c).2.Ordered := by
  rcases h : (f.error now c).1 with _ | cause
  · rwa [(error_spec f now c).1 h]
  · exact ((error_spec f now c).2 cause h).1.ordered ho

theorem context?_push (f : Forest) (node : Context) (c : ContextId) :
    context? ⟨f.contexts.push node⟩ c = if c = f.size then some node else f.context? c := by
  rw [context?, Array.getElem?_push]
  rfl

/-- Before its parent is told, a new context has no cause. -/
theorem push_later (f : Forest) {node : Context} : f.Later ⟨f.contexts.push node⟩ where
  size_le := by simp [size]
  parent_eq c hc := by rw [parent?, context?_push, if_neg (Nat.ne_of_lt hc)]; rfl
  deadline_eq c hc := by rw [deadline?, context?_push, if_neg (Nat.ne_of_lt hc)]; rfl
  recorded c cause h := by
    rw [Forest.recorded, context?_push, if_neg (Nat.ne_of_lt (lt_size_of_recorded h))]
    exact h

/-- A change that spares parents, deadlines and causes makes a later forest. -/
theorem modify_later (f : Forest) (c : ContextId) {g : Context → Context}
    (hp : ∀ node, (g node).parent = node.parent) (hd : ∀ node, (g node).deadline = node.deadline)
    (he : ∀ node, (g node).error = node.error) : f.Later (f.modify c g) where
  size_le := by simp
  parent_eq k _ := parent?_modify f c k hp
  deadline_eq k _ := deadline?_modify f c k hd
  recorded k cause h := by rwa [recorded_modify_of_error f c k he]

/-- **Making** a context leaves the others as they are. -/
theorem make_later (f : Forest) (deadline : Option Number) (parent : Option ContextId) :
    f.Later (f.make deadline parent).2 := by
  unfold make
  dsimp only
  split
  · exact push_later f
  · split
    · -- the parent is done: the new context is finished as soon as it exists
      exact (push_later f).trans (finish_finishes _ _ _).later
    · exact (push_later f).trans (modify_later _ _ (fun _ => rfl) (fun _ => rfl) (fun _ => rfl))

/-- A context that is made has the parent that it was made for, and the others keep theirs. -/
theorem parent?_make (f : Forest) (deadline : Option Number) (parent : Option ContextId) (c : ContextId) :
    (f.make deadline parent).2.parent? c = if c = f.size then parent else f.parent? c := by
  -- the last context is the new one, under the parent given
  have hpush (node : Context) : parent? ⟨f.contexts.push node⟩ c =
      if c = f.size then node.parent else f.parent? c := by
    rw [parent?, context?_push]
    split <;> rfl
  unfold make
  dsimp only
  split
  · rw [hpush]
  · split
    · rw [(finish_finishes _ _ _).parent_eq, hpush]
    · refine (parent?_modify _ _ c ?_).trans (hpush _)
      exact fun _ => rfl

/-- Making a context keeps a forest in order, since its number is the highest. -/
theorem make_ordered (ho : f.Ordered) (deadline : Option Number) {parent : Option ContextId}
    (hp : ∀ p ∈ parent, p < f.size) : (f.make deadline parent).2.Ordered := by
  intro c p hc
  rw [parent?_make] at hc
  split at hc
  · next heq => exact heq ▸ hp p hc
  · exact ho c p hc

end Forest

end LinearProgram
