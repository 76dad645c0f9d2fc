import LinearProgram.Proofs.Cancel.Children

/-!
# What becomes done with a context

Finishing a context makes done whatever lies at it or below it without a cause, and leaves all else as it is:
`DoneFrom` says what each context looks like afterwards, and leaves no choice (`DoneFrom.unique`). What a cascade
reaches lies below what it starts from, since lists of children hold children only; that it misses nothing
below is `Kept`.

A cascade can also be written as calls of calls, one for each child of the list. Such calls need no greater
depth than there are contexts without a cause, `finishWithin_eq`.
-/

namespace LinearProgram

namespace Forest

variable {f f' f₁ f₂ : Forest} {cause : Interruption} {pending : List ContextId} {c d t : ContextId}

/-! ## §1 At a context or below it -/

/-- `d` is `c` or lies below it. -/
def Within (f : Forest) : ContextId → ContextId → Prop :=
  Relation.ReflTransGen fun p k => f.parent? k = some p

theorem within_congr (h : ∀ k, f'.parent? k = f.parent? k) : f'.Within = f.Within := by
  unfold Within
  simp only [h]

/-- Whatever lies at a child of a context lies below the context. -/
theorem Within.of_child (hp : f.parent? c = some t) (h : f.Within c d) : f.Within t d :=
  Relation.ReflTransGen.head hp h

/-- A child lies at or below a context only if it is the context, or its parent lies there. -/
theorem within_child {p k : ContextId} (hp : f.parent? k = some p) : f.Within t k ↔ k = t ∨ f.Within t p := by
  constructor
  · intro h
    rcases Relation.ReflTransGen.cases_tail h with heq | ⟨q, hq, hk⟩
    · exact Or.inl heq
    · -- a context has one parent only
      cases hp.symm.trans hk
      exact Or.inr hq
  · rintro (rfl | h)
    · exact Relation.ReflTransGen.refl
    · exact Relation.ReflTransGen.tail h hp

/-- What lies at or below a context is no older than the context. -/
theorem Within.le (h : f.Within c d) (ho : f.Ordered) : c ≤ d := by
  induction h with
  | refl => exact Nat.le_refl c
  | tail _ hp ih => exact Nat.le_trans ih (Nat.le_of_lt (ho _ _ hp))

/-- Below a context with a cause, all contexts have one. -/
theorem Kept.recorded_within (h : f.Kept []) (hc : f.recorded c ≠ none) (hd : f.Within c d) :
    f.recorded d ≠ none := by
  induction hd with
  | refl => exact hc
  | tail _ hp ih => exact fun hnone => List.not_mem_nil (h.below _ _ hp ih hnone)

/-! ## §2 What a cascade reaches -/

/-- **What a cascade records lies at or below what it starts from.** -/
theorem Kept.within_of_cascade (h : f.Kept pending) (hnone : f.recorded d = none)
    (hdone : (f.cascade cause pending).recorded d ≠ none) : ∃ c ∈ pending, f.Within c d := by
  fun_induction Forest.cascade cause f pending with
  | case1 f => exact absurd hnone hdone
  | case2 f c rest hlive ih =>
    have hwithin := within_congr (settle_finishes hlive cause).parent_eq
    by_cases hd : d = c
    · exact ⟨c, List.mem_cons_self, hd ▸ .refl⟩
    · -- it was recorded later, so it lies below a child of this one or below what was pending anyway
      have hsettled : (f.settle c cause).recorded d = none := by
        rw [recorded_settle, if_neg fun hboth => hd hboth.1, hnone]
      obtain ⟨k, hk, hkd⟩ := ih (h.settle hlive cause) hsettled hdone
      rw [hwithin] at hkd
      rcases List.mem_append.mp hk with hchild | hrest
      · exact ⟨c, List.mem_cons_self, hkd.of_child (h.parent_of_mem hchild)⟩
      · exact ⟨k, List.mem_cons_of_mem c hrest, hkd⟩
  | case3 f c rest hlive ih =>
    obtain ⟨k, hk, hkd⟩ := ih (h.skip hlive) hnone hdone
    exact ⟨k, List.mem_cons_of_mem c hk, hkd⟩

/-- **What finishing does**: all that lies at or below `t` without a cause gets the cause and lets go of its
children, the parent of `t` lets go of `t`, and everything else about all contexts is as it was. -/
structure DoneFrom (f f' : Forest) (t : ContextId) (cause : Interruption) : Prop where
  size_eq : f'.size = f.size
  parent_eq : ∀ d, f'.parent? d = f.parent? d
  deadline_eq : ∀ d, f'.deadline? d = f.deadline? d
  reached : ∀ d, f.Within t d → f.recorded d = none → f'.recorded d = some cause ∧ f'.children d = []
  left : ∀ p, f.parent? t = some p → f'.children p = (f.children p).filter (· ≠ t)
  other_recorded : ∀ d, ¬ f.Within t d ∨ f.recorded d ≠ none → f'.recorded d = f.recorded d
  other_children : ∀ d, ¬ f.Within t d ∨ f.recorded d ≠ none → f.parent? t ≠ some d →
    f'.children d = f.children d

/-- The children that a context is left with when `t` and all below it is done. -/
theorem Kept.liveChildren_finish (h : f.Kept []) (ht : t < f.size) (hd : ¬ f.Within t d) :
    (f.finish t cause).liveChildren d = (f.liveChildren d).filter (· ≠ t) := by
  have hf := finish_finishes f t cause
  rw [hf.liveChildren_eq]
  refine List.filter_congr fun k hk => decide_eq_decide.mpr ?_
  obtain ⟨hp, hnone⟩ := mem_liveChildren.mp hk
  constructor
  · rintro hk rfl
    exact recorded_cascade cause f [k] k List.mem_cons_self ht hk
  · -- a child that was finished lies below `t`, and so would its parent `d`
    refine fun hne => Classical.byContradiction fun hdone => ?_
    obtain ⟨t', ht', hwithin⟩ := (h.mono (List.nil_subset [t])).within_of_cascade hnone hdone
    obtain rfl := List.mem_singleton.mp ht'
    exact ((within_child hp).mp hwithin).elim hne hd

/-- **To finish a live context is to give its cause to the live ones below it**, and to nobody else. -/
theorem Kept.finish_doneFrom (h : f.Kept []) (ht : t < f.size) (hlive : f.recorded t = none)
    (cause : Interruption) : f.DoneFrom (f.finish t cause) t cause := by
  have hf := finish_finishes f t cause
  have hk := h.finish t cause
  have hself : (f.finish t cause).recorded t ≠ none := recorded_cascade cause f [t] t List.mem_cons_self ht
  have hother (d : ContextId) (hd : ¬ f.Within t d ∨ f.recorded d ≠ none) :
      (f.finish t cause).recorded d = f.recorded d := by
    rcases hf.recorded_or d with heq | ⟨hnone, hsome⟩
    · exact heq
    · have hreached : (f.cascade cause [t]).recorded d ≠ none := by
        rw [← Forest.finish, hsome]
        simp
      obtain ⟨t', ht', hwithin⟩ := (h.mono (List.nil_subset [t])).within_of_cascade hnone hreached
      obtain rfl := List.mem_singleton.mp ht'
      exact hd.elim (absurd hwithin) (absurd hnone)
  have hchildren (d : ContextId) (hd : ¬ f.Within t d ∨ f.recorded d ≠ none) :
      (f.finish t cause).children d = (f.children d).filter (· ≠ t) := by
    rcases hr : f.recorded d with _ | old
    · have hout : ¬ f.Within t d := hd.resolve_right (absurd hr)
      rw [hk.live d ((hother d hd).trans hr), h.live d hr, h.liveChildren_finish ht hout]
    · rw [hk.done d old ((hother d hd).trans hr), h.done d old hr, List.filter_nil]
  refine ⟨hf.size_eq, hf.parent_eq, hf.deadline_eq, fun d hwithin hnone => ?_, fun p hp => ?_, hother,
    fun d hd hp => ?_⟩
  · have hdone : (f.finish t cause).recorded d ≠ none := by
      rw [← within_congr hf.parent_eq] at hwithin
      exact hk.recorded_within hself hwithin
    have hsome : (f.finish t cause).recorded d = some cause :=
      (hf.recorded_or d).elim (fun heq => absurd (heq.trans hnone) hdone) And.right
    exact ⟨hsome, hk.done d cause hsome⟩
  · -- a parent is older than what lies below its child
    exact hchildren p (Or.inl fun hwithin => Nat.not_lt.mpr (hwithin.le h.ordered) (h.ordered t p hp))
  · rw [hchildren d hd, List.filter_eq_self]
    exact fun k hmem => decide_eq_true fun heq => hp (heq ▸ h.parent_of_mem hmem)

/-- What is done already stays as it is. -/
theorem finish_of_recorded (h : f.recorded c ≠ none) (cause : Interruption) : f.finish c cause = f := by
  rw [finish, cascade, dif_neg fun hlive => h (isLive_iff.mp hlive).2, cascade]

/-- Forests are the same if all that is asked of them is. -/
theorem context?_ext (hparent : ∀ d, f₁.parent? d = f₂.parent? d) (hdeadline : ∀ d, f₁.deadline? d = f₂.deadline? d)
    (hrecorded : ∀ d, f₁.recorded d = f₂.recorded d) (hchildren : ∀ d, f₁.children d = f₂.children d)
    (hsize : f₁.size = f₂.size) : f₁ = f₂ := by
  obtain ⟨xs⟩ := f₁
  obtain ⟨ys⟩ := f₂
  congr 1
  refine Array.ext hsize fun d hx hy => ?_
  have hp := hparent d
  have hd := hdeadline d
  have hr := hrecorded d
  have hc := hchildren d
  simp only [parent?, deadline?, recorded, children, context?, Array.getElem?_eq_getElem hx,
    Array.getElem?_eq_getElem hy, Option.bind_some, Option.map_some, Option.getD_some] at hp hd hr hc
  -- the four observations are the four fields of a context
  cases hX : xs[d]
  cases hY : ys[d]
  rw [hX, hY] at hp hd hr hc
  cases hp
  cases hd
  cases hr
  cases hc
  rfl

/-- There is only one way for a forest to look afterwards. -/
theorem DoneFrom.unique (h₁ : f.DoneFrom f₁ t cause) (h₂ : f.DoneFrom f₂ t cause) : f₁ = f₂ := by
  refine context?_ext (fun d => (h₁.parent_eq d).trans (h₂.parent_eq d).symm)
    (fun d => (h₁.deadline_eq d).trans (h₂.deadline_eq d).symm) (fun d => ?_) (fun d => ?_)
    (h₁.size_eq.trans h₂.size_eq.symm)
  · by_cases hd : f.Within t d ∧ f.recorded d = none
    · rw [(h₁.reached d hd.1 hd.2).1, (h₂.reached d hd.1 hd.2).1]
    · have hd' := Classical.not_and_iff_not_or_not.mp hd
      rw [h₁.other_recorded d hd', h₂.other_recorded d hd']
  · -- the parent of `t`, then the contexts below `t`, then all the others
    by_cases hp : f.parent? t = some d
    · rw [h₁.left d hp, h₂.left d hp]
    by_cases hd : f.Within t d ∧ f.recorded d = none
    · rw [(h₁.reached d hd.1 hd.2).2, (h₂.reached d hd.1 hd.2).2]
    · have hd' := Classical.not_and_iff_not_or_not.mp hd
      rw [h₁.other_children d hd' hp, h₂.other_children d hd' hp]

/-! ## §3 Calls of calls -/

/-- Finish a context and then each of its children, by calls nested at most as deep as the given number. -/
def finishWithin (cause : Interruption) : Nat → Forest → ContextId → Option Forest
  | 0, _, _ => none
  | depth + 1, f, c =>
    if f.isLive c then (f.children c).foldlM (finishWithin cause depth) (f.settle c cause) else some f

/-- A cascade takes what is pending in turn. -/
theorem cascade_append (cause : Interruption) (f : Forest) (xs ys : List ContextId) :
    f.cascade cause (xs ++ ys) = (f.cascade cause xs).cascade cause ys := by
  fun_induction Forest.cascade cause f xs with
  | case1 f => rfl
  | case2 f c rest hlive ih => rw [List.cons_append, cascade, dif_pos hlive, ← List.append_assoc, ih]
  | case3 f c rest hlive ih => rw [List.cons_append, cascade, dif_neg hlive, ih]

/-- How many contexts have no recorded cause. -/
def liveCount (f : Forest) : Nat := f.contexts.countP (·.error.isNone)

/-- Live contexts are counted by giving each the weight one. -/
theorem liveCount_eq_total (f : Forest) :
    f.liveCount = Context.total (fun node => if node.error.isNone then 1 else 0) f.contexts.toList := by
  rw [liveCount, ← Array.countP_toList]
  induction f.contexts.toList with
  | nil => rfl
  | cons a l ih => rw [List.countP_cons, ih, Context.total, Nat.add_comm]

/-- Settling a live context leaves fewer live contexts. -/
theorem liveCount_settle_lt (f : Forest) (c : ContextId) (cause : Interruption)
    (h : f.isLive c = true) : (f.settle c cause).liveCount < f.liveCount := by
  obtain ⟨node, hnode, hlive⟩ := exists_of_isLive h
  have hless := total_settle_le (fun node => if node.error.isNone then 1 else 0) hnode cause (fun _ => rfl)
    fun _ => Nat.le_refl _
  rw [if_pos hlive] at hless
  rw [liveCount_eq_total, liveCount_eq_total]
  exact hless

/-- A cascade brings no context back to life. -/
theorem liveCount_cascade_le (cause : Interruption) (f : Forest) (pending : List ContextId) :
    (f.cascade cause pending).liveCount ≤ f.liveCount := by
  fun_induction Forest.cascade cause f pending with
  | case1 f => exact Nat.le_refl _
  | case2 f c rest hlive ih => exact Nat.le_trans ih (Nat.le_of_lt (liveCount_settle_lt f c cause hlive))
  | case3 f c rest hlive ih => exact ih

/-- **Calls of calls end**, at no greater depth than there are contexts without a cause, and do what the cascade
does. -/
theorem finishWithin_eq {depth : Nat} (hdepth : f.liveCount < depth) (c : ContextId) :
    f.finishWithin cause depth c = some (f.finish c cause) := by
  induction depth generalizing f c with
  | zero => exact absurd hdepth (Nat.not_lt_zero _)
  | succ depth ih =>
    -- the calls for the children are one cascade over all of them
    have hall (children : List ContextId) (g : Forest) (hg : g.liveCount < depth) :
        children.foldlM (finishWithin cause depth) g = some (g.cascade cause children) := by
      induction children generalizing g with
      | nil => rw [List.foldlM_nil, cascade]; rfl
      | cons k rest ihRest =>
        rw [List.foldlM_cons, ih hg k, ← List.singleton_append, cascade_append]
        exact ihRest _ (Nat.lt_of_le_of_lt (liveCount_cascade_le cause g [k]) hg)
    unfold finishWithin
    split
    · next hlive =>
      have hless := liveCount_settle_lt f c cause hlive
      rw [hall _ _ (Nat.lt_of_lt_of_le hless (Nat.le_of_lt_succ hdepth)), finish, cascade, dif_pos hlive,
        List.append_nil]
    · next hlive => rw [finish, cascade, dif_neg hlive, cascade]

end Forest

namespace Timeline

variable {s : Timeline} {c : ContextId}

/-! ## §4 Canceling -/

/-- **Canceling ends, and does exactly this**: nothing to a context that has a cause. Else the context and all
below it that has no cause become canceled, the parent lets go of the context, and nothing else changes. -/
theorem cancel_exact (hs : s.Reachable) (hc : c < s.forest.size) :
    s.forest.finishWithin .canceled (s.forest.liveCount + 1) c = some (s.forest.cancel c) ∧
    (s.forest.recorded c ≠ none → s.forest.cancel c = s.forest) ∧
    (s.forest.recorded c = none → s.forest.DoneFrom (s.forest.cancel c) c .canceled ∧
      ∀ f, s.forest.DoneFrom f c .canceled → f = s.forest.cancel c) := by
  refine ⟨Forest.finishWithin_eq (Nat.lt_succ_self _) c, fun hdone => Forest.finish_of_recorded hdone _,
    fun hlive => ?_⟩
  have hexact := hs.kept.finish_doneFrom hc hlive .canceled
  exact ⟨hexact, fun f hf => hf.unique hexact⟩

/-- What is canceled stays as it is, and the second child leaves the root without children. -/
theorem family_canceled : family.forest.cancel 1 = family.forest ∧
    (family.forest.cancel 2).recorded 2 = some .canceled ∧ (family.forest.cancel 2).children 0 = [] ∧
    (family.forest.cancel 2).recorded 0 = none := by
  have hs : family.Reachable := ⟨_, _, rfl⟩
  have hsize : family.forest.size = 4 := by rw [family_forest]; rfl
  have hdone : family.forest.recorded 1 ≠ none := by rw [family_forest]; decide
  have hlive : family.forest.recorded 2 = none := by rw [family_forest]; rfl
  have hparent : family.forest.parent? 2 = some 0 := by rw [family_forest]; rfl
  obtain ⟨-, hsame, -⟩ := cancel_exact (c := 1) hs (by rw [hsize]; decide)
  obtain ⟨-, -, heffect⟩ := cancel_exact (c := 2) hs (by rw [hsize]; decide)
  obtain ⟨hexact, -⟩ := heffect hlive
  refine ⟨hsame hdone, (hexact.reached 2 .refl hlive).1, ?_, ?_⟩
  · rw [hexact.left 0 hparent, family_forest]
    rfl
  · -- context 0 lies above context 2, not below it
    rw [hexact.other_recorded 0 (Or.inl fun hwithin => ?_), family_forest]
    · rfl
    · exact absurd (hwithin.le hs.ordered) (by decide)

end Timeline

end LinearProgram
