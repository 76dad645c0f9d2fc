import LinearProgram.Proofs.Cancel.Timeline

/-!
# The children that a context keeps

A context without a cause keeps a list of children. It is edited by whatever happens: a new child is added,
a child that becomes done takes itself out, and a context that becomes done lets go of all at once. Here it is
shown that the list always holds the children without a cause, in the order of their making, and that
everything below a context with a cause has a cause.

While a cascade runs, only the second half can fail, and only for contexts that are still to be finished.
`Kept` is this condition. A single step of a cascade keeps the lists exact, and hands the children that it
lets go over to the rest of the cascade.
-/

namespace LinearProgram

namespace Forest

variable {f f' : Forest} {cause : Interruption} {pending : List ContextId}

/-! ## §1 Children without a cause -/

/-- The children of a context that have no cause, in the order of their making. -/
def liveChildren (f : Forest) (c : ContextId) : List ContextId :=
  (List.range f.size).filter fun k => f.parent? k = some c ∧ f.recorded k = none

theorem mem_liveChildren {c k : ContextId} :
    k ∈ f.liveChildren c ↔ f.parent? k = some c ∧ f.recorded k = none := by
  simp only [liveChildren, List.mem_filter, List.mem_range, decide_eq_true_eq, and_iff_right_iff_imp]
  exact fun h => lt_size_of_parent? h.1

theorem liveChildren_pairwise (f : Forest) (c : ContextId) : (f.liveChildren c).Pairwise (· < ·) :=
  List.pairwise_lt_range.filter _

theorem liveChildren_nodup (f : Forest) (c : ContextId) : (f.liveChildren c).Nodup :=
  (f.liveChildren_pairwise c).imp Nat.ne_of_lt

/-- Recording causes takes children away. -/
theorem Finishes.liveChildren_eq (h : f.Finishes f' cause) (c : ContextId) :
    f'.liveChildren c = (f.liveChildren c).filter fun k => f'.recorded k = none := by
  unfold liveChildren
  rw [h.size_eq, List.filter_filter]
  refine List.filter_congr fun k _ => ?_
  -- what is live afterwards was live before
  have hlive : f'.recorded k = none → f.recorded k = none := fun hnone => by
    rcases h.recorded_or k with heq | ⟨hold, -⟩
    · exact heq.symm.trans hnone
    · exact hold
  simp only [h.parent_eq, ← Bool.decide_and, decide_eq_decide]
  constructor
  · rintro ⟨hp, hnone⟩
    exact ⟨hnone, hp, hlive hnone⟩
  · rintro ⟨hnone, hp, -⟩
    exact ⟨hp, hnone⟩

/-- A change to one context leaves the lists of the others as they are. -/
theorem children_modify (f : Forest) (c k : ContextId) (g : Context → Context) :
    (f.modify c g).children k =
      if k = c then ((f.context? k).map fun node => (g node).children).getD [] else f.children k := by
  rw [children, children, context?_modify]
  split <;> cases f.context? k <;> rfl

/-- A context that is settled has no children, and its parent has one less. -/
theorem children_settle (f : Forest) (c k : ContextId) (cause : Interruption) :
    (f.settle c cause).children k =
      if k = c then [] else if f.parent? c = some k then (f.children k).erase c else f.children k := by
  -- the finished node lets go of its own children
  have hown : (f.modify c fun node => { node with error := some cause, children := [] }).children k =
      if k = c then [] else f.children k := by
    rw [children_modify]
    split <;> cases f.context? k <;> rfl
  unfold settle
  split
  · next p hp =>
    -- and its parent, where it has one, of the node
    have herase (g : Forest) : (g.modify p fun node => { node with children := node.children.erase c }).children k =
        if k = p then (g.children k).erase c else g.children k := by
      rw [children_modify, children]
      split <;> cases g.context? k <;> rfl
    rw [herase, hown, hp]
    simp only [Option.some.injEq, eq_comm (a := p)]
    split <;> split <;> rfl
  · next hp =>
    rw [hown, hp]
    simp only [reduceCtorEq, if_false]

/-! ## §2 Lists that are kept -/

/-- The lists of children are exact: a context without a cause keeps its children without a cause, one with a
cause keeps none. What is below a context with a cause has a cause, but for the contexts in `pending`. -/
structure Kept (f : Forest) (pending : List ContextId) : Prop where
  ordered : f.Ordered
  live : ∀ c, f.recorded c = none → f.children c = f.liveChildren c
  done : ∀ c cause, f.recorded c = some cause → f.children c = []
  below : ∀ c p, f.parent? c = some p → f.recorded p ≠ none → f.recorded c = none → c ∈ pending

namespace Kept

theorem mono (h : f.Kept pending) {pending' : List ContextId} (hsub : pending ⊆ pending') :
    f.Kept pending' :=
  ⟨h.ordered, h.live, h.done, fun c p hp hdone hnone => hsub (h.below c p hp hdone hnone)⟩

/-- Lists of children hold children. -/
theorem parent_of_mem (h : f.Kept pending) {p k : ContextId} (hk : k ∈ f.children p) : f.parent? k = some p := by
  rcases hr : f.recorded p with _ | old
  · rw [h.live p hr] at hk
    exact (mem_liveChildren.mp hk).1
  · rw [h.done p old hr] at hk
    exact absurd hk List.not_mem_nil

/-- **One step of a cascade**: the context is done, and its children are to be finished in its place. -/
theorem settle {c : ContextId} {rest : List ContextId} (h : f.Kept (c :: rest)) (hlive : f.isLive c = true)
    (cause : Interruption) : (f.settle c cause).Kept (f.children c ++ rest) := by
  obtain ⟨hlt, hnone⟩ := isLive_iff.mp hlive
  have hf := settle_finishes hlive cause
  have hrecorded (k : ContextId) : (f.settle c cause).recorded k = none ↔ k ≠ c ∧ f.recorded k = none := by
    rw [recorded_settle]
    by_cases hk : k = c <;> simp [hk, hlt]
  refine ⟨hf.ordered h.ordered, fun k hk => ?_, fun k cause' hk => ?_, fun k p hp hdone hk => ?_⟩
  · -- the settled context is the one child that has to go
    obtain ⟨hne, hold⟩ := (hrecorded k).mp hk
    have hsame : (f.settle c cause).liveChildren k = (f.liveChildren k).filter (· != c) := by
      rw [hf.liveChildren_eq]
      refine List.filter_congr fun j hj => ?_
      simp only [hrecorded, (mem_liveChildren.mp hj).2, and_true, bne, decide_not]
      rfl
    rw [children_settle, if_neg hne, h.live k hold, hsame, ← (f.liveChildren_nodup k).erase_eq_filter]
    split
    · rfl
    · next hp => exact (List.erase_of_not_mem fun hmem => hp (mem_liveChildren.mp hmem).1).symm
  · rw [children_settle]
    split
    · rfl
    · next hne =>
      rw [recorded_settle, if_neg fun hboth => hne hboth.1] at hk
      rw [h.done k cause' hk]
      simp
  · obtain ⟨hne, hold⟩ := (hrecorded k).mp hk
    rw [hf.parent_eq] at hp
    by_cases hpc : p = c
    · subst hpc
      rw [h.live p hnone]
      exact List.mem_append_left _ (mem_liveChildren.mpr ⟨hp, hold⟩)
    · have hdone' : f.recorded p ≠ none := fun hnone' => hdone ((hrecorded p).mpr ⟨hpc, hnone'⟩)
      have hmem := h.below k p hp hdone' hold
      exact List.mem_append_right _ (List.mem_of_ne_of_mem hne hmem)

/-- What is done already need not be finished. -/
theorem skip {c : ContextId} {rest : List ContextId} (h : f.Kept (c :: rest)) (hlive : ¬ f.isLive c = true) :
    f.Kept rest := by
  refine ⟨h.ordered, h.live, h.done, fun k p hp hdone hnone => ?_⟩
  refine List.mem_of_ne_of_mem (fun hk => hlive ?_) (h.below k p hp hdone hnone)
  exact hk ▸ isLive_iff.mpr ⟨lt_size_of_parent? hp, hnone⟩

/-- **A whole cascade** leaves nothing to be finished. -/
theorem cascade (h : f.Kept pending) (cause : Interruption) : (f.cascade cause pending).Kept [] := by
  fun_induction Forest.cascade cause f pending with
  | case1 f => exact h
  | case2 f c rest hlive ih => exact ih (h.settle hlive cause)
  | case3 f c rest hlive ih => exact ih (h.skip hlive)

theorem finish (h : f.Kept []) (c : ContextId) (cause : Interruption) : (f.finish c cause).Kept [] :=
  (h.mono (List.nil_subset [c])).cascade cause

end Kept

/-! ## §3 Asking and making -/

/-- Asking changes a forest by finishing contexts only. -/
theorem error_of_finish {P : Forest → Prop} (hfinish : ∀ f c cause, P f → P (f.finish c cause)) (h : P f)
    (now : Number) (c : ContextId) : P (f.error now c).2 := by
  induction c using Nat.strongRecOn with
  | ind c ih =>
  rcases hr : f.recorded c with _ | old
  case some => rwa [error_of_recorded hr]
  case none =>
  -- the parent was made earlier, so the induction hypothesis speaks of it
  have hparent : P (f.askParent now c).2 := by
    unfold askParent
    split
    · next p hp =>
      split
      · next hlt => exact ih p hlt
      · exact h
    · exact h
  rw [error_of_live hr]
  split
  · exact hfinish _ _ _ hparent
  · dsimp only
    split
    · split
      · exact hfinish _ _ _ hparent
      · exact hparent
    · exact hparent

section Push

variable {node : Context}

/-- A forest with one more context, of which its parent does not know yet. -/
private def pushed (f : Forest) (node : Context) : Forest := ⟨f.contexts.push node⟩

private theorem recorded_pushed (hnode : node.error = none) (c : ContextId) :
    (f.pushed node).recorded c = f.recorded c := by
  rw [recorded, recorded, pushed, context?_push]
  split
  · next hc => rw [hc, context?_eq_none_iff.mpr (Nat.le_refl _), Option.bind_some, hnode, Option.bind_none]
  · rfl

/-- A context that has been added begins without children. -/
private theorem children_pushed (hnode : node.children = []) (c : ContextId) :
    (f.pushed node).children c = f.children c := by
  rw [children, children, pushed, context?_push]
  split
  · next hc =>
    rw [hc, context?_eq_none_iff.mpr (Nat.le_refl _), Option.map_some, hnode]
    rfl
  · rfl

private theorem parent?_pushed (c : ContextId) :
    (f.pushed node).parent? c = if c = f.size then node.parent else f.parent? c := by
  rw [parent?, parent?, pushed, context?_push]
  split <;> rfl

private theorem size_pushed : (f.pushed node).size = f.size + 1 := by simp [pushed, size]

/-- A context that has been added is a live child of its parent, the last one. -/
private theorem liveChildren_pushed (hnode : node.error = none) (c : ContextId) :
    (f.pushed node).liveChildren c = f.liveChildren c ++ if node.parent = some c then [f.size] else [] := by
  -- nothing is recorded yet of a context that does not exist
  have hnew : f.recorded f.size = none := by
    rw [recorded, context?_eq_none_iff.mpr (Nat.le_refl _), Option.bind_none]
  unfold liveChildren
  rw [size_pushed, List.range_succ, List.filter_append]
  congr 1
  · refine List.filter_congr fun k hk => ?_
    rw [recorded_pushed hnode, parent?_pushed, if_neg (Nat.ne_of_lt (List.mem_range.mp hk))]
  · by_cases hp : node.parent = some c <;>
      simp [recorded_pushed hnode, parent?_pushed, hnew, hp]

/-- A new context below one that is done, or below none, is all that may be left to be finished. -/
private theorem Kept.pushed (h : f.Kept []) (hparent : ∀ p ∈ node.parent, p < f.size) (hnode : node.error = none)
    (hchildren : node.children = []) (hdone : ∀ p ∈ node.parent, f.recorded p ≠ none) :
    (f.pushed node).Kept [f.size] := by
  -- the new context is in no list, as its parent is done or there is none
  refine ⟨fun c p hp => ?_, fun c hc => ?_, fun c cause hc => ?_, fun c p hp hdone' hc => ?_⟩
  · rw [parent?_pushed] at hp
    split at hp
    · next heq => exact heq ▸ hparent p hp
    · exact h.ordered c p hp
  · rw [recorded_pushed hnode] at hc
    have hno : node.parent ≠ some c := fun hp => hdone c hp hc
    rw [children_pushed hchildren, liveChildren_pushed hnode, if_neg hno, List.append_nil]
    exact h.live c hc
  · rw [recorded_pushed hnode] at hc
    rw [children_pushed hchildren]
    exact h.done c cause hc
  · rw [recorded_pushed hnode] at hdone' hc
    rw [parent?_pushed] at hp
    split at hp
    · next heq => exact List.mem_singleton.mpr heq
    · exact absurd (h.below c p hp hdone' hc) List.not_mem_nil

/-- A new context below one that is live is entered in its list. -/
private theorem Kept.entered (h : f.Kept []) {p : ContextId} (hp : node.parent = some p) (hlt : p < f.size)
    (hlive : f.recorded p = none) (hnode : node.error = none) (hchildren : node.children = []) :
    ((f.pushed node).modify p fun parent =>
      { parent with children := parent.children ++ [f.size] }).Kept [] := by
  obtain ⟨f', hf'⟩ : ∃ f', f' = (f.pushed node).modify p fun parent =>
    { parent with children := parent.children ++ [f.size] } := ⟨_, rfl⟩
  rw [← hf']
  have hrecorded (c : ContextId) : f'.recorded c = f.recorded c := by
    rw [hf', recorded_modify_of_error _ _ _ (by simp), recorded_pushed hnode]
  have hparents (c : ContextId) : f'.parent? c = (f.pushed node).parent? c := by
    rw [hf', parent?_modify _ _ _ (by simp)]
  have hchildren' (c : ContextId) :
      f'.children c = f.children c ++ if node.parent = some c then [f.size] else [] := by
    rw [hf', children_modify, hp, ← children_pushed (f := f) hchildren, children]
    by_cases hc : c = p
    · subst hc
      obtain ⟨own, hown⟩ : ∃ own, (f.pushed node).context? c = some own :=
        Option.ne_none_iff_exists'.mp fun hnone => by
          rw [context?_eq_none_iff, size_pushed] at hnone
          exact Nat.not_lt.mpr (Nat.le_of_succ_le hnone) hlt
      simp [hown]
    · simp [hc, Ne.symm hc]
  have hlist (c : ContextId) : f'.liveChildren c = (f.pushed node).liveChildren c := by
    unfold liveChildren
    rw [hf', size_modify, ← hf']
    refine List.filter_congr fun k _ => ?_
    rw [hparents, hrecorded, recorded_pushed hnode]
  -- only the list of `p` has grown, by the new context, which is live as `p` is
  refine ⟨fun c q hq => ?_, fun c hc => ?_, fun c cause hc => ?_, fun c q hq hdone hc => ?_⟩
  · rw [hparents, parent?_pushed] at hq
    split at hq
    · next heq =>
      cases hp.symm.trans hq
      exact heq ▸ hlt
    · exact h.ordered c q hq
  · rw [hrecorded] at hc
    rw [hchildren', hlist, liveChildren_pushed hnode, h.live c hc]
  · rw [hrecorded] at hc
    have hne : node.parent ≠ some c := fun hc' => by
      cases hp.symm.trans hc'
      cases hlive.symm.trans hc
    rw [hchildren', if_neg hne, h.done c cause hc, List.append_nil]
  · rw [hrecorded] at hdone hc
    rw [hparents, parent?_pushed] at hq
    split at hq
    · cases hp.symm.trans hq
      exact absurd hlive hdone
    · exact h.below c q hq hdone hc

end Push

/-- Making a context keeps the lists right. -/
theorem Kept.make (h : f.Kept []) (deadline : Option Number) {parent : Option ContextId}
    (hp : ∀ p ∈ parent, p < f.size) : (f.make deadline parent).2.Kept [] := by
  unfold Forest.make
  dsimp only
  split
  · have hpushed : (f.pushed ⟨inheritDeadline deadline none, none, none, []⟩).Kept [f.size] :=
      h.pushed nofun rfl rfl nofun
    change (f.pushed ⟨inheritDeadline deadline none, none, none, []⟩).Kept []
    refine ⟨hpushed.ordered, hpushed.live, hpushed.done, fun c q hq hdone hc => ?_⟩
    -- the new context has no parent
    obtain rfl := List.mem_singleton.mp (hpushed.below c q hq hdone hc)
    rw [parent?_pushed, if_pos rfl] at hq
    cases hq
  · next p =>
    split
    · next cause hcause =>
      refine Kept.cascade (h.pushed hp rfl rfl fun q hq => ?_) cause
      cases hq
      rw [hcause]
      simp
    · next hlive => exact h.entered rfl (hp p rfl) hlive rfl rfl

/-- Everything below a context with a cause has a cause. -/
theorem Kept.recorded_below (h : f.Kept []) {c d : ContextId} (hc : f.recorded c ≠ none)
    (hbelow : Relation.TransGen (fun p k => f.parent? k = some p) c d) : f.recorded d ≠ none := by
  induction hbelow with
  | single hp => exact fun hnone => List.not_mem_nil (h.below _ _ hp hc hnone)
  | tail _ hp ih => exact fun hnone => List.not_mem_nil (h.below _ _ hp ih hnone)

end Forest

namespace Timeline

variable {s : Timeline}

/-! ## §4 At any time -/

/-- **What making and finishing keep, every event keeps**, since asking only finishes. -/
theorem next_of {P : Forest → Prop}
    (hmake : ∀ f deadline parent, P f → (∀ p ∈ parent, p < f.size) → P (f.make deadline parent).2)
    (hfinish : ∀ f c cause, P f → P (f.finish c cause)) (h : P s.forest) (e : Event) : P (s.next e).forest := by
  have hmade (deadline : Option Number) (parent : Option ContextId) : P (s.make deadline parent).forest := by
    unfold make
    split
    · next hp =>
      refine hmake _ deadline parent h fun p hmem => ?_
      cases hmem
      simpa using hp
    · exact h
  -- asking and cancelling only finish contexts, and the clock is no part of the forest
  cases e with
  | make deadline parent => exact hmade deadline parent
  | makeWithTimeout seconds parent =>
    dsimp only [next]
    split
    · exact hmade _ parent
    · exact h
  | cancel c => exact hfinish _ c .canceled h
  | ask c => exact Forest.error_of_finish hfinish h s.now c
  | move now => exact h

/-- What making and finishing keep holds at any time, if it holds of no contexts at all. -/
theorem Reachable.of {P : Forest → Prop} (hs : s.Reachable) (hempty : P .empty)
    (hmake : ∀ f deadline parent, P f → (∀ p ∈ parent, p < f.size) → P (f.make deadline parent).2)
    (hfinish : ∀ f c cause, P f → P (f.finish c cause)) : P s.forest := by
  obtain ⟨now, events, rfl⟩ := hs
  -- the three ways in which an event changes the forest cover every event
  have hafter (s : Timeline) (h : P s.forest) : P (s.after events).forest := by
    induction events generalizing s with
    | nil => exact h
    | cons e events ih => exact ih _ (next_of hmake hfinish h e)
  exact hafter _ hempty

/-- In all states that events lead to, the lists are right. -/
theorem Reachable.kept (hs : s.Reachable) : s.forest.Kept [] := by
  refine hs.of (P := fun f => f.Kept []) ⟨fun c p hp => ?_, fun c _ => rfl, fun c cause hc => ?_, fun c p hp => ?_⟩
    (fun f deadline parent h hp => h.make deadline hp) (fun f c cause h => h.finish c cause)
  · cases Forest.lt_size_of_parent? hp
  · cases Forest.lt_size_of_recorded hc
  · cases Forest.lt_size_of_parent? hp

/-- **Lists of children are exact.** A context without a cause keeps exactly its children without a cause, each
once, in the order of their making; one with a cause keeps none, and everything below it has a cause. So children
are let go of as soon as they are done, and no cascade misses a child: whatever is below a context has a
cause once that context has been finished. -/
theorem children_exact (hs : s.Reachable) (c : ContextId) :
    (s.forest.recorded c = none →
      (s.forest.children c).Pairwise (· < ·) ∧
        ∀ d, d ∈ s.forest.children c ↔ s.Parent c d ∧ s.forest.recorded d = none) ∧
    (s.forest.recorded c ≠ none →
      s.forest.children c = [] ∧ ∀ d, s.Below c d → s.forest.recorded d ≠ none) ∧
    (∀ d, s.forest.recorded d ≠ none → d ∉ s.forest.children c) ∧
    (c < s.forest.size → ∀ cause d, s.Below c d → (s.forest.finish c cause).recorded d ≠ none) := by
  have hk := hs.kept
  have hexact (hnone : s.forest.recorded c = none) (d : ContextId) :
      d ∈ s.forest.children c ↔ s.Parent c d ∧ s.forest.recorded d = none := by
    rw [hk.live c hnone]
    exact Forest.mem_liveChildren
  have hempty (hdone : s.forest.recorded c ≠ none) : s.forest.children c = [] := by
    obtain ⟨cause, hcause⟩ := Option.ne_none_iff_exists'.mp hdone
    exact hk.done c cause hcause
  refine ⟨fun hnone => ⟨?_, hexact hnone⟩, fun hdone => ⟨hempty hdone, fun d => hk.recorded_below hdone⟩,
    fun d hd hmem => ?_, fun hlt cause d hd => ?_⟩
  · rw [hk.live c hnone]
    exact Forest.liveChildren_pairwise _ c
  · by_cases hnone : s.forest.recorded c = none
    · exact hd ((hexact hnone d).mp hmem).2
    · rw [hempty hnone] at hmem
      exact absurd hmem List.not_mem_nil
  · -- the parents are what they were before
    have hf := Forest.finish_finishes s.forest c cause
    have hself := Forest.recorded_cascade cause s.forest [c] c List.mem_cons_self hlt
    exact (hk.finish c cause).recorded_below hself
      (Relation.TransGen.mono (fun p k hp => (hf.parent_eq k).trans hp) _ _ hd)

/-- A context with two children, the first of which has a child and has been canceled. -/
def family : Timeline :=
  after ⟨.empty, .int 0⟩ [.make none none, .make none (some 0), .make none (some 0), .make none (some 1), .cancel 1]

theorem family_forest : family.forest = ⟨#[⟨none, none, none, [2]⟩, ⟨none, some 0, some .canceled, []⟩,
    ⟨none, some 0, none, []⟩, ⟨none, some 1, some .canceled, []⟩]⟩ := by
  simp [family, after, next, make, Forest.make, Forest.inheritDeadline, Forest.cancel, Forest.finish,
    Forest.cascade, Forest.settle, Forest.modify, Forest.isLive, Forest.recorded, Forest.parent?,
    Forest.deadline?, Forest.children, Forest.context?, Forest.size, Forest.empty]

/-- The first child is in no list any more, and its own child is done with it. -/
theorem family_children : 2 ∈ family.forest.children 0 ∧ 1 ∉ family.forest.children 0 ∧
    family.forest.children 1 = [] ∧ family.forest.recorded 3 ≠ none ∧
    (family.forest.finish 0 .canceled).recorded 2 ≠ none := by
  have hs : family.Reachable := ⟨_, _, rfl⟩
  have hroot : family.forest.recorded 0 = none := by rw [family_forest]; rfl
  -- the facts of the four contexts, read off the forest
  have hcanceled : family.forest.recorded 1 ≠ none := by rw [family_forest]; decide
  have hsecond : family.Parent 0 2 := by rw [Parent, family_forest]; rfl
  have hgrandchild : family.Parent 1 3 := by rw [Parent, family_forest]; rfl
  obtain ⟨hlive, -, hreleased, hcascade⟩ := children_exact hs 0
  obtain ⟨-, hdone, -⟩ := children_exact hs 1
  refine ⟨((hlive hroot).2 2).mpr ⟨hsecond, ?_⟩, hreleased 1 hcanceled, (hdone hcanceled).1,
    (hdone hcanceled).2 3 (.single hgrandchild), hcascade ?_ _ 2 (.single hsecond)⟩
  · rw [family_forest]
    rfl
  · rw [family_forest]
    decide

end Timeline

end LinearProgram
