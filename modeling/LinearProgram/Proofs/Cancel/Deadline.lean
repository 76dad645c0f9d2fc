import LinearProgram.Proofs.Cancel.Subtree
import LinearProgram.Proofs.Double

/-!
# Deadlines that have passed

A context that is asked why it is done asks its ancestors first, from the oldest down. The first of them whose
deadline has passed is finished, and the cascade comes back down through all contexts that were waiting for an
answer: for them nothing is left to do. So one deadline decides, that of the topmost context on the way
whose deadline has passed, and what happens to the forest is what finishing this one context does.

Since a new context takes over an earlier deadline of its parent, the own deadline of a context says it all,
as long as no deadline is NaN.
-/

namespace LinearProgram

/-! ## §1 Numbers and NaN -/

namespace Number

def isNaN : Number → Bool
  | .int _ => false
  | .float x => x.isNaN

/-- Only NaN has no rank. -/
theorem rank?_eq_none_iff (n : Number) : n.rank? = none ↔ n.isNaN = true := by
  cases n with
  | int m => exact ⟨nofun, nofun⟩
  | float x =>
    unfold rank? isNaN
    have hvalue := Double.value?_eq_none_iff x
    cases hx : Double.value? x <;> simp_all

/-- NaN stands below nothing. -/
theorem not_atMost_of_isNaN {m : Number} (h : m.isNaN = true) (n : Number) : ¬ m.atMost n = true := by
  rw [atMost, (rank?_eq_none_iff m).mpr h]
  simp

/-- Numbers other than NaN can be compared. -/
theorem atMost_total {m n : Number} (hm : m.isNaN = false) (hn : n.isNaN = false) :
    m.atMost n = true ∨ n.atMost m = true := by
  -- a number that is no NaN has a rank, and ranks are ordered totally
  have hplace {k : Number} (hk : k.isNaN = false) : ∃ p, k.rank? = some p :=
    Option.ne_none_iff_exists'.mp fun hnone => by simp [(rank?_eq_none_iff k).mp hnone] at hk
  obtain ⟨p, hp⟩ := hplace hm
  obtain ⟨q, hq⟩ := hplace hn
  simp only [atMost, hp, hq]
  cases p <;> cases q <;> simp only [Rank.le, decide_eq_true_eq, or_true, true_or]
  exact Int.le_total _ _

theorem atMost_refl {n : Number} (hn : n.isNaN = false) : n.atMost n = true := or_self_iff.mp (atMost_total hn hn)

end Number

namespace Forest

variable {f f' : Forest} {cause : Interruption} {a c t : ContextId} {now : Number}

/-! ## §2 Deadlines that are taken over -/

/-- **The earlier deadline is taken over.** -/
theorem inheritDeadline_atMost (own : Option Number) {inherited : Number} (hnum : inherited.isNaN = false) :
    ∃ d, inheritDeadline own (some inherited) = some d ∧ (d.isNaN = false → d.atMost inherited = true) := by
  cases own with
  | none => exact ⟨inherited, rfl, Number.atMost_refl⟩
  | some own =>
    refine ⟨_, rfl, ?_⟩
    split
    · exact Number.atMost_refl
    · next hless =>
      intro hown
      rcases Number.atMost_total hnum hown with hle | hle
      · -- neither is earlier
        simpa [Number.less, hle] using hless
      · exact hle

/-- Below a context with a deadline there is a deadline, and no later one. -/
def Inherits (f : Forest) : Prop :=
  ∀ c p, f.parent? c = some p → ∀ inherited, f.deadline? p = some inherited → inherited.isNaN = false →
    ∃ d, f.deadline? c = some d ∧ (d.isNaN = false → d.atMost inherited = true)

/-- A context that is made gets a deadline, and the others keep theirs. -/
theorem deadline?_make (f : Forest) (deadline : Option Number) (parent : Option ContextId) (c : ContextId) :
    (f.make deadline parent).2.deadline? c =
      if c = f.size then inheritDeadline deadline (parent.bind f.deadline?) else f.deadline? c := by
  have hpush (node : Context) : deadline? ⟨f.contexts.push node⟩ c =
      if c = f.size then node.deadline else f.deadline? c := by
    rw [deadline?, context?_push]
    split <;> rfl
  unfold make
  dsimp only
  split
  · rw [hpush]
  · -- a parent already finished finishes the child at once; its deadline stays
    split
    · rw [(finish_finishes _ _ _).deadline_eq, hpush]
    · refine (deadline?_modify _ _ c ?_).trans (hpush _)
      exact fun _ => rfl

/-- Whoever is made inherits the deadline of the parent, if this one comes first. -/
theorem Inherits.make (h : f.Inherits) (ho : f.Ordered) (deadline : Option Number) {parent : Option ContextId}
    (hparent : ∀ p ∈ parent, p < f.size) : (f.make deadline parent).2.Inherits := by
  intro c p hp inherited hd hnum
  rw [parent?_make] at hp
  rw [deadline?_make] at hd ⊢
  -- the new context takes its deadline over, and its parent is an earlier one
  by_cases hc : c = f.size
  · rw [if_pos hc] at hp
    have hlt := hparent p hp
    rw [if_neg (Nat.ne_of_lt hlt)] at hd
    subst hp
    rw [if_pos hc, Option.bind_some, hd]
    exact inheritDeadline_atMost deadline hnum
  · rw [if_neg hc] at hp
    have hlt : p < f.size := Nat.lt_trans (ho c p hp) (lt_size_of_parent? hp)
    rw [if_neg (Nat.ne_of_lt hlt)] at hd
    rw [if_neg hc]
    exact h c p hp inherited hd hnum

/-- No deadline changes when contexts finish. -/
theorem Inherits.finish (h : f.Inherits) (c : ContextId) (cause : Interruption) : (f.finish c cause).Inherits := by
  have hf := finish_finishes f c cause
  intro k p hp inherited hd hnum
  rw [hf.parent_eq] at hp
  rw [hf.deadline_eq] at hd ⊢
  exact h k p hp inherited hd hnum

/-- No deadline is later than one of an ancestor, if no deadline on the way is NaN. -/
theorem Inherits.atMost (h : f.Inherits) (hwithin : f.Within a c)
    (hnum : ∀ b d, f.Within b c → f.deadline? b = some d → d.isNaN = false) {d : Number}
    (hd : f.deadline? a = some d) : ∃ own, f.deadline? c = some own ∧ own.atMost d = true := by
  -- down the path from the ancestor: each step takes the smaller deadline
  induction hwithin with
  | refl => exact ⟨d, hd, Number.atMost_refl (hnum _ d .refl hd)⟩
  | @tail p c _ hp ih =>
    obtain ⟨inherited, hinherited, hle⟩ := ih fun b d hb => hnum b d (hb.tail hp)
    have hnumber := hnum p inherited (Relation.ReflTransGen.single hp) hinherited
    obtain ⟨own, hown, hown_le⟩ := h c p hp inherited hinherited hnumber
    exact ⟨own, hown, Number.atMost_trans (hown_le (hnum c own .refl hown)) hle⟩

/-! ## §3 Asking -/

/-- At the time `now` the deadline of the context has passed. -/
def Passed (f : Forest) (now : Number) (c : ContextId) : Prop := ∃ d, f.deadline? c = some d ∧ d.atMost now = true

/-- `t` is the topmost context from `c` upwards whose deadline has passed. -/
structure Topmost (f : Forest) (now : Number) (c t : ContextId) : Prop where
  within : f.Within t c
  passed : f.Passed now t
  above : ∀ a, f.Within a t → a ≠ t → ¬ f.Passed now a

/-- When no ancestor is done, the own deadline decides. -/
theorem error_of_askParent (hnone : f.recorded c = none) (hask : f.askParent now c = (none, f)) :
    f.Passed now c ∧ f.error now c = (some .deadlineExceeded, f.finish c .deadlineExceeded) ∨
      ¬ f.Passed now c ∧ f.error now c = (none, f) := by
  rw [error_of_live hnone, hask]
  dsimp only
  -- the parent has nothing to report, so the context's own deadline decides
  rcases hd : f.deadline? c with _ | d
  · refine Or.inr ⟨?_, rfl⟩
    rintro ⟨d, hd', -⟩
    cases hd.symm.trans hd'
  · dsimp only
    split
    · next hle =>
      refine Or.inl ⟨⟨d, hd, hle⟩, ?_⟩
      rw [recorded_finish (lt_size_of_deadline? hd) hnone]
    · next hle =>
      refine Or.inr ⟨?_, rfl⟩
      rintro ⟨d', hd', hle'⟩
      cases hd.symm.trans hd'
      exact hle hle'

/-- At the time `now` the context is done: it has a cause or its deadline has passed, or so it is with a context
above it. -/
def Done (f : Forest) (now : Number) (c : ContextId) : Prop :=
  ∃ a, f.Within a c ∧ (f.recorded a ≠ none ∨ f.Passed now a)

/-- A context is done if it has a cause, its deadline has passed, or its parent is done. -/
theorem done_iff : f.Done now c ↔
    f.recorded c ≠ none ∨ f.Passed now c ∨ ∃ p, f.parent? c = some p ∧ f.Done now p := by
  constructor
  · rintro ⟨a, ha, hdone⟩
    -- the ancestor that is done is the context itself or one of its parent
    rcases Relation.ReflTransGen.cases_tail ha with rfl | ⟨p, hp, hc⟩
    · exact hdone.imp_right Or.inl
    · exact Or.inr (Or.inr ⟨p, hc, a, hp, hdone⟩)
  · rintro (hrecorded | hpassed | ⟨p, hc, a, ha, hdone⟩)
    · exact ⟨c, .refl, Or.inl hrecorded⟩
    · exact ⟨c, .refl, Or.inr hpassed⟩
    · exact ⟨a, ha.tail hc, hdone⟩

/-- **Being done**: a context says why it is done exactly if it is. -/
theorem error_ne_none_iff (ho : f.Ordered) (now : Number) (c : ContextId) :
    (f.error now c).1 ≠ none ↔ f.Done now c := by
  induction c using Nat.strongRecOn with
  | ind c ih =>
  rw [done_iff]
  rcases hr : f.recorded c with _ | old
  case some => simp [error_of_recorded hr]
  case none =>
  -- once the contexts above have been asked in vain, the own deadline decides
  have hown (hask : f.askParent now c = (none, f)) : (f.error now c).1 ≠ none ↔ f.Passed now c := by
    rcases error_of_askParent hr hask with ⟨hpassed, heq⟩ | ⟨hnot, heq⟩ <;> simp [*]
  rcases hp : f.parent? c with _ | p
  · simpa using hown (by rw [askParent, hp])
  · have hlt := ho c p hp
    by_cases hdone : f.Done now p
    · exact iff_of_true (error_of_parent hp hlt ((ih p hlt).mpr hdone)) (Or.inr (Or.inr ⟨p, rfl, hdone⟩))
    · have hnone : (f.error now p).1 = none := not_not.mp (mt (ih p hlt).mp hdone)
      have hask : f.askParent now c = (none, f) := by
        rw [askParent, hp]
        dsimp only
        rw [if_pos hlt]
        exact Prod.ext hnone ((error_spec f now p).1 hnone)
      simpa [hdone] using hown hask

/-- **Asking** a context without a cause: either no deadline from it upwards has passed, and nothing happens, or
the topmost context whose deadline has passed is finished. -/
theorem Kept.error_eq (h : f.Kept []) (now : Number) (hnone : f.recorded c = none) :
    (∀ a, f.Within a c → ¬ f.Passed now a) ∧ f.error now c = (none, f) ∨
      ∃ t, f.Topmost now c t ∧ f.error now c = (some .deadlineExceeded, f.finish t .deadlineExceeded) := by
  induction c using Nat.strongRecOn with
  | ind c ih =>
  -- once the ancestors have been asked in vain, the context itself is the topmost one that may have expired
  have hown (hask : f.askParent now c = (none, f)) (habove : ∀ a, f.Within a c → a ≠ c → ¬ f.Passed now a) :
      (∀ a, f.Within a c → ¬ f.Passed now a) ∧ f.error now c = (none, f) ∨
        ∃ t, f.Topmost now c t ∧ f.error now c = (some .deadlineExceeded, f.finish t .deadlineExceeded) := by
    rcases error_of_askParent hnone hask with ⟨hpassed, heq⟩ | ⟨hnot, heq⟩
    · exact Or.inr ⟨c, ⟨.refl, hpassed, habove⟩, heq⟩
    · refine Or.inl ⟨fun a ha => ?_, heq⟩
      by_cases hac : a = c
      · exact hac ▸ hnot
      · exact habove a ha hac
  rcases hp : f.parent? c with _ | p
  · refine hown (by rw [askParent, hp]) fun a ha hac => ?_
    rcases Relation.ReflTransGen.cases_tail ha with heq | ⟨q, -, hq⟩
    · exact absurd heq.symm hac
    · cases hp.symm.trans hq
  · have hlt := h.ordered c p hp
    have hask : f.askParent now c = f.error now p := by
      rw [askParent, hp]
      exact if_pos hlt
    have hlive : f.recorded p = none := Classical.byContradiction fun hdone =>
      List.not_mem_nil (h.below c p hp hdone hnone)
    rcases ih p hlt hlive with ⟨habove, heq⟩ | ⟨t, htop, heq⟩
    · exact hown (hask.trans heq) fun a ha hac => habove a (((within_child hp).mp ha).resolve_left (Ne.symm hac))
    · refine Or.inr ⟨t, ⟨htop.within.tail hp, htop.passed, htop.above⟩, ?_⟩
      -- the cascade from `t` has been here
      have hdone : (f.finish t .deadlineExceeded).recorded c ≠ none := by
        obtain ⟨d, hd, -⟩ := htop.passed
        have hself := recorded_cascade .deadlineExceeded f [t] t List.mem_cons_self (lt_size_of_deadline? hd)
        refine (h.finish t .deadlineExceeded).recorded_within hself ?_
        rw [within_congr (finish_finishes f t _).parent_eq]
        exact htop.within.tail hp
      rw [error_of_live hnone, hask, heq]
      exact congrArg (Prod.mk _) (finish_of_recorded hdone _)

end Forest

namespace Timeline

variable {s : Timeline}

/-- In all states that events lead to, deadlines are inherited. -/
theorem Reachable.inherits (hs : s.Reachable) : s.forest.Inherits := by
  have hboth : s.forest.Ordered ∧ s.forest.Inherits := by
    refine hs.of (P := fun f => f.Ordered ∧ f.Inherits) ⟨fun c p hp => ?_, fun c p hp => ?_⟩
      (fun f deadline parent h hp => ⟨Forest.make_ordered h.1 deadline hp, h.2.make h.1 deadline hp⟩)
      (fun f c cause h => ⟨(Forest.finish_finishes f c cause).ordered h.1, h.2.finish c cause⟩)
    · cases Forest.lt_size_of_parent? hp
    · cases Forest.lt_size_of_parent? hp
  exact hboth.2

/-- **What asking does**, at any time on the clock, to a context without a cause. It answers that it is not done
exactly if no deadline from it upwards has passed, and then nothing changes; a NaN never passes. Otherwise it
answers that the deadline was exceeded, and the effect is that of finishing the topmost context whose deadline
has passed. If no deadline from the context upwards is NaN, its own is the earliest, and decides. -/
theorem error_exact (hs : s.Reachable) (now : Number) (c : ContextId) :
    (s.forest.recorded c = none →
      ((s.forest.error now c).1 = none ↔ ∀ a, s.forest.Within a c → ¬ s.forest.Passed now a) ∧
      ((s.forest.error now c).1 = none → (s.forest.error now c).2 = s.forest) ∧
      ((s.forest.error now c).1 ≠ none → (s.forest.error now c).1 = some .deadlineExceeded ∧
        ∃ t, s.forest.Topmost now c t ∧ s.forest.DoneFrom (s.forest.error now c).2 t .deadlineExceeded)) ∧
    (∀ d, s.forest.deadline? c = some d → d.isNaN = true → ¬ s.forest.Passed now c) ∧
    ((∀ a d, s.forest.Within a c → s.forest.deadline? a = some d → d.isNaN = false) →
      (∀ a d, s.forest.Within a c → s.forest.deadline? a = some d →
        ∃ own, s.forest.deadline? c = some own ∧ own.atMost d = true) ∧
      (s.forest.recorded c = none → ((s.forest.error now c).1 = none ↔ ¬ s.forest.Passed now c))) := by
  have hk := hs.kept
  have hiff (hnone : s.forest.recorded c = none) :
      (s.forest.error now c).1 = none ↔ ∀ a, s.forest.Within a c → ¬ s.forest.Passed now a := by
    rcases hk.error_eq now hnone with ⟨habove, heq⟩ | ⟨t, htop, heq⟩
    · simpa [heq] using habove
    · simpa [heq] using ⟨t, htop.within, htop.passed⟩
  refine ⟨fun hnone => ⟨hiff hnone, (Forest.error_spec _ now c).1, fun hdone => ?_⟩,
    fun d hd hnan => ?_, fun hnum => ?_⟩
  · rcases hk.error_eq now hnone with ⟨-, heq⟩ | ⟨t, htop, heq⟩
    · simp [heq] at hdone
    · obtain ⟨d, hd, -⟩ := htop.passed
      -- nothing above a context without a cause has one
      have hlive : s.forest.recorded t = none := Classical.byContradiction fun hrecorded =>
        hk.recorded_within hrecorded htop.within hnone
      rw [heq]
      exact ⟨rfl, t, htop, hk.finish_doneFrom (Forest.lt_size_of_deadline? hd) hlive _⟩
  · rintro ⟨d', hd', hle⟩
    cases hd.symm.trans hd'
    exact Number.not_atMost_of_isNaN hnan now hle
  · have hearliest (a : ContextId) (d : Number) (ha : s.forest.Within a c) (hd : s.forest.deadline? a = some d) :
        ∃ own, s.forest.deadline? c = some own ∧ own.atMost d = true := hs.inherits.atMost ha hnum hd
    refine ⟨hearliest, fun hnone => (hiff hnone).trans ⟨fun h => h c .refl, fun h a ha => ?_⟩⟩
    rintro ⟨d, hd, hle⟩
    obtain ⟨own, hown, hown_le⟩ := hearliest a d ha hd
    exact h ⟨own, hown, Number.atMost_trans hown_le hle⟩

/-- At four nothing has expired. At ten the lower context has, and with it the upper one, whose deadline it took
over. -/
theorem expiring_error : expiring.forest.error (.int 4) 1 = (none, expiring.forest) ∧
    (expiring.forest.error (.int 10) 1).1 = some .deadlineExceeded ∧
    (expiring.forest.error (.int 10) 1).2.recorded 0 = some .deadlineExceeded := by
  have hs : expiring.Reachable := ⟨_, _, rfl⟩
  have hforest : expiring.forest = ⟨#[⟨some (.int 5), none, none, [1]⟩, ⟨some (.int 5), some 0, none, []⟩]⟩ := rfl
  have hnone : expiring.forest.recorded 1 = none := rfl
  have hdeadline {a : ContextId} {d : Number} (hd : expiring.forest.deadline? a = some d) : d = .int 5 := by
    have hlt : a < 2 := Forest.lt_size_of_deadline? hd
    interval_cases a <;> exact (Option.some.inj hd).symm
  have hnum (a : ContextId) (d : Number) (_ : expiring.forest.Within a 1)
      (hd : expiring.forest.deadline? a = some d) : d.isNaN = false := by rw [hdeadline hd]; rfl
  have hpassed {a : ContextId} (ha : a < 2) : expiring.forest.Passed (.int 10) a := by
    refine ⟨.int 5, ?_, atMost_of_le (by decide)⟩
    interval_cases a <;> rfl
  have hnot : ¬ expiring.forest.Passed (.int 4) 1 := by
    rintro ⟨d, hd, hle⟩
    rw [hdeadline hd] at hle
    exact absurd hle (by decide +kernel)
  obtain ⟨hfour, -, hfourOwn⟩ := error_exact hs (.int 4) 1
  obtain ⟨hten, -, htenOwn⟩ := error_exact hs (.int 10) 1
  have hlive := ((hfourOwn hnum).2 hnone).mpr hnot
  have hdone : (expiring.forest.error (.int 10) 1).1 ≠ none :=
    fun h => ((htenOwn hnum).2 hnone).mp h (hpassed (by decide))
  obtain ⟨hcause, t, htop, hexact⟩ := (hten hnone).2.2 hdone
  refine ⟨Prod.ext hlive ((hfour hnone).2.1 hlive), hcause, ?_⟩
  have ht : t ≤ 1 := htop.within.le hs.ordered
  -- the context that expired is the lower one or the upper one; below the upper one nothing has passed
  interval_cases t
  · exact (hexact.reached 0 .refl rfl).1
  · exact absurd (hpassed (by decide)) (htop.above 0 (.single rfl) (by decide))

end Timeline

end LinearProgram
