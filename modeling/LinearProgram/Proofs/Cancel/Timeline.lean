import Mathlib.Logic.Relation
import LinearProgram.Proofs.Cancel.Forest

/-!
# Once done, done for good

Contexts live in time: they are made, canceled and asked in any order, and between two such events the
clock may be set to anything, also back. In everything that can come about so, parents are older than
their children, and what is recorded in a context stays there.

A context is done as soon as it has answered so, because the answer is recorded before it is given. A context
below it need not have been told: it finds out when it is asked.
-/

namespace LinearProgram

/-- Contexts and the time on the clock. -/
structure Timeline where
  forest : Forest
  now : Number

namespace Timeline

/-! ## §1 Events -/

/-- What can happen: a context is made with a deadline of its own, or none, or with one that lies some seconds
ahead; it is canceled; it is asked why it is done; the clock moves. -/
inductive Event where
  | make (deadline : Option Number) (parent : Option ContextId)
  | makeWithTimeout (seconds : Number) (parent : Option ContextId)
  | cancel (c : ContextId)
  | ask (c : ContextId)
  | move (now : Number)

/-- Make a context, provided that the parent is there. -/
def make (s : Timeline) (deadline : Option Number) (parent : Option ContextId) : Timeline :=
  if parent.all (· < s.forest.size) then { s with forest := (s.forest.make deadline parent).2 } else s

/-- What an event leads to. A time that cannot be computed makes no context. -/
def next (s : Timeline) : Event → Timeline
  | .make deadline parent => s.make deadline parent
  | .makeWithTimeout seconds parent =>
    match s.now.add seconds with
    | .ok deadline => s.make (some deadline) parent
    | .error _ => s
  | .cancel c => { s with forest := s.forest.cancel c }
  | .ask c => { s with forest := (s.forest.error s.now c).2 }
  | .move now => { s with now := now }

def after (s : Timeline) (events : List Event) : Timeline := events.foldl next s

/-- Why a context is done, if it is asked now. -/
def answer (s : Timeline) (c : ContextId) : Option Interruption := (s.forest.error s.now c).1

/-- What can come about, from no contexts at all. -/
def Reachable (s : Timeline) : Prop := ∃ now events, s = after ⟨.empty, now⟩ events

def Parent (s : Timeline) (p c : ContextId) : Prop := s.forest.parent? c = some p

/-- `d` is below `c`: its child, or a child of something below it. -/
def Below (s : Timeline) : ContextId → ContextId → Prop := Relation.TransGen s.Parent

/-! ## §2 What every event keeps -/

variable {s : Timeline}

/-- An event that makes a context keeps the order, and the forest gets later. -/
theorem make_keeps (ho : s.forest.Ordered) (deadline : Option Number) (parent : Option ContextId) :
    (s.make deadline parent).forest.Ordered ∧ s.forest.Later (s.make deadline parent).forest := by
  unfold make
  split
  · next hp =>
    refine ⟨Forest.make_ordered ho deadline fun p hmem => ?_, Forest.make_later ..⟩
    cases hmem
    simpa using hp
  · -- an unknown parent: nothing is made
    exact ⟨ho, .refl _⟩

/-- **One event**: parents stay older than their children, and what is recorded stays. -/
theorem next_keeps (ho : s.forest.Ordered) (e : Event) :
    (s.next e).forest.Ordered ∧ s.forest.Later (s.next e).forest := by
  cases e with
  | make deadline parent => exact make_keeps ho deadline parent
  | makeWithTimeout seconds parent =>
    dsimp only [next]
    split
    · exact make_keeps ho _ parent
    · exact ⟨ho, .refl _⟩
  | cancel c =>
    have hf := Forest.finish_finishes s.forest c .canceled
    exact ⟨hf.ordered ho, hf.later⟩
  -- asking may record an expired deadline, as a cancellation records its cause
  | ask c => exact ⟨Forest.error_ordered ho s.now c, Forest.error_later s.forest s.now c⟩
  | move now => exact ⟨ho, .refl _⟩

/-- **All events.** -/
theorem after_keeps (ho : s.forest.Ordered) (events : List Event) :
    (s.after events).forest.Ordered ∧ s.forest.Later (s.after events).forest := by
  induction events generalizing s with
  | nil => exact ⟨ho, .refl _⟩
  | cons e events ih =>
    obtain ⟨ho₁, hl₁⟩ := next_keeps ho e
    obtain ⟨ho₂, hl₂⟩ := ih ho₁
    exact ⟨ho₂, hl₁.trans hl₂⟩

theorem Reachable.ordered (hs : s.Reachable) : s.forest.Ordered := by
  obtain ⟨now, events, rfl⟩ := hs
  refine (after_keeps (fun c p hp => ?_) events).1
  cases Forest.lt_size_of_parent? hp

/-! ## §3 Answers -/

/-- What is recorded is the answer. -/
theorem answer_of_recorded {c : ContextId} {cause : Interruption} (h : s.forest.recorded c = some cause) :
    s.answer c = some cause := by
  rw [answer, Forest.error_of_recorded h]

/-- Everything below a context that is done is done. -/
theorem answer_below (ho : s.forest.Ordered) {c d : ContextId} (hbelow : s.Below c d)
    (hdone : s.answer c ≠ none) : s.answer d ≠ none := by
  induction hbelow with
  | single hp => exact Forest.error_of_parent hp (ho _ _ hp) hdone
  | tail _ hp ih => exact Forest.error_of_parent hp (ho _ _ hp) ih

/-- **Once done, done for good.** A cause that is recorded in a context, or that it has answered, is its answer
at any later time, whatever happens meanwhile; and when a context has answered with a cause, everything below
it has one too, at once and at any later time, also what is made later. -/
theorem done_for_good (hs : s.Reachable) (c : ContextId) (later : List Event) :
    (∀ cause, s.forest.recorded c = some cause → (s.after later).answer c = some cause) ∧
    (∀ cause, s.answer c = some cause → ((s.next (.ask c)).after later).answer c = some cause) ∧
    (s.answer c ≠ none → ∀ d, s.Below c d → s.answer d ≠ none) ∧
    (s.answer c ≠ none → ∀ d, ((s.next (.ask c)).after later).Below c d →
      ((s.next (.ask c)).after later).answer d ≠ none) := by
  have ho := hs.ordered
  obtain ⟨hoAsked, -⟩ := next_keeps ho (.ask c)
  obtain ⟨hoLater, hlater⟩ := after_keeps hoAsked later
  have hasked (cause : Interruption) (h : s.answer c = some cause) :
      ((s.next (.ask c)).after later).answer c = some cause := by
    -- the answer was recorded when it was given
    have hrecorded := ((Forest.error_spec s.forest s.now c).2 cause h).2
    exact answer_of_recorded (hlater.recorded c cause hrecorded)
  refine ⟨fun cause h => ?_, hasked, fun hdone d hd => answer_below ho hd hdone, fun hdone d hd => ?_⟩
  · exact answer_of_recorded ((after_keeps ho later).2.recorded c cause h)
  · obtain ⟨cause, hcause⟩ := Option.ne_none_iff_exists'.mp hdone
    refine answer_below hoLater hd ?_
    rw [hasked cause hcause]
    simp

/-- Integers stand in the order of integers. -/
theorem atMost_of_le {m n : Int} (h : m ≤ n) : (Number.int m).atMost (.int n) = true := by
  simp only [Number.atMost, Number.rank?, Number.Rank.le, decide_eq_true_eq]
  exact Int.mul_le_mul_of_nonneg_right h (Int.natCast_nonneg _)

/-- A context with a deadline of five and one below it. -/
def expiring : Timeline := after ⟨.empty, .int 10⟩ [.make (some (.int 5)) none, .make none (some 0)]

/-- Asked at ten it is done, and it is still done when the clock is back at zero and it has been canceled. -/
theorem expired_for_good : expiring.answer 0 = some .deadlineExceeded ∧
    ((expiring.next (.ask 0)).after [.move (.int 0), .cancel 0]).answer 0 = some .deadlineExceeded := by
  have hpassed : (Number.int 5).atMost (.int 10) = true := atMost_of_le (by decide)
  -- the deadline of 5 lies behind the clock at 10
  have hnow : expiring.answer 0 = some .deadlineExceeded := by
    have hlive : expiring.forest.recorded 0 = none := rfl
    have hfirst : expiring.forest.askParent expiring.now 0 = (none, expiring.forest) := rfl
    have hdeadline : expiring.forest.deadline? 0 = some (.int 5) := rfl
    rw [answer, Forest.error_of_live hlive, hfirst]
    dsimp only
    rw [hdeadline]
    refine (congrArg Prod.fst (if_pos hpassed)).trans ?_
    exact Forest.recorded_finish (by decide) hlive
  exact ⟨hnow, (done_for_good ⟨_, _, rfl⟩ 0 _).2.1 _ hnow⟩

end Timeline

end LinearProgram
