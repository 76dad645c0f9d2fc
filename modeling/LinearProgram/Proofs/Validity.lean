import LinearProgram.Proofs.Results
import LinearProgram.Proofs.Shape

/-!
# How long a result is valid

A result stands for the state of its model at one revision. `Event.Outdates` says which events make the
results of a model invalid: new variables, a new constraint, and a solve that has started a solver, with
whatever answer. An event renews the revision of a model exactly if it outdates its results, and all other
events leave the numbers of rows and columns alone. So a result is valid exactly as long as its model is
open and nothing outdated it, and what is read through it is counted as at its own solve.

This is about sessions in which the native solvers return. A run that breaks off, which a script can ask
for, has started a solver without renewing the revision.
-/

namespace LinearProgram

open LinearProgram.Action

/-! ## §1 Sessions whose runs return -/

/-- Handles can be given up, the clock can go on, and the next runs return. -/
structure World.Able (w : World) : Prop where
  registry : w.registry.Regular
  timed : w.Timed
  returns : w.script.Returns

/-- An interlude brings about a regular registry, a time that a double can hold, and scripts that
return. -/
def Operation.Fair : Operation → Prop
  | meanwhile i => i.registry.Regular ∧ (∃ x, i.clock.toDouble = .ok x) ∧ i.script.Returns
  | _ => True

namespace World

variable {w w' : World}

theorem Able.going (h : w.Able) (hs : w.Sound) : w.Going := ⟨hs.compliant, h.timed⟩

/-- What leaves the registry and the clock steady leaves a state able. -/
theorem Able.of_steady (h : w.Able) (hsteady : w.Steady w') (hscript : w'.script = w.script) :
    w'.Able where
  registry := by rw [hsteady.registry]; exact h.registry
  timed := by
    obtain ⟨x, hx⟩ := h.timed
    exact ⟨x, by rw [hsteady.clock]; exact hx⟩
  returns := by rw [hscript]; exact h.returns

/-- **Fair operations keep a state able**, however they end. -/
private theorem able_of_performed (ha : w.Able) (hs : w.Sound) {o : Operation} (hfair : o.Fair)
    {a : Except Fault Answer} (h : Performed w o a w') : w'.Able := by
  cases h with
  | refused h => exact ha.of_steady h.steady h.script
  | asked h => exact ha.of_steady h.steady h.script
  -- the circumstances change, to such as are fair again
  | elapsed => exact ⟨hfair.1, hfair.2.1, hfair.2.2⟩
  | configured h hsteady => exact ha.of_steady hsteady h.script
  | created hd h₁ h₂ hsteady =>
    exact (ha.of_steady h₁.steady h₁.script).of_steady hsteady h₂.script
  | undone h₁ h₂ => exact (ha.of_steady h₁.steady h₁.script).of_steady h₂.steady h₂.script
  | cloned hh h => exact ha.of_steady h.steady h.script
  | freed hh h => exact ha.of_steady h.steady h.script
  | freedBefore => exact ha
  | grew ho hh hn h hsteady => exact ha.of_steady hsteady h.script
  | constrained hh hc h hsteady => exact ha.of_steady hsteady h.script
  | kindSet hk hh hok h hsteady => exact ha.of_steady hsteady h.script
  | boundsSet hb hh hp hi hk h hsteady => exact ha.of_steady hsteady h.script
  | boundsIgnored hb hh hp hi h => exact ha.of_steady h.steady h.script
  | coefficientSet hx hh h hsteady => exact ha.of_steady hsteady h.script
  | objectiveSet hh hargs hv hc h hsteady => exact ha.of_steady hsteady h.script
  | directionSet hd hh h hsteady => exact ha.of_steady hsteady h.script
  | solved ho hh h =>
    obtain ⟨load, touched, hran⟩ := h.ran
    -- a run moves the clock, which still shows a number
    have hgoing := (hran.commits ha.registry (ha.going hs) ha.returns).1
    exact ⟨(hran.regular ha.registry).1, hgoing.2, by rw [hran.edits.script]; exact ha.returns⟩

theorem able_next (ha : w.Able) (hs : w.Sound) {o : Operation} (hfair : o.Fair) : (w.next o).Able :=
  able_of_performed ha hs hfair (performed hs o)

/-- Sequences of fair operations keep a state able. -/
theorem able_nextAll (ha : w.Able) (hs : w.Sound) {os : List Operation} (hfair : ∀ o ∈ os, o.Fair) :
    (w.nextAll os).Able := by
  induction os generalizing w with
  | nil => exact ha
  | cons o rest ih =>
    exact ih (able_next ha hs (hfair o (List.mem_cons_self ..))) (sound_next hs o)
      fun o' ho' => hfair o' (List.mem_cons_of_mem _ ho')

theorem able_initial : initial.Able where
  registry := Registry.regular_empty
  timed := ⟨_, rfl⟩
  returns := ⟨by simp [initial, Script.standard], by simp [initial, Script.standard], _, rfl⟩

end World

/-! ## §2 What outdates a result -/

/-- The event outdates the results of model `m`: variables or a constraint were added, or a solver was
started. -/
def Event.Outdates (e : Event) (m : ModelId) : Prop :=
  match e.operation with
  | .addVariable m' .. | .addVariables m' .. | .addConstraint m' .. => m' = m ∧ ∃ a, e.answer = .ok a
  | .solve m' _ | .solveWithContext m' .. => m' = m ∧ ∃ c ∈ e.calls, c.isEntry = true
  | _ => False

/-- One of the events outdates the results of model `m`. -/
def Event.Outdated (m : ModelId) (es : List Event) : Prop := ∃ e ∈ es, e.Outdates m

/-- How a model that stays open comes out of events: with a higher revision if its results are outdated,
and otherwise with the same revision and the same numbers of columns and rows. -/
structure Continues (outdated : Prop) (model : Model) (q : Native.Problem) (model' : Model)
    (q' : Native.Problem) : Prop where
  le : model.revision ≤ model'.revision
  revision_iff : model'.revision = model.revision ↔ ¬ outdated
  counts : ¬ outdated → q'.columnCount = q.columnCount ∧ q'.rowCount = q.rowCount

namespace Continues

variable {outdated outdated' : Prop} {model model' model'' : Model} {q q' q'' : Native.Problem}

theorem same (h : ¬ outdated) (hrevision : model'.revision = model.revision)
    (hcounts : q'.columnCount = q.columnCount ∧ q'.rowCount = q.rowCount) :
    Continues outdated model q model' q' :=
  ⟨Nat.le_of_eq hrevision.symm, iff_of_true hrevision h, fun _ => hcounts⟩

/-- A new revision outdates the results of the old one. -/
theorem renewed (h : outdated) (hrevision : model'.revision = model.revision + 1) :
    Continues outdated model q model' q' where
  le := by omega
  revision_iff := iff_of_false (by omega) (not_not_intro h)
  counts hnot := absurd h hnot

/-- Over two steps, results are outdated that either of them outdates. -/
theorem trans (h₁ : Continues outdated model q model' q')
    (h₂ : Continues outdated' model' q' model'' q'') :
    Continues (outdated ∨ outdated') model q model'' q'' where
  le := Nat.le_trans h₁.le h₂.le
  -- revisions never fall, so they are equal at the end just when neither part raised them
  revision_iff := by
    rw [not_or, ← h₁.revision_iff, ← h₂.revision_iff]
    have hle₁ := h₁.le
    have hle₂ := h₂.le
    omega
  counts hnot := by
    obtain ⟨hcolumns₁, hrows₁⟩ := h₁.counts fun h => hnot (Or.inl h)
    obtain ⟨hcolumns₂, hrows₂⟩ := h₂.counts fun h => hnot (Or.inr h)
    exact ⟨hcolumns₂.trans hcolumns₁, hrows₂.trans hrows₁⟩

theorem congr (h : Continues outdated model q model' q') (hiff : outdated ↔ outdated') :
    Continues outdated' model q model' q' := propext hiff ▸ h

end Continues

def World.Gone (w : World) (m : ModelId) : Prop :=
  ∃ model, w.modelCore? m = some model ∧ model.freed = true

/-- A model that is freed is gone. -/
theorem World.Frees.gone {w w' : World} {m : ModelId} {model : Model} {n : Nat} {q : Native.Problem}
    (h : World.Frees w w' m n) (hh : w.Holds m model n q) : w'.Gone m := by
  have hlt : m < w'.models.size := by
    rw [h.modelCount]
    exact hh.lt_size
  have hfound : w'.modelCore? m = some w'.models[m].core :=
    World.modelCore?_of_model? (Array.getElem?_eq_getElem hlt)
  exact ⟨_, hfound, h.freed _ hfound⟩

/-- What follows an operation on a model that holds a problem. -/
private def Follows (w' : World) (m : ModelId) (model : Model) (n : Nat) (q : Native.Problem)
    (e : Event) : Prop :=
  w'.Gone m ∨ ∃ model' q', w'.Holds m model' n q' ∧ Continues (e.Outdates m) model q model' q'

namespace Follows

variable {w w' : World} {m : ModelId} {model : Model} {n : Nat} {q : Native.Problem} {e : Event}

private theorem of_holds (h : w'.Holds m model n q) (he : ¬ e.Outdates m) :
    Follows w' m model n q e := Or.inr ⟨model, q, h, .same he rfl ⟨rfl, rfl⟩⟩

/-- An edit by calls that add nothing, of the model itself or another one. -/
private theorem of_edits (hs : w.Sound) (hh : w.Holds m model n q) {m₁ : ModelId} {model₁ : Model}
    {n₁ : Nat} {q₁ : Native.Problem} (hh₁ : w.Holds m₁ model₁ n₁ q₁) {f : Model → Model}
    {cs : List Native.Call} (h : World.Edits w w' m₁ f n₁ cs)
    (hf : (f model₁).freed = model₁.freed) (he : (f model₁).engine = model₁.engine)
    (hown : m = m₁ → Continues (e.Outdates m) model₁ q₁ (f model₁) (q₁.applyAll cs).core)
    (hother : m ≠ m₁ → ¬ e.Outdates m) : Follows w' m model n q e := by
  -- the model edited, or another one that the edit leaves alone
  by_cases hm : m = m₁
  · subst hm
    have hown := hown rfl
    obtain ⟨rfl, rfl, rfl⟩ := hh.unique hh₁
    exact Or.inr ⟨_, _, h.holds hh hf he, hown⟩
  · exact of_holds ((h.holds_other hs hh₁ hm).mpr hh) (hother hm)

/-- An edit by calls that add nothing outdates nothing. -/
private theorem of_unshaping (hs : w.Sound) (hh : w.Holds m model n q) {m₁ : ModelId}
    {model₁ : Model} {n₁ : Nat} {q₁ : Native.Problem} (hh₁ : w.Holds m₁ model₁ n₁ q₁)
    {f : Model → Model} {cs : List Native.Call} (h : World.Edits w w' m₁ f n₁ cs)
    (hf : (f model₁).freed = model₁.freed) (he : (f model₁).engine = model₁.engine)
    (hrevision : (f model₁).revision = model₁.revision) (hcs : ∀ c ∈ cs, c.isShaping = false)
    (hnot : ¬ e.Outdates m) : Follows w' m model n q e := by
  refine of_edits hs hh hh₁ h hf he (fun _ => .same hnot hrevision ?_) fun _ => hnot
  rw [Native.Problem.columnCount_core, Native.Problem.rowCount_core]
  exact Native.Problem.counts_applyAll hcs q₁

/-- Setting attributes outdates nothing. -/
private theorem of_tune (hs : w.Sound) (hh : w.Holds m model n q) {m₁ : ModelId} {model₁ : Model}
    {n₁ : Nat} {q₁ : Native.Problem} (hh₁ : w.Holds m₁ model₁ n₁ q₁) {f : Model → Model}
    {cs : List Native.Call} (h : World.Edits w w' m₁ f n₁ cs) (hf : model₁.Retyped (f model₁))
    (hcs : ∀ c ∈ cs, c.isAttribute = true) (hnot : ¬ e.Outdates m) : Follows w' m model n q e :=
  of_unshaping hs hh hh₁ h hf.freed hf.engine hf.revision
    (fun c hc => Native.Call.isShaping_of_isAttribute (hcs c hc)) hnot

/-- A solve outdates the results of its model if it starts a solver. -/
private theorem of_solves (hs : w.Sound) (ha : w.Able) (hh : w.Holds m model n q) {o : Operation}
    {m₁ : ModelId} {model₁ : Model} {n₁ : Nat} {q₁ : Native.Problem} (ho : o.SolvesModel m₁)
    (hh₁ : w.Holds m₁ model₁ n₁ q₁) {answer : Except Fault SolveResult}
    (h : Model.Solves w m₁ model₁ n₁ (answer, w')) :
    Follows w' m model n q ⟨o, answer.map .result, w.callsSince w'⟩ := by
  have hiff : Event.Outdates ⟨o, answer.map .result, w.callsSince w'⟩ m ↔ m₁ = m ∧ w.Entered w' := by
    cases o <;> simp_all [Operation.SolvesModel, Event.Outdates, World.Entered]
  have hother (hm : m ≠ m₁) : ¬ Event.Outdates ⟨o, answer.map .result, w.callsSince w'⟩ m :=
    fun hout => hm (hiff.mp hout).1.symm
  rcases h with ⟨hran, hno⟩ | ⟨t, touched, -, hran⟩
  · -- what failed before the matrix was there has started no solver
    refine of_unshaping hs hh hh₁ hran.edits rfl rfl rfl (by simp) fun hout => ?_
    obtain ⟨c, hc, he⟩ := (hiff.mp hout).2
    rw [hno c hc] at he
    cases he
  · have htouched := (hran.commits ha.registry (ha.going hs) ha.returns).2
    cases touched with
    | false =>
      have hnot : ¬ w.Entered w' := fun he => Bool.noConfusion (htouched.mpr he)
      exact of_unshaping hs hh hh₁ hran.edits rfl rfl rfl (Engine.isShaping_loadCalls _ t)
        fun hout => hnot (hiff.mp hout).2
    | true =>
      exact of_edits hs hh hh₁ hran.edits rfl rfl
        (fun hm => .renewed (hiff.mpr ⟨hm.symm, htouched.mp rfl⟩) rfl) hother

end Follows

/-- An operation that fails before a solver was started outdates nothing. -/
private theorem not_outdates_of_idle {o : Operation} {fault : Fault} {cs : List Native.Call}
    (h : ∀ c ∈ cs, c.isEntry = false) (m : ModelId) :
    ¬ (Event.mk o (.error fault) cs).Outdates m := by
  have hno : ¬ ∃ c ∈ cs, c.isEntry = true := by
    rintro ⟨c, hc, he⟩
    rw [h c hc] at he
    cases he
  unfold Event.Outdates
  -- a fault outdates results only if the solver was entered before
  cases o <;> simp [hno]

/-- **Each operation leaves an open model to go on with, or gone**, and outdates its results exactly if it
says so. -/
private theorem follows_of_performed {w w' : World} (hs : w.Sound) (ha : w.Able) {m : ModelId}
    {model : Model} {n : Nat} {q : Native.Problem} (hh : w.Holds m model n q) {o : Operation}
    {a : Except Fault Answer} (h : Performed w o a w') :
    Follows w' m model n q ⟨o, a, w.callsSince w'⟩ := by
  cases h with
  | refused h =>
    exact .of_holds ((World.Undisturbed.of_idling h).holds_iff.mpr hh) (not_outdates_of_idle h.idle m)
  | asked h => exact .of_holds ((World.Undisturbed.of_idling h).holds_iff.mpr hh) id
  | @elapsed i => exact .of_holds ((World.holds_interlude i).mpr hh) id
  | configured h => exact .of_holds (h.holds_iff.mpr hh) id
  | created hd h₁ h₂ => exact .of_holds (h₁.holds_of_edits hs rfl h₂ hh) id
  | undone h₁ h₂ => exact .of_holds ((h₁.holds_iff_of_frees hs rfl h₂).mpr hh) id
  | cloned hh₁ h =>
    exact .of_holds ((h.holds_old hs (Nat.ne_of_lt hh.lt_size)).mpr hh) id
  | @freed m₁ model₁ n₁ q₁ _ hh₁ h =>
    by_cases hm : m = m₁
    · subst hm
      exact Or.inl (h.gone hh₁)
    · exact .of_holds ((h.holds_iff hs hh₁).mpr ⟨hm, hh⟩) id
  | freedBefore => exact .of_holds hh id
  | @grew o m₁ count d names _ _ q₁ _ ho hh₁ hn h =>
    -- new variables outdate the results of the model that they are added to
    have hiff : Event.Outdates ⟨o, .ok (.variables (Model.newVariables m₁ q₁.columnCount count)),
        w.callsSince w'⟩ m ↔ m₁ = m := by
      cases o <;> simp_all [Operation.Grows, Event.Outdates]
    refine .of_edits hs hh hh₁ h rfl rfl (fun hm => .renewed (hiff.mpr hm.symm) rfl) fun hm => ?_
    exact fun hout => hm (hiff.mp hout).symm
  | constrained hh₁ hc h =>
    refine .of_edits hs hh hh₁ h rfl rfl (fun hm => .renewed ⟨hm.symm, _, rfl⟩ rfl) fun hm => ?_
    exact fun hout => hm hout.1.symm
  | kindSet hk hh₁ hok h =>
    exact .of_tune hs hh hh₁ h (Variable.retyped_withKind ..) (Engine.isAttribute_kindCalls _ _ _) id
  | boundsSet hb hh₁ hp hi hk h =>
    exact .of_tune hs hh hh₁ h (.refl _)
      (List.forall_mem_singleton.mpr (Engine.isAttribute_boundsCall _ _ _)) id
  | boundsIgnored hb hh₁ hp hi h => exact .of_holds ((World.Undisturbed.of_idling h).holds_iff.mpr hh) id
  | coefficientSet hx hh₁ h =>
    exact .of_tune hs hh hh₁ h (.refl _)
      (List.forall_mem_singleton.mpr (Engine.isAttribute_objectiveCall _ _ _)) id
  | objectiveSet hh₁ hargs hv hc h =>
    exact .of_tune hs hh hh₁ h (.refl _) (Engine.isAttribute_objectiveCalls _ _) id
  | directionSet hd hh₁ h =>
    exact .of_tune hs hh hh₁ h (.refl _)
      (List.forall_mem_singleton.mpr (Engine.isAttribute_directionCall _ _)) id
  | solved ho hh₁ h => exact .of_solves hs ha hh ho hh₁ h

/-! ## §3 Whole sessions -/

namespace World

variable {w w' : World} {m : ModelId}

/-- A model that is gone is none that holds a problem. -/
theorem Gone.ne_of_holds (hg : w.Gone m) {m₁ : ModelId} {model : Model} {n : Nat} {q : Native.Problem}
    (hh : w.Holds m₁ model n q) : m ≠ m₁ := by
  rintro rfl
  obtain ⟨model', hfound, hf⟩ := hg
  cases hfound.symm.trans hh.found
  exact Bool.noConfusion (hf.symm.trans hh.unfreed)

theorem Gone.lt_size (hg : w.Gone m) : m < w.models.size := by
  obtain ⟨model, hfound, -⟩ := hg
  obtain ⟨model', hm, -⟩ := Option.map_eq_some_iff.mp hfound
  exact (Array.getElem?_eq_some_iff.mp hm).1

private theorem Gone.of_eq (hg : w.Gone m) (h : w'.modelCore? m = w.modelCore? m) : w'.Gone m := by
  obtain ⟨model, hfound, hf⟩ := hg
  exact ⟨model, h.trans hfound, hf⟩

private theorem Gone.of_edits (hg : w.Gone m) {m₁ : ModelId} {model : Model} {n : Nat}
    {q : Native.Problem} (hh : w.Holds m₁ model n q) {f : Model → Model} {cs : List Native.Call}
    (h : Edits w w' m₁ f n cs) : w'.Gone m :=
  hg.of_eq (by rw [h.models m, if_neg (hg.ne_of_holds hh)])

private theorem Gone.of_makes (hg : w.Gone m) {model : Model} {q : Native.Problem}
    (h : Makes w w' model q) : w'.Gone m :=
  hg.of_eq (by rw [h.models m, if_neg (Nat.ne_of_lt hg.lt_size)])

/-- **A model that is gone stays gone**, whatever is done. -/
private theorem gone_of_performed (hg : w.Gone m) {o : Operation} {a : Except Fault Answer}
    (h : Performed w o a w') : w'.Gone m := by
  cases h with
  | refused h => exact hg.of_eq ((Undisturbed.of_idling h).models m)
  | asked h => exact hg.of_eq ((Undisturbed.of_idling h).models m)
  | elapsed => exact hg
  | configured h => exact hg.of_eq (h.models m)
  -- a new model takes a new number
  | created hd h₁ h₂ =>
    obtain rfl := h₁.eq_next rfl
    exact (hg.of_makes h₁).of_edits h₁.holds_new h₂
  | undone h₁ h₂ => exact (hg.of_makes h₁).of_eq (h₂.models m (Nat.ne_of_lt hg.lt_size))
  | cloned hh h => exact hg.of_makes h
  -- another model is freed, since this one no longer holds a problem
  | freed hh h => exact hg.of_eq (h.models m (hg.ne_of_holds hh))
  | freedBefore => exact hg
  | grew ho hh hn h => exact hg.of_edits hh h
  | constrained hh hc h => exact hg.of_edits hh h
  | kindSet hk hh hok h => exact hg.of_edits hh h
  | boundsSet hb hh hp hi hk h => exact hg.of_edits hh h
  | boundsIgnored hb hh hp hi h => exact hg.of_eq ((Undisturbed.of_idling h).models m)
  | coefficientSet hx hh h => exact hg.of_edits hh h
  | objectiveSet hh hargs hv hc h => exact hg.of_edits hh h
  | directionSet hd hh h => exact hg.of_edits hh h
  | solved ho hh h =>
    obtain ⟨load, touched, hran⟩ := h.ran
    exact hg.of_edits hh hran.edits

/-- A freed model stays freed. -/
theorem gone_nextAll (hg : w.Gone m) (hs : w.Sound) (os : List Operation) : (w.nextAll os).Gone m := by
  induction os generalizing w with
  | nil => exact hg
  | cons o rest ih => exact ih (gone_of_performed hg (performed hs o)) (sound_next hs o)

/-- **What becomes of a model in a session**: it is freed, or it goes on with the same revision exactly if
nothing outdated its results. -/
theorem continues_nextAll (hs : w.Sound) (ha : w.Able) {os : List Operation}
    (hfair : ∀ o ∈ os, o.Fair) {model : Model} {n : Nat} {q : Native.Problem}
    (hh : w.Holds m model n q) :
    (w.nextAll os).Gone m ∨ ∃ model' q', (w.nextAll os).Holds m model' n q' ∧
      Continues (Event.Outdated m (w.events os)) model q model' q' := by
  -- on the operations; the model and its problem move along
  induction os generalizing w model q with
  | nil => exact Or.inr ⟨model, q, hh, .same (by simp [Event.Outdated, events]) rfl ⟨rfl, rfl⟩⟩
  | cons o rest ih =>
    have hs₁ := sound_next hs o
    have ha₁ := able_next ha hs (hfair o (List.mem_cons_self ..))
    rcases follows_of_performed hs ha hh (performed hs o) with hgone | ⟨model₁, q₁, hh₁, hstep⟩
    · exact Or.inl (gone_nextAll hgone hs₁ rest)
    rcases ih hs₁ ha₁ (fun o' ho' => hfair o' (List.mem_cons_of_mem _ ho')) hh₁ with
      hgone | ⟨model₂, q₂, hh₂, hrest⟩
    · exact Or.inl hgone
    · -- outdated by the first operation or by one of the rest
      refine Or.inr ⟨model₂, q₂, hh₂, (hstep.trans hrest).congr ?_⟩
      simp only [Event.Outdated, events, List.mem_cons, or_and_right, exists_or, exists_eq_left]
      rfl

/-- A solve that answers with a result has outdated the earlier ones, and the result stands for the
revision that the model has now. -/
theorem held_of_result (hs : w.Sound) (ha : w.Able) {o : Operation} {r : SolveResult}
    (h : (w.event o).answer = .ok (.result r)) :
    (w.event o).Outdates r.model ∧ ∃ model n q model' q', w.Holds r.model model n q ∧
      (w.next o).Holds r.model model' n q' ∧ model'.revision = r.revision ∧
      q'.columnCount = q.columnCount ∧ q'.rowCount = q.rowCount := by
  have hperformed := performed hs o
  have hanswer : (o.run.on w).1 = .ok (.result r) := h
  unfold event
  generalize o.run.on w = outcome at hperformed hanswer ⊢
  generalize w.next o = w' at hperformed ⊢
  generalize outcome.1 = a at hperformed hanswer ⊢
  -- only a solve answers with a result
  cases hperformed with
  | refused h => cases hanswer
  | @asked i _ a h => cases a <;> cases hanswer
  | elapsed => cases hanswer
  | @configured _ _ _ a h => cases a <;> cases hanswer
  | created hd h₁ h₂ => cases hanswer
  | undone h₁ h₂ => cases hanswer
  | cloned hh h => cases hanswer
  | freed hh h => cases hanswer
  | @freedBefore _ a => cases a <;> cases hanswer
  | grew ho hh hn h => cases hanswer
  | constrained hh hc h => cases hanswer
  | @kindSet _ _ _ _ _ _ _ a hk hh hok h => cases a <;> cases hanswer
  | boundsSet hb hh hp hi hk h => cases hanswer
  | boundsIgnored hb hh hp hi h => cases hanswer
  | coefficientSet hx hh h => cases hanswer
  | objectiveSet hh hargs hv hc h => cases hanswer
  | directionSet hd hh h => cases hanswer
  | @solved _ m model n q w' answer ho hh h =>
    cases answer with
    | error fault => cases hanswer
    | ok r' =>
      cases hanswer
      rcases h with ⟨hran, hno⟩ | ⟨t, touched, -, hran⟩
      · exact Bool.noConfusion (hran.result r rfl).1
      obtain ⟨rfl, rfl, hrevision⟩ := hran.result r rfl
      have hentered := (hran.commits ha.registry (ha.going hs) ha.returns).2.mp rfl
      have hload := Native.Problem.counts_applyAll (Engine.isShaping_loadCalls model.engine t) q
      refine ⟨?_, model, n, q, _, _, hh, hran.edits.holds hh rfl rfl, hrevision.symm, ?_⟩
      · cases o <;> simp_all [Operation.SolvesModel, Event.Outdates, World.Entered]
      · rw [Native.Problem.columnCount_core, Native.Problem.rowCount_core]
        exact hload

theorem events_append (w : World) (os os' : List Operation) :
    w.events (os ++ os') = w.events os ++ (w.nextAll os).events os' := by
  induction os generalizing w with
  | nil => rfl
  | cons o rest ih => simp [events, ih]

/-- The model is there and has not been freed. -/
def Open (w : World) (m : ModelId) : Prop := ∃ model, w.model? m = some model ∧ model.freed = false

theorem freed_of_not_open {w : World} {m : ModelId} (h : ¬ w.Open m) {model : Model}
    (hm : w.model? m = some model) : model.freed = true :=
  eq_true_of_ne_false fun hf => h ⟨model, hm, hf⟩

theorem open_iff (w : World) (m : ModelId) : w.Open m ↔ (w.model? m).map (·.freed) = some false := by
  simp [Open, Option.map_eq_some_iff]

theorem Holds.open {model : Model} {n : Nat} {q : Native.Problem} (hh : w.Holds m model n q) :
    w.Open m := by
  obtain ⟨model', -, hm, hf, -⟩ := hh.owns
  exact ⟨model', hm, hf⟩

/-- A model that is gone is not open. -/
theorem Gone.not_open (hg : w.Gone m) : ¬ w.Open m := by
  rintro ⟨model', hm, hf⟩
  obtain ⟨model, hfound, hf'⟩ := hg
  cases (modelCore?_of_model? hm).symm.trans hfound
  exact Bool.noConfusion (hf'.symm.trans hf)

end World

/-! ## §4 What remains of a model -/

/-- The operation is one that adds a constraint to model `m`. -/
def Operation.Constrains (m : ModelId) : Operation → Prop
  | addConstraint m' .. => m' = m
  | _ => False

/-- How a model that stays open comes out of operations: with the engine that it had, after at least as many
changes, and with the coefficients that it had unless a constraint was added to it. -/
structure Model.Remains (constrained : Prop) (model model' : Model) : Prop where
  engine : model'.engine = model.engine
  revision : model.revision ≤ model'.revision
  entries : ¬ constrained → model'.entries = model.entries

namespace Model.Remains

variable {constrained constrained' : Prop} {model model' model'' : Model}

protected theorem refl (constrained : Prop) (model : Model) : Remains constrained model model :=
  ⟨rfl, Nat.le_refl _, fun _ => rfl⟩

/-- Over two steps, constraints are those of either. -/
protected theorem trans (h₁ : Remains constrained model model') (h₂ : Remains constrained' model' model'') :
    Remains (constrained ∨ constrained') model model'' where
  engine := h₂.engine.trans h₁.engine
  revision := Nat.le_trans h₁.revision h₂.revision
  entries hnot := (h₂.entries fun h => hnot (.inr h)).trans (h₁.entries fun h => hnot (.inl h))

end Model.Remains

/-- What remains of a model that held a problem: it is freed, or it still holds the problem. -/
private def Remaining (w' : World) (m : ModelId) (model : Model) (n : Nat) (constrained : Prop) : Prop :=
  w'.Gone m ∨ ∃ model' q', w'.Holds m model' n q' ∧ model.Remains constrained model'

namespace Remaining

variable {w w' : World} {m : ModelId} {model : Model} {n : Nat} {q : Native.Problem} {constrained : Prop}

private theorem of_holds (h : w'.Holds m model n q) : Remaining w' m model n constrained :=
  .inr ⟨model, q, h, .refl constrained model⟩

/-- An edit of the model itself or another one. -/
private theorem of_edits (hs : w.Sound) (hh : w.Holds m model n q) {m₁ : ModelId} {model₁ : Model}
    {n₁ : Nat} {q₁ : Native.Problem} (hh₁ : w.Holds m₁ model₁ n₁ q₁) {f : Model → Model}
    {cs : List Native.Call} (h : World.Edits w w' m₁ f n₁ cs) (hf : (f model₁).freed = model₁.freed)
    (he : (f model₁).engine = model₁.engine) (hrevision : model₁.revision ≤ (f model₁).revision)
    (hentries : m = m₁ → ¬ constrained → (f model₁).entries = model₁.entries) :
    Remaining w' m model n constrained := by
  by_cases hm : m = m₁
  · subst hm
    obtain ⟨rfl, rfl, rfl⟩ := hh.unique hh₁
    exact .inr ⟨_, _, h.holds hh hf he, he, hrevision, hentries rfl⟩
  · exact of_holds ((h.holds_other hs hh₁ hm).mpr hh)

end Remaining

/-- **An open model remains what it was, or is freed**, and gets constraints only where an operation adds
them. -/
private theorem remaining_of_performed {w w' : World} (hs : w.Sound) {m : ModelId} {model : Model} {n : Nat}
    {q : Native.Problem} (hh : w.Holds m model n q) {o : Operation} {a : Except Fault Answer}
    (h : Performed w o a w') : Remaining w' m model n (o.Constrains m) := by
  -- new models stand apart from `m`, freeing is its end if it is meant, and everything else edits one model
  cases h with
  | refused h => exact .of_holds ((World.Undisturbed.of_idling h).holds_iff.mpr hh)
  | asked h => exact .of_holds ((World.Undisturbed.of_idling h).holds_iff.mpr hh)
  | elapsed => exact .of_holds ((World.holds_interlude _).mpr hh)
  | configured h => exact .of_holds (h.holds_iff.mpr hh)
  | created hd h₁ h₂ => exact .of_holds (h₁.holds_of_edits hs rfl h₂ hh)
  | undone h₁ h₂ => exact .of_holds ((h₁.holds_iff_of_frees hs rfl h₂).mpr hh)
  | cloned hh₁ h => exact .of_holds ((h.holds_old hs (Nat.ne_of_lt hh.lt_size)).mpr hh)
  | @freed m₁ model₁ n₁ q₁ _ hh₁ h =>
    by_cases hm : m = m₁
    · subst hm
      exact .inl (h.gone hh₁)
    · exact .of_holds ((h.holds_iff hs hh₁).mpr ⟨hm, hh⟩)
  | freedBefore => exact .of_holds hh
  | grew hgrows hh₁ hn h => exact .of_edits hs hh hh₁ h rfl rfl (Nat.le_succ _) fun _ _ => rfl
  | constrained hh₁ hc h =>
    exact .of_edits hs hh hh₁ h rfl rfl (Nat.le_succ _) fun hm hnot => absurd hm.symm hnot
  | @kindSet v kind k model₁ _ _ _ _ hk hh₁ hok h =>
    have hf := Variable.retyped_withKind v.index k model₁
    exact .of_edits hs hh hh₁ h hf.freed hf.engine (Nat.le_of_eq hf.revision.symm) fun _ _ => hf.entries
  | boundsSet hb hh₁ hp hi hk h => exact .of_edits hs hh hh₁ h rfl rfl (Nat.le_refl _) fun _ _ => rfl
  | boundsIgnored hb hh₁ hp hi h => exact .of_holds ((World.Undisturbed.of_idling h).holds_iff.mpr hh)
  | coefficientSet hx hh₁ h => exact .of_edits hs hh hh₁ h rfl rfl (Nat.le_refl _) fun _ _ => rfl
  | objectiveSet hh₁ hargs hv hc h => exact .of_edits hs hh hh₁ h rfl rfl (Nat.le_refl _) fun _ _ => rfl
  | directionSet hd hh₁ h => exact .of_edits hs hh hh₁ h rfl rfl (Nat.le_refl _) fun _ _ => rfl
  | solved hsolve hh₁ h =>
    obtain ⟨load, touched, hran⟩ := h.ran
    -- a solve that reaches the solver counts a change, also if it fails
    cases touched with
    | false => exact .of_edits hs hh hh₁ hran.edits rfl rfl (Nat.le_refl _) fun _ _ => rfl
    | true => exact .of_edits hs hh hh₁ hran.edits rfl rfl (Nat.le_succ _) fun _ _ => rfl

/-- **What remains of a model in a session**: it is freed, or it still holds its problem. -/
theorem World.remains_nextAll {w : World} (hs : w.Sound) {m : ModelId} {model : Model} {n : Nat}
    {q : Native.Problem} (hh : w.Holds m model n q) (os : List Operation) :
    (w.nextAll os).Gone m ∨ ∃ model' q', (w.nextAll os).Holds m model' n q' ∧
      model.Remains (∃ o ∈ os, o.Constrains m) model' := by
  -- on the operations, as long as the model stays open
  induction os generalizing w model q with
  | nil => exact .inr ⟨model, q, hh, .refl _ model⟩
  | cons o rest ih =>
    have hs₁ := sound_next hs o
    rcases remaining_of_performed hs hh (performed hs o) with hgone | ⟨model₁, q₁, hh₁, hfirst⟩
    · exact .inl (gone_nextAll hgone hs₁ rest)
    · rcases ih hs₁ hh₁ with hgone | ⟨model₂, q₂, hh₂, hothers⟩
      · exact .inl hgone
      · have hall := hfirst.trans hothers
        rw [← List.exists_mem_cons_iff] at hall
        exact .inr ⟨model₂, q₂, hh₂, hall⟩

/-! ## §5 Results in sessions -/

namespace SolveResult

variable {w : World} {r : SolveResult}

/-- Reads through the result count `rows` rows and `columns` columns of problem `n`: the values are those
of the variables in order, and on lp_solve a value is read at its place behind the rows. -/
structure ReadsAs (r : SolveResult) (w : World) (n rows columns : Nat) : Prop where
  holds : ∃ model q, w.Holds r.model model n q ∧ q.rowCount = rows ∧ q.columnCount = columns ∧
    model.vars = Model.newVariables r.model 0 columns
  values : ∃ xs, (r.values.on w).1 = .ok xs ∧ xs.length = columns ∧
    ∀ v ∈ Model.newVariables r.model 0 columns, ∃ (i : Nat) (x : Float), v.index = i ∧
      xs[i]? = some x ∧ ((r.primal (.variable v)).on w).1 = .ok x
  place : ∀ model, w.model? r.model = some model → model.engine.kind = .lpsolve →
    ∀ v : Variable, v.model = r.model → w.callsSince ((r.primal (.variable v)).on w).2 =
      [.lpsolve (.read n .rowCount), .lpsolve (.read n (.primal (rows + (v.index + 1))))]

/-- A result of an open model is current exactly if the revision of the model is its own. -/
private theorem current_of_holds {model : Model} {n : Nat} {q : Native.Problem}
    (hh : w.Holds r.model model n q) : r.Current w ↔ model.revision = r.revision := by
  obtain ⟨model', q', hm, hf, -, rfl, -⟩ := hh.owns
  constructor
  · rintro ⟨model₁, hm₁, -, hr⟩
    cases hm.symm.trans hm₁
    exact hr
  · exact fun hr => ⟨model', hm, hf, hr⟩

/-- Through a current result, the rows and columns of its problem are read. -/
private theorem readsAs_of_current (hs : w.Sound) (hal : w.Aligned) {model : Model} {n : Nat}
    {q : Native.Problem} (hh : w.Holds r.model model n q) (hr : model.revision = r.revision) :
    r.ReadsAs w n q.rowCount q.columnCount := by
  have hvars := (hal hh).vars
  obtain ⟨model', q', hm, hf, ho, rfl, rfl⟩ := hh.owns
  have hr' : model'.revision = r.revision := hr
  rw [Native.Problem.rowCount_core, Native.Problem.columnCount_core] at *
  obtain ⟨w', hvalues, -⟩ := on_values hs.compliant hm hf hr' ho
  refine ⟨⟨model'.core, q'.core, hh, by simp, by simp, hvars⟩, ⟨_, by rw [hvalues], by simp, ?_⟩, ?_⟩
  · intro v hv
    -- the variables of an aligned model are numbered by its columns
    obtain ⟨i, hi, rfl⟩ := List.mem_map.mp hv
    have hlt : i < q'.columnCount := List.mem_range.mp hi
    refine ⟨i, q'.primal (1 + i) r.method, by simp, by simp [hlt], ?_⟩
    rw [on_primal hs.compliant hm hf hr' ho rfl]
    simp only [Variable.column]
    congr 2
    omega
  · intro model₁ hm₁ hk v hv
    -- lp_solve asks for the row count first, as its solution has the rows in front
    cases hm.symm.trans hm₁
    rw [on_primal hs.compliant hm hf hr' ho hv, World.callsSince_afterAll]
    simp [Engine.primalCalls, Engine.rowCountCall, hk, ho.number, Variable.column]

/-- A result is usable exactly as long as its model is open and nothing outdated it, and until then it
reads what its solve counted. -/
private theorem usable_later {w₀ : World} (hs : w₀.Sound) (ha : w₀.Able) (hal : w₀.Aligned)
    {o : Operation} (hfair : o.Fair) (hr : (w₀.event o).answer = .ok (.result r))
    {after : List Operation} (hafter : ∀ o' ∈ after, o'.Fair) :
    let w₁ := w₀.next o
    let w₂ := w₁.nextAll after
    (r.Usable w₂ ↔ w₂.Open r.model ∧ ¬ Event.Outdated r.model (w₁.events after)) ∧
      (r.Usable w₂ → ∃ model n q, w₀.Holds r.model model n q ∧
        r.ReadsAs w₂ n q.rowCount q.columnCount) := by
  intro w₁ w₂
  have hs₁ := World.sound_next hs o
  have hs₂ : w₂.Sound := World.sound_nextAll hs₁ after
  have hal₂ : w₂.Aligned := World.aligned_nextAll (World.aligned_next hal hs o) hs₁ after
  obtain ⟨-, model, n, q, model₁, q₁, hh, hh₁, hrevision, hcolumns, hrows⟩ :=
    World.held_of_result hs ha hr
  have husable := usable_iff_current hs₂ r
  -- the model is closed later, or it continues and its revision tells whether something outdated the result
  rcases World.continues_nextAll hs₁ (World.able_next ha hs hfair) hafter hh₁ with
    hgone | ⟨model₂, q₂, hh₂, hcontinues⟩
  · have hnot : ¬ r.Usable w₂ := by
      rw [husable]
      rintro ⟨model', hm, hf, -⟩
      exact hgone.not_open ⟨model', hm, hf⟩
    exact ⟨iff_of_false hnot fun h => hgone.not_open h.1, fun h => absurd h hnot⟩
  · have hiff : r.Usable w₂ ↔ ¬ Event.Outdated r.model (w₁.events after) := by
      rw [husable, current_of_holds hh₂, ← hrevision]
      exact hcontinues.revision_iff
    refine ⟨hiff.trans ⟨fun h => ⟨hh₂.open, h⟩, fun h => h.2⟩, fun h => ⟨model, n, q, hh, ?_⟩⟩
    obtain ⟨hcolumns₂, hrows₂⟩ := hcontinues.counts (hiff.mp h)
    rw [← hrows, ← hcolumns, ← hrows₂, ← hcolumns₂]
    exact readsAs_of_current hs₂ hal₂ hh₂ ((current_of_holds hh₂).mp (husable.mp h))

/-- **How long a result is valid.** In a session of fair operations, a result that a solve answered with is
usable exactly as long as its model is open and no variable or constraint was added to it and no solver was
started on it again. A result that is not usable never becomes usable again; a later result of the same
model outdates it; and what is read through it while it is usable is counted as before its own solve. -/
theorem usable_iff (before after : List Operation) (o : Operation)
    (hfair : ∀ o' ∈ before ++ o :: after, o'.Fair) {r : SolveResult}
    (hr : ((World.initial.nextAll before).event o).answer = .ok (.result r)) :
    let w₀ := World.initial.nextAll before
    let w₁ := w₀.next o
    let w₂ := w₁.nextAll after
    (r.Usable w₂ ↔ w₂.Open r.model ∧ ¬ Event.Outdated r.model (w₁.events after)) ∧
      (¬ r.Usable w₂ → ∀ later, (∀ o' ∈ later, o'.Fair) → ¬ r.Usable (w₂.nextAll later)) ∧
      (∀ between o' rest r', after = between ++ o' :: rest →
        ((w₁.nextAll between).event o').answer = .ok (.result r') → r'.model = r.model →
          ¬ r.Usable w₂) ∧
      (r.Usable w₂ → ∃ model n q, w₀.Holds r.model model n q ∧
        r.ReadsAs w₂ n q.rowCount q.columnCount) := by
  intro w₀ w₁ w₂
  have hbefore : ∀ o' ∈ before, o'.Fair := fun o' ho' => hfair o' (List.mem_append_left _ ho')
  have ho : o.Fair := hfair o (List.mem_append_right _ (List.mem_cons_self ..))
  have hafter : ∀ o' ∈ after, o'.Fair := fun o' ho' =>
    hfair o' (List.mem_append_right _ (List.mem_cons_of_mem _ ho'))
  have hs : w₀.Sound := World.sound_nextAll World.sound_initial before
  have ha : w₀.Able := World.able_nextAll World.able_initial World.sound_initial hbefore
  have hal : w₀.Aligned := World.aligned_nextAll World.aligned_initial World.sound_initial before
  have hs₁ : w₁.Sound := World.sound_next hs o
  have ha₁ : w₁.Able := World.able_next ha hs ho
  obtain ⟨hiff, hreads⟩ := usable_later hs ha hal ho hr hafter
  refine ⟨hiff, fun hnot later hlater husable => ?_, fun between o' rest r' hsplit hr' hmodel husable => ?_,
    hreads⟩
  · -- the later state is reached by one longer list of operations
    have hall : ∀ o' ∈ after ++ later, o'.Fair := fun o' ho' =>
      (List.mem_append.mp ho').elim (hafter o') (hlater o')
    have hiff' := (usable_later hs ha hal ho hr hall).1
    rw [World.nextAll_append, World.events_append] at hiff'
    obtain ⟨hopen, hfresh⟩ := hiff'.mp husable
    have hfresh₂ : ¬ Event.Outdated r.model (w₁.events after) := fun ⟨e, he, hout⟩ =>
      hfresh ⟨e, List.mem_append_left _ he, hout⟩
    refine hnot (hiff.mpr ⟨?_, hfresh₂⟩)
    obtain ⟨-, model, n, q, model₁, q₁, -, hh₁, -⟩ := World.held_of_result hs ha hr
    rcases World.continues_nextAll hs₁ ha₁ hafter hh₁ with hgone | ⟨model₂, q₂, hh₂, -⟩
    · exact absurd hopen (World.gone_nextAll hgone (World.sound_nextAll hs₁ after) later).not_open
    · exact hh₂.open
  · -- the solve in between is an event that outdates the result
    subst hsplit
    have hbetween : ∀ o' ∈ between, o'.Fair := fun o' ho' => hafter o' (List.mem_append_left _ ho')
    have hout := (World.held_of_result (World.sound_nextAll hs₁ between)
      (World.able_nextAll ha₁ hs₁ hbetween) hr').1
    refine (hiff.mp husable).2 ⟨_, ?_, hmodel ▸ hout⟩
    rw [World.events_append]
    exact List.mem_append_right _ (List.mem_cons_self ..)

/-- A result on lp_solve outlasts a change of direction, but not a new constraint. -/
theorem usable_until_constrained :
    let before : List Operation :=
      [.create "" (.text "minimize") [.engine (.named (.text "lpsolve"))],
        .addVariables 0 2 "" (.text "continuous") (.int 1) (.int 0) (.int 1)]
    let turned : List Operation := [.setDirection 0 (.text "maximize")]
    let constrained : List Operation := [.addConstraint 0 (.int 0) (.int 1) [.variable ⟨0, 0⟩] [.int 1]]
    let r : SolveResult := ⟨0, 2, .optimal, .simplex⟩
    let w₁ := (World.initial.nextAll before).next (.solve 0 none)
    (∀ o' ∈ before ++ .solve 0 none :: (turned ++ constrained), o'.Fair) ∧
      ((World.initial.nextAll before).event (.solve 0 none)).answer = .ok (.result r) ∧
      r.Usable (w₁.nextAll turned) ∧ ¬ r.Usable (w₁.nextAll (turned ++ constrained)) := by
  intro before turned constrained r w₁
  have hfair : ∀ o' ∈ before ++ .solve 0 none :: (turned ++ constrained), o'.Fair := by
    simp [before, turned, constrained, Operation.Fair]
  have hfair₁ : ∀ o' ∈ before ++ .solve 0 none :: turned, o'.Fair := by
    simp [before, turned, Operation.Fair]
  have hr : ((World.initial.nextAll before).event (.solve 0 none)).answer = .ok (.result r) :=
    World.eq_ok_of_toOption (by decide +kernel)
  refine ⟨hfair, hr, ?_, fun husable => ?_⟩
  · refine (usable_iff before turned (.solve 0 none) hfair₁ hr).1.mpr
      ⟨(World.open_iff _ _).mpr (by decide +kernel), ?_⟩
    simp [Event.Outdated, World.events, turned, World.event, Event.Outdates]
  · -- turning the sense leaves a result valid, a constraint does not
    have hadded : ((w₁.nextAll turned).event (.addConstraint 0 (.int 0) (.int 1)
        [.variable ⟨0, 0⟩] [.int 1])).answer = .ok .done :=
      World.eq_ok_of_toOption (by decide +kernel)
    have hout : ((w₁.nextAll turned).event (.addConstraint 0 (.int 0) (.int 1)
        [.variable ⟨0, 0⟩] [.int 1])).Outdates r.model := ⟨rfl, _, hadded⟩
    refine ((usable_iff before (turned ++ constrained) (.solve 0 none) hfair hr).1.mp husable).2
      ⟨_, ?_, hout⟩
    rw [World.events_append]
    exact List.mem_append_right _ (List.mem_cons_self ..)

end SolveResult

end LinearProgram
