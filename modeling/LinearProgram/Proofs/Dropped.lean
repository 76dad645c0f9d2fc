import LinearProgram.Proofs.Ahead
import LinearProgram.Proofs.Double
import LinearProgram.Proofs.Rejection

/-!
# Constraints without bounds

A constraint that is bounded on neither side allows everything, and lp_solve keeps no row for it. The model is not
quite what it was before the call, though: it counts a change. Nothing that is done from then on shows that count,
but for the results of the model, which are compared with it. Those from after the call are dated one change later
than they would be without it, and those from before it are lost.
-/

namespace LinearProgram

open LinearProgram.Action

/-! ## §1 Dropping a constraint -/

namespace Bound

/-- Neither number is a bound: both are infinite, of whichever sign. -/
def Absent (lower upper : Number) : Prop :=
  ∃ l u, lower.toDouble = .ok l ∧ upper.toDouble = .ok u ∧ l.isInf = true ∧ u.isInf = true

/-- Where both bounds are absent, the bound is free. -/
theorem encodeNumbers_of_absent {lower upper : Number} (h : Absent lower upper) :
    encodeNumbers lower upper = .ok ⟨.free, 0, 0⟩ := by
  obtain ⟨l, u, hl, hu, hlower, hupper⟩ := h
  unfold encodeNumbers
  rw [hl, hu]
  exact encode_of_isInf hlower hupper

end Bound

/-- lp_solve gets no row for a constraint without bounds. -/
theorem Engine.on_addRow_of_free {e : Engine} (hk : e.kind = .lpsolve) {b : Bound} (hb : b.kind = .free) (w : World) :
    (e.addRow b).on w = (.ok [], w) := by
  unfold addRow
  rw [if_neg (by simp [hb]), if_pos (by simp [hb, hk, EngineKind.storesFreeRows])]
  rfl

namespace Model

variable {w : World} {m : ModelId} {model : Model}

/-- Variables of the model pass the check. -/
theorem on_checkVariables_of_own {count : Nat} {vars : List Variable}
    (h : ∀ v ∈ vars, v.model = m ∧ 0 ≤ v.index ∧ v.index < count) (w : World) :
    (checkVariables m count (vars.map .variable)).on w = (.ok vars, w) := by
  -- each variable passes the check, and none of them is formatted for a message
  induction vars with
  | nil => rfl
  | cons v rest ih =>
    obtain ⟨hv, hrest⟩ := List.forall_mem_cons.mp h
    rw [List.map_cons]
    unfold checkVariables
    rw [if_pos hv, on_bind_of_ok (ih hrest)]
    rfl

/-- **A constraint without bounds on lp_solve**: the call answers, makes no native call, and leaves the model one
change older, with a record. -/
theorem on_addConstraint_of_absent (hm : w.model? m = some model) (hf : model.freed = false)
    (hk : model.engine.kind = .lpsolve) {vars : List Variable}
    (hvars : ∀ v ∈ vars, v.model = m ∧ 0 ≤ v.index ∧ v.index < model.kinds.length)
    {coefficients : List Number} (hlength : vars.length = coefficients.length) {cs : List Float}
    (hcs : coefficients.mapM Number.toDouble = .ok cs) {lower upper : Number} (hb : Bound.Absent lower upper) :
    ∃ l, (addConstraint m lower upper (vars.map .variable) coefficients).on w =
      (.ok (), { w.modifyModel m renewed with writings := l }) := by
  have hlengths : checkLengths (vars.map .variable) coefficients = .ok () := by
    unfold checkLengths
    rw [if_pos (by rw [List.length_map, hlength])]
  -- all checks are passed, and there are no rows to enter the terms in
  obtain ⟨-, hon⟩ := on_addConstraint_of_checked hm hf hlengths (Bound.encodeNumbers_of_absent hb) hcs
    (on_checkVariables_of_own hvars w)
  obtain ⟨l, hlast⟩ := on_enterRows hm ((vars.map Variable.column).zip cs) []
  rw [on_bind_of_ok (Engine.on_addRow_of_free hk rfl w), hlast] at hon
  exact ⟨l, hon⟩

end Model

/-! ## §2 One change ahead -/

/-- Seen from itself, a model is what it is with another revision, if its problem and its variables are its own. -/
private theorem Model.alike_beside {m a : ModelId} {n : Nat} {x : Model}
    (hproblem : x.freed = false → (x.engine.number = n ↔ a = m)) (hvars : ∀ v ∈ x.vars, v.model = a) :
    Model.Alike (.beside m n a) { x with revision := x.revision + if a = m then 1 else 0 } x where
  engine hf := ⟨rfl, Pairing.problems_beside.mpr ⟨rfl, hproblem hf⟩, rfl⟩
  freed := rfl
  parameters := rfl
  kinds := rfl
  vars := List.forall₂_same.mpr fun v hv => Variable.alike_beside (by rw [hvars v hv])
  names := rfl
  entries := rfl
  constraintCount := rfl
  revision := by rw [Pairing.shift_beside]

/-- An open model has the number of its problem, which no other model has. -/
private theorem World.Sound.number_of_holds {w : World} (hs : w.Sound) {m : ModelId} {model : Model}
    (hm : w.model? m = some model) (hf : model.freed = false) {n : Nat} (hn : model.engine.problem = some n) :
    ∃ q, w.Holds m model.core n q.core ∧ model.engine.Owns w.native n q := by
  obtain ⟨i, q, hholds, howns⟩ := hs.holds_of_model? hm hf
  obtain rfl : i = n := Option.some.inj (howns.problem.symm.trans hn)
  exact ⟨q, hholds, howns⟩

/-- Every model is like itself beside one change more of model `m`, since the variables of a model name it. -/
private theorem World.Sound.alike_beside {w : World} (hs : w.Sound) (ho : w.Owned) {m : ModelId}
    {model : Model} (hm : w.model? m = some model) (hf : model.freed = false) {n : Nat}
    (hn : model.engine.problem = some n) {a : ModelId} {x : Model} (hx : w.model? a = some x) :
    Model.Alike (.beside m n a) { x with revision := x.revision + if a = m then 1 else 0 } x := by
  obtain ⟨q, hholds, -⟩ := hs.number_of_holds hm hf hn
  have hown : ∀ v ∈ x.vars, v.model = a := fun v hv =>
    (ho a x.vars (by rw [World.modelCore?_of_model? hx]; rfl) v hv).1
  refine Model.alike_beside (fun hxf => ?_) hown
  obtain ⟨j, r, hholds', howns'⟩ := hs.holds_of_model? hx hxf
  rw [howns'.number]
  -- one problem has one model: whoever holds problem `n` is model `m`
  refine ⟨fun hj => hs.apart (hj ▸ hholds') hholds, fun ha => ?_⟩
  subst ha
  exact (hholds'.unique hholds).2.1

/-- A model that only counts one change more is ahead. -/
theorem World.Sound.leads_renewed {w : World} (hs : w.Sound) (ho : w.Owned) {m : ModelId} {model : Model}
    (hm : w.model? m = some model) (hf : model.freed = false) {n : Nat} (hn : model.engine.problem = some n)
    (l : Writings) : World.Leads m n { w.modifyModel m Model.renewed with writings := l } w where
  clock := rfl
  contexts := rfl
  script := rfl
  surroundings := rfl
  library := rfl
  allowance := rfl
  registry := rfl
  models a := by
    show Option.Rel _ ((w.models.modify m Model.renewed)[a]?) (w.models[a]?)
    rw [Array.getElem?_modify]
    cases hx : w.models[a]? with
    | none => split <;> exact .none
    | some x =>
      have hself := hs.alike_beside ho hm hf hn hx
      split
      · -- the model itself, one revision ahead
        next hma =>
        rw [if_pos hma.symm] at hself
        exact .some hself
      · next hma =>
        rw [if_neg (Ne.symm hma)] at hself
        exact .some hself
  owners a := by
    show ((w.models.modify m Model.renewed)[a]?).map Model.owner = (w.models[a]?).map Model.owner
    rw [Array.getElem?_modify]
    split
    · cases w.models[a]? <;> rfl
    · rfl
  modelCount := by simp [World.modifyModel]
  problems := ⟨rfl, fun _ => rfl⟩
  modelThere := by
    show m < (w.models.modify m _).size
    rw [Array.size_modify]
    exact World.lt_size_of_model? hm
  problemThere :=
    (hs.problem_of_number hm hf (show (model.engine.problem.getD 0) = n by rw [hn]; rfl)).2
  -- an open model never holds the null pointer
  number := by
    obtain ⟨q, -, howns⟩ := hs.number_of_holds hm hf hn
    rintro rfl
    cases howns.found

/-! ## §3 States after shortages -/

/-- Also when lp_solve has run out of memory, the variables of a model are its own. -/
theorem World.Reachable.owned {w : World} (h : w.Reachable) : w.Owned := by
  induction h with
  | initial => exact owned_initial
  | next h o ih => exact owned_nextAll ih h.sound [o]
  | @limited w m model o h hm hf hk ho columns rows ih =>
    obtain ⟨n, q, -, howns⟩ := h.sound.holds_of_model? hm hf
    obtain ⟨q, rfl⟩ := Native.Problem.eq_lpsolve_of_kind? (howns.kind.trans (congrArg some hk))
    have hsettled := settled_limited h.sound.compliant hm hf hk howns ho columns rows
    -- an addition that went through has edited one model, and one that failed has left the models as they were
    cases ha : (o.run.on (w.allowing columns rows)).1 with
    | ok a =>
      rw [ha] at hsettled
      obtain ⟨f, cs, -, hvars, hedits⟩ := hsettled
      exact ih.edits hedits hvars
    | error fault =>
      rw [ha] at hsettled
      obtain ⟨k, left, -, -, habandoned⟩ := hsettled
      exact ih.of_models fun k => by rw [modelCore?, model?, habandoned.models]; rfl

/-- A result from before the latest change of its model is lost for good. -/
theorem SolveResult.not_usable_of_lt {w : World} (hs : w.Sound) {r : SolveResult} {model : Model}
    (hm : w.model? r.model = some model) (hf : model.freed = false) (hlt : r.revision < model.revision)
    (later : List Operation) : ¬ r.Usable (w.nextAll later) := by
  obtain ⟨n, q, hh, -⟩ := hs.holds_of_model? hm hf
  rw [usable_iff_current (World.sound_nextAll hs later)]
  rintro ⟨model', hm', hf', hr'⟩
  -- the model is freed meanwhile, or its revision has only grown
  rcases World.remains_nextAll hs hh later with hgone | ⟨model₁, q₁, hh₁, hremains⟩
  · exact hgone.not_open ⟨model', hm', hf'⟩
  · obtain ⟨model₂, -, hm₂, -, -, rfl, -⟩ := hh₁.owns
    cases hm'.symm.trans hm₂
    have hle : model.revision ≤ model'.revision := hremains.revision
    omega

/-! ## §4 Constraints without bounds -/

namespace World

/-- **What a constraint without bounds does on lp_solve.** In every state, even after shortages of memory, the
call answers and reaches no library; all that it changes is that its model counts one change more, besides a
record. So whatever is done from then on gives back the same and makes the same calls as without it, if the
results of the model are those that are dated one change later. The results of the model that were usable before
the call are lost for good. Only after a shortage the call can be refused, for a variable whose kind the model
does not have; then it leaves no trace. -/
theorem unbounded_constraint_ages {w : World} (h : w.Reachable) {m : ModelId} {model : Model}
    (hm : w.model? m = some model) (hf : model.freed = false) (hk : model.engine.kind = .lpsolve)
    {vars : List Variable} (hvars : ∀ v ∈ vars, v ∈ model.vars) {coefficients : List Number}
    (hlength : vars.length = coefficients.length) {cs : List Float}
    (hcs : coefficients.mapM Number.toDouble = .ok cs) {lower upper : Number} (hb : Bound.Absent lower upper) :
    let o : Operation := .addConstraint m lower upper (vars.map .variable) coefficients
    let w₁ := w.next o
    (∃ v ∈ vars, v.Strays w) ∧ Fails w o.run ∨
      w.exchange o = (.ok (.answer .done), []) ∧
        (∃ l, w₁ = { w.modifyModel m Model.renewed with writings := l }) ∧
        (∀ later : List Operation,
          w₁.exchanges (later.map (·.redated m)) = (w.exchanges later).map (redatedExchange m)) ∧
        ∀ r : SolveResult, r.model = m → r.Usable w → ∀ later, ¬ r.Usable (w₁.nextAll later) := by
  intro o w₁
  have hs : w.Sound := h.sound
  have hown (v : Variable) (hv : v ∈ vars) : v.model = m ∧ 0 ≤ v.index :=
    h.owned m model.vars (by rw [modelCore?_of_model? hm]; rfl) v (hvars v hv)
  -- only a shortage in the middle of an addition leaves a variable without its kind
  by_cases hplaces : ∀ v ∈ vars, v.index < model.kinds.length
  · right
    obtain ⟨l, hon⟩ := Model.on_addConstraint_of_absent hm hf hk
      (fun v hv => ⟨(hown v hv).1, (hown v hv).2, hplaces v hv⟩) hlength hcs hb
    have hrun : o.run.on w = (.ok .done, { w.modifyModel m Model.renewed with writings := l }) := by
      show ((fun _ => Answer.done) <$> Model.addConstraint m lower upper (vars.map .variable) coefficients).on w = _
      rw [on_map, hon]
      rfl
    have hnext : w₁ = { w.modifyModel m Model.renewed with writings := l } := congrArg Prod.snd hrun
    have hresponse : (o.respond.on w).1 = .ok (.answer .done) := by
      show ((Response.answer <$> o.run).on w).1 = _
      rw [on_map, hrun]
      rfl
    have hcalls : w.callsSince w₁ = [] := callsSince_of_calls [] (by rw [hnext]; simp [modifyModel])
    refine ⟨Prod.ext hresponse hcalls, ⟨l, hnext⟩, fun later => ?_, fun r hr husable later => ?_⟩
    · obtain ⟨n, q, -, howns⟩ := hs.holds_of_model? hm hf
      have hleads : w₁.Leads m n w := hnext ▸ hs.leads_renewed h.owned hm hf howns.problem l
      exact hleads.exchanges later
    · -- the result stands for the revision that the model had before the call
      obtain ⟨model', hm', -, hrevision⟩ := (SolveResult.usable_iff_current hs r).mp husable
      subst hr
      cases hm.symm.trans hm'
      have hm₁ : w₁.model? r.model = some model.renewed := by
        rw [hnext]
        show (w.models.modify r.model Model.renewed)[r.model]? = _
        rw [Array.getElem?_modify, if_pos rfl, show w.models[r.model]? = some model from hm]
        rfl
      exact SolveResult.not_usable_of_lt (sound_next hs o) hm₁ hf
        (hrevision ▸ Nat.lt_succ_self model.revision) later
  · left
    obtain ⟨v, hv, hlt⟩ : ∃ v ∈ vars, ¬ v.index < model.kinds.length := by simpa using hplaces
    obtain ⟨hmodel, hindex⟩ := hown v hv
    have hstray : v.Strays w := by
      refine ⟨model, hmodel ▸ hm, ?_⟩
      rw [place?, if_pos hindex, if_neg (by omega)]
    refine ⟨⟨v, hv, hstray⟩, ?_⟩
    have hbad : ∃ a ∈ vars.map VariableArgument.variable, ¬ a.IsOf m model.kinds.length :=
      ⟨.variable v, List.mem_map_of_mem hv, fun hof => hlt hof.2.2⟩
    have hdecides := (Model.addConstraint_decides hs m lower upper (vars.map .variable) coefficients).map
      fun _ => Answer.done
    rcases hdecides with ⟨-, hfails⟩ | ⟨hnot, -⟩
    · exact hfails
    · exact absurd (.inr (.inr (.inr (.inr ⟨model, hm, hf, hbad⟩)))) hnot

/-- A solved model with one variable, and a constraint without bounds on it. -/
theorem unbounded_constraint_after_solve :
    let w := initial.nextAll [.create "diet" (.text "minimize") [.engine (.named (.text "lpsolve"))],
      .addVariable 0 "bread" (.text "continuous") .one .zero .one, .solve 0 none]
    let o : Operation :=
      .addConstraint 0 (.float Double.negInfinity) (.float Double.infinity) [.variable ⟨0, 0⟩] [.one]
    let later : List Operation := [.inquire (.matrix 0), .solve 0 none, .free 0, .create "menu" (.text "maximize") []]
    let r : SolveResult := ⟨0, 2, .optimal, .simplex⟩
    w.exchange o = (.ok (.answer .done), []) ∧
      (w.next o).exchanges (later.map (·.redated 0)) = (w.exchanges later).map (redatedExchange 0) ∧
      r.Usable w ∧ ¬ r.Usable (w.next o) := by
  intro w o later r
  have hreachable : w.Reachable := Reachable.initial.nextAll _
  obtain ⟨model, hm, hmodel⟩ := Option.map_eq_some_iff.mp
    (show (w.model? 0).map (fun model => (model.freed, model.engine.kind, model.vars, model.revision)) =
      some (false, .lpsolve, [⟨0, 0⟩], 2) by decide +kernel)
  obtain ⟨hf, hkind, hvars, hrevision⟩ : model.freed = false ∧ model.engine.kind = .lpsolve ∧
      model.vars = [⟨0, 0⟩] ∧ model.revision = 2 := by
    simpa using hmodel
  have habsent : Bound.Absent (.float Double.negInfinity) (.float Double.infinity) :=
    ⟨_, _, rfl, rfl, by decide +kernel, by decide +kernel⟩
  have hcs : [Number.one].mapM Number.toDouble = .ok [(1 : Float)] := eq_ok_of_toOption (by decide +kernel)
  have hown : ∀ v ∈ [(⟨0, 0⟩ : Variable)], v ∈ model.vars := fun v hv => hvars ▸ hv
  have husable : r.Usable w := (SolveResult.usable_iff_current hreachable.sound r).mpr ⟨model, hm, hf, hrevision⟩
  -- the variable belongs to the model, so it does not stray
  rcases unbounded_constraint_ages hreachable hm hf hkind hown rfl hcs habsent with
    ⟨⟨v, hv, hstray⟩, -⟩ | ⟨hexchange, -, hlater, hlost⟩
  · obtain rfl := List.mem_singleton.mp hv
    exact absurd hstray (Variable.not_strays hm hf (hown _ hv))
  · exact ⟨hexchange, hlater later, husable, hlost r rfl husable []⟩

/-- A constraint without bounds is not without effect: the result that was there can be read before the call,
and cannot be read after it. -/
theorem result_lost_to_unbounded_constraint :
    let w₀ := initial.nextAll [.create "diet" (.text "minimize") [.engine (.named (.text "lpsolve"))],
      .addVariable 0 "bread" (.text "continuous") .one .zero .one]
    let w := w₀.next (.solve 0 none)
    let o : Operation :=
      .addConstraint 0 (.float Double.negInfinity) (.float Double.infinity) [.variable ⟨0, 0⟩] [.one]
    let r : SolveResult := ⟨0, 2, .optimal, .simplex⟩
    (w₀.event (.solve 0 none)).answer = .ok (.result r) ∧ (w.event o).answer = .ok .done ∧
      (r.isValid.on w).1 = .ok true ∧ (r.objective.on w).1 = .ok 0 ∧
      (r.isValid.on (w.next o)).1 = .ok false ∧ (r.objective.on (w.next o)).1.toOption = none ∧
      ¬ ∀ later, (w.next o).exchanges later = w.exchanges later := by
  intro w₀ w o r
  have hvalid : (r.isValid.on w).1 = .ok true := eq_ok_of_toOption (by decide +kernel)
  have hstale : (r.isValid.on (w.next o)).1 = .ok false := eq_ok_of_toOption (by decide +kernel)
  refine ⟨eq_ok_of_toOption (by decide +kernel), eq_ok_of_toOption (by decide +kernel), hvalid,
    eq_ok_of_toOption (by decide +kernel), hstale, by decide +kernel, fun hsame => ?_⟩
  -- asking whether the result is valid already tells the two worlds apart
  have hresponse {w' : World} {b : Bool} (hb : (r.isValid.on w').1 = .ok b) :
      ((Operation.inquire (.resultValid r)).respond.on w').1 = .ok (.reply (.truth b)) := by
    show ((Response.reply <$> Reply.truth <$> r.isValid).on w').1 = _
    rw [on_map, on_map, hb]
    rfl
  have hfirst := congrArg (List.map Prod.fst) (hsame [.inquire (.resultValid r)])
  simp only [exchanges, exchange, List.map_cons, List.map_nil, hresponse hvalid, hresponse hstale] at hfirst
  cases hfirst

end World

end LinearProgram
