import LinearProgram.Proofs.Performed

/-!
# Where a result on GLPK comes from

When a solve on GLPK answers with a result, its values are read with the functions of the simplex method
or with those of the integer search, as the method of the result says. `SolveResult.Genuine` says that
these functions show what the result claims: the method was run by this solve, the values are those that
it left, and the status of that method is the status of the result.

`SolveResult.genuine_iff` says when this is so. There is one way in which it fails: without the presolver,
the search is to start from an optimal solution of the relaxation, but the outcome of a relaxation that
ended with a feasible solution only is handed on as if the search had found it. The search was never
started then, and this happens exactly when the relaxation ends that way.
-/

namespace LinearProgram

open LinearProgram.Action

/-! ## §1 Tables -/

namespace Glpk

/-- A native status stands for a solution of the status `s`. -/
def Shows (status : Int) (s : SolveStatus) : Prop :=
  (status = 5 ∧ s = .optimal) ∨ (status = 2 ∧ s = .suboptimal)

theorem Shows.optimal_iff {status : Int} {s : SolveStatus} (h : Shows status s) :
    s = .optimal ↔ status = 5 := by
  rcases h with ⟨rfl, rfl⟩ | ⟨rfl, rfl⟩ <;> simp

theorem report_eq_known {table : Int → Option Outcome} {code : Int} {o : Outcome} :
    report table code = .known o ↔ table code = some o := by
  unfold report
  cases table code <;> simp

theorem simplexFailure?_ne_solved (code : Int) (s : SolveStatus) :
    simplexFailure? code ≠ some (.solved s) := by
  unfold simplexFailure?
  split <;> simp

theorem simplexOutcome?_solved {status : Int} {s : SolveStatus}
    (h : simplexOutcome? status = some (.solved s)) : Shows status s := by
  unfold simplexOutcome? at h
  split at h <;> simp_all [Shows]

theorem searchOutcome?_solved {status : Int} {s : SolveStatus}
    (h : searchOutcome? status = some (.solved s)) : Shows status s := by
  unfold searchOutcome? at h
  split at h <;> simp_all [Shows]

theorem searchFailure?_ne_solved (code : Int) (s : SolveStatus) :
    searchFailure? code ≠ some (.solved s) := by
  unfold searchFailure?
  split <;> simp

/-- A run of the simplex method that counts as solved returned 0, and its status shows the solution. -/
theorem simplexReport_solved {code status : Int} {s : SolveStatus}
    (h : simplexReport code status = .known (.solved s)) : code = 0 ∧ Shows status s := by
  unfold simplexReport at h
  split at h
  · exact absurd (report_eq_known.mp h) (simplexFailure?_ne_solved code s)
  · next hcode => exact ⟨by simpa using hcode, simplexOutcome?_solved (report_eq_known.mp h)⟩

/-- The status of a search that counts as solved shows the solution, whatever code it returned. -/
theorem searchReport_solved {code status : Int} {s : SolveStatus}
    (h : searchReport code status = .known (.solved s)) : Shows status s := by
  unfold searchReport at h
  split at h
  · exact searchOutcome?_solved (report_eq_known.mp h)
  · split at h
    · -- a search that was stopped counts only with a feasible solution
      by_cases hstatus : status = 2
      · simp_all [Shows]
      · simp [hstatus] at h
    · exact absurd (report_eq_known.mp h) (searchFailure?_ne_solved code s)

end Glpk

/-! ## §2 Runs and what they leave -/

/-- The call starts a method on problem `n`. -/
def Native.Call.Starts (method : Method) (n : Nat) : Native.Call → Prop
  | glpk (.simplex p ..) => method = .simplex ∧ p = n
  | glpk (.integerSearch p ..) => method = .branchCut ∧ p = n
  | _ => False

/-- Whether a call starts an integer search. -/
def Native.Call.isSearch : Native.Call → Bool
  | glpk (.integerSearch ..) => true
  | _ => false

theorem Native.Call.isSearch_of_isEntry {c : Native.Call} (h : c.isEntry = false) :
    c.isSearch = false := by
  rcases c with c | c <;> cases c <;> first | rfl | cases h

theorem Native.Call.Starts.isSearch {n : Nat} {c : Native.Call} (h : c.Starts .branchCut n) :
    c.isSearch = true := by
  rcases c with c | c <;> cases c <;> first | rfl | exact Method.noConfusion h.1 | exact h.elim

/-- The status that belongs to a method, as the accessors of results choose it. -/
def Glpk.Problem.statusOf (q : Problem) (method : Method) : Int :=
  if method = .branchCut then q.integerStatus else q.status

/-- The status that a script has for a method. -/
def Script.statusOf (s : Script) (method : Method) : Int :=
  if method = .branchCut then s.integerStatus else s.status

namespace Glpk

variable {w w' w₁ w₂ : World} {n : Nat} {method : Method} {s : SolveStatus}

/-- From `w` to `w'`, a method was run on problem `n`. What stands there now is what the run left, and its
status shows a solution of status `s`. -/
structure SolvedBy (method : Method) (w w' : World) (n : Nat) (s : SolveStatus) : Prop where
  started : ∃ c ∈ w.callsSince w', c.Starts method n
  code : method = .simplex → w.script.simplexCode = 0
  left : ∃ q, w'.native.problem? n = some (.glpk q) ∧ w.script.values = .ok q.values ∧
    q.statusOf method = w.script.statusOf method
  status : Shows (w.script.statusOf method) s

/-- No integer search was started. -/
def Unsearched (w w' : World) : Prop := ∀ c ∈ w.callsSince w', c.isSearch = false

theorem SolvedBy.not_unsearched (h : SolvedBy .branchCut w w' n s) : ¬ Unsearched w w' := by
  obtain ⟨c, hc, hstarts⟩ := h.started
  exact fun hno => Bool.noConfusion ((hno c hc).symm.trans hstarts.isSearch)

/-- From `w` to `w'`, the script stays, and a problem of GLPK stands at `n`. -/
structure Persists (w w' : World) (n : Nat) : Prop where
  compliant : w'.Compliant
  script : w'.script = w.script
  extends_ : w.Extends w'
  problem : ∃ q, w'.native.problem? n = some (.glpk q)

theorem Persists.trans (h₁ : Persists w w₁ n) (h₂ : Persists w₁ w₂ n) : Persists w w₂ n :=
  ⟨h₂.compliant, h₂.script.trans h₁.script, h₁.extends_.trans h₂.extends_, h₂.problem⟩

/-- What comes before the run with the same script, and after it without a change of the problems, does
not matter. -/
theorem SolvedBy.within (h : SolvedBy method w₁ w₂ n s) (hbefore : w.Extends w₁)
    (hran : w₁.Extends w₂) (hafter : w₂.Extends w') (hscript : w₁.script = w.script)
    (hproblem : w'.native.problem? n = w₂.native.problem? n) : SolvedBy method w w' n s := by
  obtain ⟨⟨c, hc, hstarts⟩, hcode, hleft, hstatus⟩ := h
  rw [hscript] at hcode hleft hstatus
  refine ⟨⟨c, ?_, hstarts⟩, hcode, by rw [hproblem]; exact hleft, hstatus⟩
  rw [World.callsSince_trans hbefore (hran.trans hafter), World.callsSince_trans hran hafter]
  exact List.mem_append_right _ (List.mem_append_left _ hc)

/-- If neither of two steps searched, both together did not. -/
theorem Unsearched.trans (h₁ : Unsearched w w₁) (h₂ : Unsearched w₁ w₂) (hx₁ : w.Extends w₁)
    (hx₂ : w₁.Extends w₂) : Unsearched w w₂ := by
  intro c hc
  rw [World.callsSince_trans hx₁ hx₂] at hc
  exact (List.mem_append.mp hc).elim (h₁ c) (h₂ c)

theorem unsearched_of_idle (h : ∀ c ∈ w.callsSince w', c.isEntry = false) : Unsearched w w' :=
  fun c hc => Native.Call.isSearch_of_isEntry (h c hc)

theorem glpk?_of_problem? {s : Native.Store} {q : Problem} (h : s.problem? n = some (.glpk q)) :
    s.glpk? n = some q := by
  unfold Native.Store.glpk?
  rw [h]

/-- Where cores stay, a problem of GLPK stays one. -/
private theorem problem?_of_core {s s' : Native.Store} (h : s'.core? n = s.core? n) {q : Problem}
    (hq : s.problem? n = some (.glpk q)) : ∃ q', s'.problem? n = some (.glpk q') := by
  rw [Native.Store.core?, Native.Store.core?_of_problem? hq] at h
  obtain ⟨p, hp, hcore⟩ := Option.map_eq_some_iff.mp h
  cases p with
  | glpk q' => exact ⟨q', hp⟩
  | lpsolve q' => cases hcore
  | deleted => cases hcore

/-- When a run on a problem of GLPK returns, its values are left, and of its calls only the first starts a
solver. -/
theorem left_of_conduct (hw : w.Compliant) {r : NativeRun} (hr : r.Proper) (hn : r.problem = n) {q : Problem}
    (hq : w.native.problem? n = some (.glpk q)) (left : Script → RunValues → Problem → Problem)
    (hleft : ∀ s v q, r.leave s v (.glpk q) = .glpk (left s v q)) {x : Int}
    (h : (conduct r).on w = (.ok x, w')) :
    (∃ stopped, x = r.code w.script stopped) ∧ Persists w w' n ∧
      (∃ q' v, w.script.values = .ok v ∧
        w'.native.problem? n = some (.glpk (left w.script v q'))) ∧
      ∃ rest, w.callsSince w' = r.start :: rest ∧ ∀ c' ∈ rest, c'.isEntry = false := by
  subst hn
  have hends := on_conduct hw r
  rw [h] at hends
  obtain ⟨w₁, hwait, ⟨stopped, v, hv, hend⟩ | ⟨fault, hend⟩⟩ := hends
  · -- the run answered, so it ended and left its outcome in the problem
    cases hend
    have hrun := (Running.after hw hr.quiet).trans hwait.toRunning
    obtain ⟨q₁, hq₁⟩ := problem?_of_core (hrun.cores r.problem) hq
    -- the outcome stands in the problem of the run
    have hproblem : (w₁.native.modify r.problem (r.leave w.script v)).problem? r.problem =
        some (.glpk (left w.script v q₁)) := by
      rw [Native.Store.problem?_modify, if_pos rfl, hq₁, Option.map_some, hleft]
    refine ⟨⟨stopped, rfl⟩, ⟨hrun.compliant, hrun.script, hrun.extends_, _, hproblem⟩,
      ⟨q₁, v, hv, hproblem⟩, (w.after r.start).callsSince w₁, ?_, hwait.idle⟩
    show w.callsSince w₁ = _
    rw [World.callsSince_trans (World.Extends.after w r.start) hwait.extends_, World.callsSince_after]
    rfl
  · cases hend

/-! ## §3 Reports of GLPK -/

variable {parameters : Parameters} {q : Problem}

/-- If the simplex method counts as solved, it was run and shows the solution, and no search was
started. -/
theorem simplex_solved (hw : w.Compliant) (hq : w.native.problem? n = some (.glpk q)) {presolve : Bool}
    (h : (simplex n parameters presolve).on w = (.ok (.known (.solved s)), w')) :
    SolvedBy .simplex w w' n s ∧ Unsearched w w' ∧ Persists w w' n := by
  unfold simplex at h
  obtain ⟨verbose, -, h⟩ := on_lift_bind_eq_ok.mp h
  obtain ⟨code, w₁, hrun, h⟩ := on_bind_eq_ok.mp h
  obtain ⟨⟨stopped, hstopped⟩, hpersists, ⟨q₁, v, hv, hq₁⟩, rest, hcalls, hrest⟩ :=
    left_of_conduct (n := n) hw (NativeRun.proper_simplex ..) rfl hq
      (fun s v q => { q with status := s.status, values := v }) (fun _ _ _ => rfl) hrun
  obtain rfl : code = w.script.simplexCode := hstopped
  have hstarts : ∃ c ∈ w.callsSince w₁, c.Starts .simplex n := by
    refine ⟨.glpk (.simplex n (messageLevel verbose) (flag presolve)), ?_, rfl, rfl⟩
    rw [hcalls]
    exact List.mem_cons_self ..
  have hunsearched : Unsearched w w₁ := by
    intro c hc
    rw [hcalls] at hc
    rcases List.mem_cons.mp hc with rfl | hc
    · rfl
    · exact Native.Call.isSearch_of_isEntry (hrest c hc)
  by_cases hcode : w.script.simplexCode ≠ 0
  · rw [if_pos hcode] at h
    exact absurd (simplexReport_solved (on_pure_eq_ok.mp h).1).1 hcode
  · -- the status is read, and it is the one that the run has just left
    rw [if_neg hcode, on_bind_of_ok (on_ask (hpersists.compliant.grants _) _ _),
      glpk?_of_problem? hq₁, on_pure_eq_ok] at h
    obtain ⟨hreport, rfl⟩ := h
    obtain ⟨hzero, hshows⟩ := simplexReport_solved hreport
    have hidle := Idling.after (c := .glpk (.read n .status)) hpersists.compliant rfl rfl
    have hsolved : SolvedBy .simplex w w₁ n s :=
      ⟨hstarts, fun _ => hzero, ⟨_, hq₁, hv, rfl⟩, hshows⟩
    exact ⟨hsolved.within (World.Extends.refl w) hpersists.extends_ hidle.extends_ rfl rfl,
      hunsearched.trans (unsearched_of_idle hidle.idle) hpersists.extends_ hidle.extends_,
      hpersists.trans ⟨hidle.compliant, hidle.script, hidle.extends_, _, hq₁⟩⟩

/-- If the search counts as solved, it was run and shows the solution. -/
theorem search_solved (hw : w.Compliant) (hq : w.native.problem? n = some (.glpk q))
    {abort : Option Handle}
    (h : (search n parameters abort).on w = (.ok (.known (.solved s)), w')) :
    SolvedBy .branchCut w w' n s ∧ Persists w w' n := by
  unfold search at h
  obtain ⟨verbose, -, h⟩ := on_lift_bind_eq_ok.mp h
  obtain ⟨presolve, -, h⟩ := on_lift_bind_eq_ok.mp h
  obtain ⟨code, w₁, hrun, h⟩ := on_bind_eq_ok.mp h
  obtain ⟨-, hpersists, ⟨q₁, v, hv, hq₁⟩, rest, hcalls, -⟩ :=
    left_of_conduct (n := n) hw (NativeRun.proper_integerSearch ..) rfl hq
      (fun s v q => { q with integerStatus := s.integerStatus, values := v }) (fun _ _ _ => rfl) hrun
  rw [on_bind_of_ok (on_ask (hpersists.compliant.grants _) _ _), glpk?_of_problem? hq₁,
    on_pure_eq_ok] at h
  obtain ⟨hreport, rfl⟩ := h
  -- after the run the engine is only asked for a status
  have hidle := Idling.after (c := .glpk (.read n .integerStatus)) hpersists.compliant rfl rfl
  have hsolved : SolvedBy .branchCut w w₁ n s := by
    refine ⟨⟨.glpk (.integerSearch n (messageLevel verbose) (flag presolve.isTrue) abort), ?_, rfl, rfl⟩,
      nofun, ⟨_, hq₁, hv, rfl⟩, searchReport_solved hreport⟩
    rw [hcalls]
    exact List.mem_cons_self ..
  exact ⟨hsolved.within (World.Extends.refl w) hpersists.extends_ hidle.extends_ rfl rfl,
    hpersists.trans ⟨hidle.compliant, hidle.script, hidle.extends_, _, hq₁⟩⟩

/-- The outcome of the relaxation takes the place of that of the search: the presolver is off, and the
relaxation has a feasible solution that is not known to be optimal. -/
def Relaxed (method : Method) (parameters : Parameters) (script : Script) : Prop :=
  method = .branchCut ∧ (∃ d, parameters.presolve = .ok d ∧ d.isTrue = false) ∧ script.status = 2

/-- How a solve came to a solution: by its own method, or else by the relaxation alone. -/
def Derived (method : Method) (parameters : Parameters) (w w' : World) (n : Nat) (s : SolveStatus) :
    Prop :=
  (SolvedBy method w w' n s ∧ ¬ Relaxed method parameters w.script) ∨
    (s = .suboptimal ∧ Unsearched w w' ∧ Relaxed method parameters w.script)

/-- **A solved outcome of branch-and-cut** is derived from the search, or from the relaxation before it. -/
theorem branchCut_solved (hw : w.Compliant) (hq : w.native.problem? n = some (.glpk q))
    {abort : Option Handle}
    (h : (branchCut n parameters abort).on w = (.ok (.known (.solved s)), w')) :
    Derived .branchCut parameters w w' n s ∧ Persists w w' n := by
  unfold branchCut at h
  obtain ⟨presolve, hpresolve, h⟩ := on_lift_bind_eq_ok.mp h
  by_cases hp : presolve.isTrue = true
  · rw [if_pos hp] at h
    obtain ⟨hsolved, hpersists⟩ := search_solved hw hq h
    refine ⟨Or.inl ⟨hsolved, ?_⟩, hpersists⟩
    rintro ⟨-, ⟨d, hd, hoff⟩, -⟩
    cases hpresolve.symm.trans hd
    exact Bool.noConfusion (hp.symm.trans hoff)
  rw [if_neg hp] at h
  obtain ⟨relaxed, w₁, hsimplex, h⟩ := on_bind_eq_ok.mp h
  by_cases hoptimal : relaxed = .known (.solved .optimal)
  · -- the search starts from an optimal solution of the relaxation
    subst hoptimal
    rw [if_pos rfl] at h
    obtain ⟨hrelaxation, -, hpersists⟩ := simplex_solved hw hq hsimplex
    obtain ⟨q₁, hq₁⟩ := hpersists.problem
    obtain ⟨hsolved, hpersists₁⟩ := search_solved hpersists.compliant hq₁ h
    refine ⟨Or.inl ⟨?_, ?_⟩, hpersists.trans hpersists₁⟩
    · exact hsolved.within hpersists.extends_ hpersists₁.extends_ (World.Extends.refl w')
        hpersists.script rfl
    · rintro ⟨-, -, hstatus⟩
      have hfive : w.script.status = 5 := hrelaxation.status.optimal_iff.mp rfl
      omega
  · -- the outcome of the relaxation is handed on
    rw [if_neg hoptimal, on_bind_of_ok (on_debug _ _ _), on_pure_eq_ok] at h
    obtain ⟨rfl, rfl⟩ := h
    obtain ⟨hrelaxation, hunsearched, hpersists⟩ := simplex_solved hw hq hsimplex
    have hshows : Shows w.script.status s := hrelaxation.status
    rcases hshows with ⟨-, rfl⟩ | ⟨hstatus, rfl⟩
    · exact absurd rfl hoptimal
    · exact ⟨Or.inr ⟨rfl, hunsearched, rfl, ⟨presolve, hpresolve, by simpa using hp⟩, hstatus⟩,
        ⟨hpersists.compliant, hpersists.script, hpersists.extends_, hpersists.problem⟩⟩

/-- A derivation stays one when calls come before or after it that start no solver. -/
theorem Derived.within {parameters : Parameters} (h : Derived method parameters w₁ w₂ n s)
    (hbefore : w.Extends w₁) (hidle : ∀ c ∈ w.callsSince w₁, c.isEntry = false)
    (hran : w₁.Extends w₂) (hafter : w₂.Extends w')
    (hidle' : ∀ c ∈ w₂.callsSince w', c.isEntry = false) (hscript : w₁.script = w.script)
    (hproblem : w'.native.problem? n = w₂.native.problem? n) :
    Derived method parameters w w' n s := by
  unfold Derived at h
  rw [hscript] at h
  refine h.imp (fun ⟨hsolved, hnot⟩ => ⟨hsolved.within hbefore hran hafter hscript hproblem, hnot⟩)
    fun ⟨hs, hunsearched, hrelaxed⟩ => ⟨hs, ?_, hrelaxed⟩
  exact ((unsearched_of_idle hidle).trans hunsearched hbefore hran).trans (unsearched_of_idle hidle')
    (hbefore.trans hran) hafter

/-- Whatever method was asked for, a solved outcome is derived from what this method started. -/
theorem runMethod_solved (hw : w.Compliant) (hq : w.native.problem? n = some (.glpk q))
    (hmethod : method ≠ .auto) {abort : Option Handle}
    (h : (runMethod n abort method parameters).on w = (.ok (.known (.solved s)), w')) :
    Derived method parameters w w' n s ∧ Persists w w' n := by
  unfold runMethod at h
  cases method with
  -- `auto` has been resolved before the engine is asked
  | auto => exact absurd rfl hmethod
  | simplex =>
    rw [if_pos rfl] at h
    obtain ⟨presolve, -, h⟩ := on_lift_bind_eq_ok.mp h
    obtain ⟨hsolved, -, hpersists⟩ := simplex_solved hw hq h
    exact ⟨Or.inl ⟨hsolved, fun hrelaxed => Method.noConfusion hrelaxed.1⟩, hpersists⟩
  | branchCut =>
    rw [if_neg (by simp)] at h
    exact branchCut_solved hw hq h

/-- **How GLPK comes to a solution.** -/
theorem solve_solved (hw : w.Compliant) (hq : w.native.problem? n = some (.glpk q))
    (hmethod : method ≠ .auto) {abort log : Option Handle}
    (h : (solve n abort method parameters log).on w = (.ok (.known (.solved s)), w')) :
    Derived method parameters w w' n s ∧ Persists w w' n := by
  unfold solve at h
  cases log with
  | none => exact runMethod_solved hw hq hmethod h
  | some handle =>
    dsimp only at h
    rw [on_bind_of_ok (on_tell (hw.grants _)), on_ensuring_eq_ok] at h
    obtain ⟨w₁, hran, hcleanup⟩ := h
    let hook : Native.Call := .glpk (.terminalHook (some handle))
    have hbefore := Idling.after (c := hook) hw rfl rfl
    obtain ⟨hderived, hpersists⟩ := runMethod_solved (w := w.after hook) hw hq hmethod hran
    rw [on_tell (hpersists.compliant.grants _)] at hcleanup
    cases hcleanup
    -- setting and clearing the hook are calls that change no problem
    have hafter := Idling.after (c := .glpk (.terminalHook none)) hpersists.compliant rfl rfl
    exact ⟨hderived.within hbefore.extends_ hbefore.idle hpersists.extends_ hafter.extends_ hafter.idle
        rfl rfl,
      hpersists.compliant, hpersists.script, (hbefore.extends_.trans hpersists.extends_).trans
        hafter.extends_, hpersists.problem⟩

end Glpk

/-! ## §4 Results on GLPK -/

namespace Model

variable {w w' : World} {m : ModelId} {model : Model} {n : Nat} {r : SolveResult}

/-- The method that is used is never the automatic one. -/
theorem effectiveMethod_ne_auto (kinds : List VariableKind) (method : Method) :
    effectiveMethod kinds method ≠ .auto := by
  cases method with
  | auto =>
    show (if kinds.any (· != .continuous) then Method.branchCut else .simplex) ≠ .auto
    split <;> simp
  | simplex => simp [effectiveMethod]
  | branchCut => simp [effectiveMethod]

/-- A solve never hands the choice of the method to the engine. -/
theorem resolveMethod_ne_auto {given : Option Datum} {setting : MethodSetting} {method : Method}
    (h : resolveMethod model given = .ok setting) (hread : setting.read = .ok method) :
    method ≠ .auto := by
  cases setting with
  | plain d => cases hread
  | method method' =>
    cases hread
    unfold resolveMethod at h
    -- a method comes from the call or from the parameters, and is made effective in both cases
    cases given with
    | some d =>
      dsimp only at h
      cases hd : (Choice.read d : Except Fault Method) with
      | error fault =>
        rw [hd] at h
        cases h
      | ok chosen =>
        rw [hd] at h
        cases h
        exact effectiveMethod_ne_auto _ _
    | none =>
      dsimp only at h
      rcases hs : model.parameters.method with fault | chosen | d
      · rw [hs] at h
        cases h
      · rw [hs] at h
        cases h
        exact effectiveMethod_ne_auto _ _
      · rw [hs] at h
        cases h

/-- Only a solution is interpreted as a status. -/
theorem on_interpret_eq_ok {report : EngineReport} {status : SolveStatus}
    (h : (interpret report).on w = (.ok status, w')) : report = .known (.solved status) ∧ w = w' := by
  rcases report with (s | failure) | ⟨engine, code⟩ <;> cases h
  exact ⟨rfl, rfl⟩

/-- The result of a solve has the method that was used, and its status is derived from what was started. -/
theorem finish_derived (hw : w.Compliant) (hk : model.engine.kind = .glpk) {q : Glpk.Problem}
    (hq : w.native.problem? model.engine.number = some (.glpk q)) {method : Method}
    (hmethod : method ≠ .auto) (h : (finish m model method).on w = (.ok r, w')) :
    r.method = method ∧
      Glpk.Derived method model.parameters w w' model.engine.number r.status ∧ w.Extends w' := by
  unfold finish conclude at h
  obtain ⟨report, w₁, hreport, h⟩ := on_bind_eq_ok.mp h
  rw [on_bind_of_ok (on_touch m w₁)] at h
  obtain ⟨model', w₂, hmodel, h⟩ := on_bind_eq_ok.mp h
  rw [on_bind_of_ok (on_debug _ _ _)] at h
  obtain ⟨status, w₃, hinterpret, h⟩ := on_bind_eq_ok.mp h
  obtain ⟨rfl, rfl⟩ := on_pure_eq_ok.mp h
  obtain ⟨rfl, rfl⟩ := on_interpret_eq_ok hinterpret
  obtain ⟨handle, registry, registry', w₃, hsolve, rfl⟩ := registered_eq_ok hreport
  have hglpk : (Glpk.solve model.engine.number model.engine.abort method model.parameters
      (some handle)).on { w with registry := registry } = (.ok (.known (.solved status)), w₃) := by
    unfold Engine.solve at hsolve
    rw [hk] at hsolve
    exact hsolve
  obtain ⟨hderived, hpersists⟩ :=
    Glpk.solve_solved (w := { w with registry := registry }) hw hq hmethod hglpk
  obtain ⟨-, rfl⟩ := on_model_eq_ok hmodel
  -- around the run of the engine, nothing is called
  have hbefore : w.callsSince { w with registry := registry } = [] := World.callsSince_self w
  have hafter (v : World) (hv : v.calls = w₃.calls) : ∀ c ∈ w₃.callsSince v, c.isEntry = false := by
    rw [World.callsSince_of_calls [] (by simp [hv])]
    simp
  exact ⟨rfl, hderived.within (World.Extends.refl w) (by simp [hbefore]) hpersists.extends_
    (World.Extends.refl w₃) (hafter _ rfl) rfl rfl, hpersists.extends_⟩

/-- A solve that answers found its model open. -/
theorem unfreed_of_solve (hm : w.model? m = some model) {given : Option Datum}
    (h : (solve m given).on w = (.ok r, w')) : model.freed = false := by
  rcases on_openModel_cases m w with ⟨model', hm', hf, -⟩ | hclosed
  · cases hm.symm.trans hm'
    exact hf
  · unfold solve at h
    rw [on_bind_of_error hclosed] at h
    cases h

/-- **A result on GLPK** comes from its own method, or else from the relaxation alone. -/
theorem derived_of_solve (hw : w.Compliant) (hm : w.model? m = some model)
    (hk : model.engine.kind = .glpk) {q : Native.Problem} (ho : model.engine.Owns w.native n q)
    {given : Option Datum} (h : (solve m given).on w = (.ok r, w')) :
    r.method ≠ .auto ∧ Glpk.Derived r.method model.parameters w w' n r.status := by
  have hf := unfreed_of_solve hm h
  -- a note about the method would change nothing
  obtain ⟨w₀, hnote, hnative, hprepare⟩ : ∃ w₀, Idling w w₀ ∧ w₀.native = w.native ∧
      (prepare model given >>= finish m model).on w₀ = (.ok r, w') := by
    rcases on_solve hm hf given with hon | ⟨text, hon⟩
    · exact ⟨w, Idling.refl hw, rfl, hon.symm.trans h⟩
    · exact ⟨w.log LogRecord.debug source text, (Idling.kept w).writings (Idling.refl hw), rfl,
        hon.symm.trans h⟩
  obtain ⟨method, w₂, hprepared, hfinished⟩ := on_bind_eq_ok.mp hprepare
  rw [on_prepare hnote.compliant] at hprepared
  obtain ⟨setting, t, hsetting, hread, hstate⟩ : ∃ setting t, resolveMethod model given = .ok setting ∧
      setting.read = .ok method ∧
      w₂ = (w₀.afterAll (model.engine.loadCalls t)).log LogRecord.debug source
        ("solving " ++ model.display ++ " with " ++ Choice.name method) := by
    split at hprepared
    · cases hprepared
    · cases hprepared
    · next setting t hsetting ht =>
      dsimp only at hprepared
      cases hread : setting.read with
      | error fault =>
        rw [hread] at hprepared
        cases hprepared
      | ok method' =>
        rw [hread] at hprepared
        cases hprepared
        exact ⟨setting, t, hsetting, hread, rfl⟩
  subst hstate
  have hmethod := resolveMethod_ne_auto hsetting hread
  -- the matrix is loaded into the problem, which stays one of GLPK
  let w₁ := w₀.afterAll (model.engine.loadCalls t)
  obtain ⟨q₁, hq₁⟩ : ∃ q₁, w₁.native.problem? model.engine.number = some (.glpk q₁) := by
    have hproblem : w₁.native.problem? n = some (q.applyAll (model.engine.loadCalls t)) := by
      rw [World.afterAll_native, hnative, Native.Store.problem?_applyAll
        (ho.number ▸ Engine.isAbout_loadCalls model.engine t), if_pos rfl, ho.found, Option.map_some]
    have hkind : (q.applyAll (model.engine.loadCalls t)).kind? = some .glpk := by
      rw [Native.Problem.kind?_applyAll, ho.kind, hk]
    rw [ho.number, hproblem]
    generalize q.applyAll (model.engine.loadCalls t) = p at hkind
    cases p with
    | glpk q₁ => exact ⟨q₁, rfl⟩
    | lpsolve q₁ => cases hkind
    | deleted => cases hkind
  obtain ⟨rfl, hderived, hx⟩ := finish_derived (w := w₁.log _ _ _) (hnote.compliant.afterAll _) hk hq₁
    hmethod hfinished
  refine ⟨hmethod, ?_⟩
  rw [ho.number] at hderived
  have hbefore : w.Extends w₁ := hnote.extends_.trans (World.Extends.afterAll w₀ _)
  have hidle : ∀ c ∈ w.callsSince w₁, c.isEntry = false := by
    intro c hc
    rw [World.callsSince_trans hnote.extends_ (World.Extends.afterAll w₀ _),
      World.callsSince_afterAll] at hc
    exact (List.mem_append.mp hc).elim (hnote.idle c) (isEntry_loadCalls model.engine t c)
  refine hderived.within hbefore hidle hx (World.Extends.refl w') (by simp) ?_ rfl
  exact (World.afterAll_script w₀ _).trans hnote.script

end Model

namespace SolveResult

/-- From `w` to `w'`, the method of the result was run on problem `n`, and what the accessors of the result
read there is what this run left: a solution, of the status that the result has. -/
def Genuine (r : SolveResult) (w w' : World) (n : Nat) : Prop := Glpk.SolvedBy r.method w w' n r.status

/-- **Which results on GLPK are genuine.** At any point of a session, a result that a solve answers with is
genuine, except if the relaxation took the place of the search. Then no search was started, although the
result is read as one of a search, and the result is suboptimal. In any case, a result is optimal only if
this is the status that its method shows. -/
theorem genuine_iff (os : List Operation) {m : ModelId} {given : Option Datum} {model : Model}
    {r : SolveResult} (hm : (World.initial.nextAll os).model? m = some model)
    (hk : model.engine.kind = .glpk)
    (h : ((World.initial.nextAll os).event (.solve m given)).answer = .ok (.result r)) :
    let w := World.initial.nextAll os
    let w' := w.next (.solve m given)
    (r.method = .simplex ∨ r.method = .branchCut) ∧
      (r.status = .optimal → w.script.statusOf r.method = 5) ∧
      ∃ n, model.engine.problem = some n ∧
        (r.Genuine w w' n ↔ ¬ Glpk.Relaxed r.method model.parameters w.script) ∧
        (Glpk.Relaxed r.method model.parameters w.script →
          r.method = .branchCut ∧ r.status = .suboptimal ∧ Glpk.Unsearched w w') := by
  intro w w'
  have hs : w.Sound := World.sound_nextAll World.sound_initial os
  have hsolve : (Model.solve m given).on w = (.ok r, w') := by
    have hanswer : ((Answer.result <$> Model.solve m given).on w).1 = .ok (.result r) := h
    have hnext : ((Answer.result <$> Model.solve m given).on w).2 = w' := rfl
    rw [on_map] at hanswer hnext
    rcases hon : (Model.solve m given).on w with ⟨fault | r', w₁⟩
    · rw [hon] at hanswer
      cases hanswer
    · rw [hon] at hanswer hnext
      cases hanswer
      exact congrArg _ hnext
  obtain ⟨n, q, -, ho⟩ := hs.holds_of_model? hm (Model.unfreed_of_solve hm hsolve)
  obtain ⟨hmethod, hderived⟩ := Model.derived_of_solve hs.compliant hm hk ho hsolve
  -- the result is derived from the run of its own method, or from the relaxation instead
  refine ⟨?_, ?_, n, ho.problem, ?_, ?_⟩
  · cases hr : r.method with
    | auto => exact absurd hr hmethod
    | simplex => exact Or.inl rfl
    | branchCut => exact Or.inr rfl
  · intro hoptimal
    rcases hderived with ⟨hsolved, -⟩ | ⟨hsuboptimal, -⟩
    · exact hsolved.status.optimal_iff.mp hoptimal
    · exact SolveStatus.noConfusion (hoptimal.symm.trans hsuboptimal)
  · rcases hderived with ⟨hsolved, hnot⟩ | ⟨-, hunsearched, hrelaxed⟩
    · exact ⟨fun _ => hnot, fun _ => hsolved⟩
    · refine ⟨fun hgenuine _ => ?_, fun hnot => absurd hrelaxed hnot⟩
      unfold Genuine at hgenuine
      rw [hrelaxed.1] at hgenuine
      exact hgenuine.not_unsearched hunsearched
  · intro hrelaxed
    rcases hderived with ⟨-, hnot⟩ | ⟨hsuboptimal, hunsearched, -⟩
    · exact absurd hrelaxed hnot
    · exact ⟨hrelaxed.1, hsuboptimal, hunsearched⟩

/-- With the presolver, a search on GLPK is genuine. -/
theorem genuine_of_presolved_search :
    let os : List Operation := [.create "" (.text "minimize") [.engine (.named (.text "glpk"))],
      .addVariable 0 "x" (.text "integer") (.int 1) (.int 0) (.int 4)]
    let r : SolveResult := ⟨0, 2, .optimal, .branchCut⟩
    let w := World.initial.nextAll os
    ∃ model n, w.model? 0 = some model ∧ model.engine.kind = .glpk ∧
      (w.event (.solve 0 none)).answer = .ok (.result r) ∧ model.engine.problem = some n ∧
      r.Genuine w (w.next (.solve 0 none)) n := by
  intro os r w
  have hkind : (w.model? 0).map (·.engine.kind) = some .glpk := by decide +kernel
  obtain ⟨model, hm, hk⟩ := Option.map_eq_some_iff.mp hkind
  have hr : (w.event (.solve 0 none)).answer = .ok (.result r) :=
    World.eq_ok_of_toOption (by decide +kernel)
  have hstatus : w.script.status = 5 := by decide +kernel
  obtain ⟨-, -, n, hn, hiff, -⟩ := genuine_iff os hm hk hr
  -- status 5 is optimal, so no relaxation was passed on
  have hnot : ¬ Glpk.Relaxed r.method model.parameters w.script := fun hrelaxed =>
    absurd (hstatus.symm.trans hrelaxed.2.2) (by decide)
  exact ⟨model, n, hm, hk, hr, hn, hiff.mpr hnot⟩

/-- Without it, a relaxation with a feasible solution passes for a search. -/
theorem relaxed_passes_for_search :
    let script : Script := { Script.standard with status := 2 }
    let os : List Operation :=
      [.create "" (.text "minimize") [.engine (.named (.text "glpk"))],
        .addVariable 0 "x" (.text "integer") (.int 1) (.int 0) (.int 4),
        .setParameters 0 [("presolve", .bool false)],
        .meanwhile ⟨.zero, .empty, .empty, .standard, script⟩]
    let r : SolveResult := ⟨0, 2, .suboptimal, .branchCut⟩
    let w := World.initial.nextAll os
    (w.event (.solve 0 none)).answer = .ok (.result r) ∧
      Glpk.Unsearched w (w.next (.solve 0 none)) ∧ ∀ n, ¬ r.Genuine w (w.next (.solve 0 none)) n := by
  intro script os r w
  -- no call of `glp_intopt` among those made
  have hunsearched : Glpk.Unsearched w (w.next (.solve 0 none)) := by
    unfold Glpk.Unsearched
    decide +kernel
  exact ⟨World.eq_ok_of_toOption (by decide +kernel), hunsearched,
    fun n hgenuine => hgenuine.not_unsearched hunsearched⟩

end SolveResult

end LinearProgram
