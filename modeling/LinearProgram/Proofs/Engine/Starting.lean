import LinearProgram.Proofs.Provenance

/-!
# Which solvers are started

On lp_solve, a solve starts the only solver there is. On GLPK it goes by the method: the simplex method alone, or
the integer search alone where the presolver is on. Where it is off, the simplex method solves the relaxation
first, and the search follows if this has returned 0 with the status of an optimal solution.

`EngineKind.solvers` is the list for each case, and `Engine.runs_solve` says that an engine starts these solvers in
order: all of them if it reports an outcome, and the first few of them if it fails on the way. It fails where a
setting is missing, or where a run is broken off.
-/

namespace LinearProgram

open LinearProgram.Action

/-! ## §1 Solvers in order -/

/-- A solver of the libraries: the simplex method and the integer search of GLPK, and the only one of lp_solve. -/
inductive Solver where
  | simplex
  | search
  | lpSolve
deriving DecidableEq, Repr

namespace Native.Call

/-- The solver that a call starts. -/
def solver? : Native.Call → Option Solver
  | glpk (.simplex ..) => some .simplex
  | glpk (.integerSearch ..) => some .search
  | lpsolve (.solve _) => some .lpSolve
  | _ => none

theorem solver?_of_isSearch {c : Native.Call} (h : c.isSearch = true) : c.solver? = some .search := by
  rcases c with c | c <;> cases c <;> first | rfl | cases h

def solvers (cs : List Native.Call) : List Solver := cs.filterMap solver?

theorem solver?_of_isEntry {c : Native.Call} (h : c.isEntry = false) : c.solver? = none := by
  rcases c with c | c <;> cases c <;> first | rfl | cases h

theorem solvers_append (cs ds : List Native.Call) : solvers (cs ++ ds) = solvers cs ++ solvers ds :=
  List.filterMap_append

theorem solvers_of_idle {cs : List Native.Call} (h : ∀ c ∈ cs, c.isEntry = false) : solvers cs = [] :=
  List.filterMap_eq_nil_iff.mpr fun c hc => solver?_of_isEntry (h c hc)

end Native.Call

/-- From `w` to `w'`, solvers were started in the order of `ss`: the first few of them, and all of them if
`complete` holds. -/
structure World.Starts (ss : List Solver) (complete : Prop) (w w' : World) : Prop where
  extends_ : w.Extends w'
  order : Native.Call.solvers (w.callsSince w') <+: ss
  all : complete → Native.Call.solvers (w.callsSince w') = ss

namespace World.Starts

variable {ss ss₁ ss₂ : List Solver} {complete complete' : Prop} {w w₁ w₂ : World}

theorem of_eq (hx : w.Extends w₁) (h : Native.Call.solvers (w.callsSince w₁) = ss) :
    w.Starts ss complete w₁ := ⟨hx, h ▸ List.prefix_rfl, fun _ => h⟩

/-- No solver was started. -/
theorem of_idle (hx : w.Extends w₁) (h : ∀ c ∈ w.callsSince w₁, c.isEntry = false) :
    w.Starts [] complete w₁ := of_eq hx (Native.Call.solvers_of_idle h)

theorem of_waiting (h : Waiting w w₁) : w.Starts [] complete w₁ := of_idle h.extends_ h.idle

/-- No call was made. -/
theorem of_calls (h : w₁.calls = w.calls) : w.Starts [] complete w₁ := by
  have hnone : w.callsSince w₁ = [] := callsSince_of_calls [] (by simp [h])
  exact of_idle (Extends.of_calls [] (by simp [h])) (by simp [hnone])

/-- What is started in two parts is started one after the other. -/
theorem trans (h₁ : w.Starts ss₁ True w₁) (h₂ : w₁.Starts ss₂ complete w₂) :
    w.Starts (ss₁ ++ ss₂) complete w₂ where
  extends_ := h₁.extends_.trans h₂.extends_
  order := by
    rw [callsSince_trans h₁.extends_ h₂.extends_, Native.Call.solvers_append, h₁.all trivial]
    exact List.prefix_append_right_inj _ |>.mpr h₂.order
  all h := by
    rw [callsSince_trans h₁.extends_ h₂.extends_, Native.Call.solvers_append, h₁.all trivial, h₂.all h]

/-- What comes afterwards starts no solver. -/
theorem andThen (h₁ : w.Starts ss complete w₁) (h₂ : w₁.Starts [] True w₂) : w.Starts ss complete w₂ := by
  have hcalls : Native.Call.solvers (w.callsSince w₂) = Native.Call.solvers (w.callsSince w₁) := by
    rw [callsSince_trans h₁.extends_ h₂.extends_, Native.Call.solvers_append, h₂.all trivial, List.append_nil]
  exact ⟨h₁.extends_.trans h₂.extends_, hcalls ▸ h₁.order, fun h => hcalls.trans (h₁.all h)⟩

/-- The others are not reached. -/
theorem broken (h : w.Starts ss₁ complete w₁) (ss₂ : List Solver) (hfalse : ¬ complete') :
    w.Starts (ss₁ ++ ss₂) complete' w₁ :=
  ⟨h.extends_, h.order.trans (List.prefix_append _ _), fun hc => absurd hc hfalse⟩

/-- It ends before the first call. -/
theorem broken_of_calls (h : w₁.calls = w.calls) (ss : List Solver) (hfalse : ¬ complete) :
    w.Starts ss complete w₁ :=
  have hnone : w.Starts [] True w₁ := .of_calls h
  hnone.broken ss hfalse

/-- The registry is not looked at. -/
theorem of_registry {r : Registry Target} (h : World.Starts ss complete { w with registry := r } w₁) :
    w.Starts ss complete w₁ := ⟨h.extends_, h.order, h.all⟩

theorem mono (h : w.Starts ss complete w₁) (himp : complete' → complete) : w.Starts ss complete' w₁ :=
  ⟨h.extends_, h.order, fun hc => h.all (himp hc)⟩

end World.Starts

/-- From this state, the action starts solvers in the order of `ss`, and all of them if it answers. -/
def Action.Runs {α : Type} (w : World) (ss : List Solver) (a : Action α) : Prop :=
  w.Starts ss (∃ x, (a.on w).1 = .ok x) (a.on w).2

namespace Action.Runs

variable {α β : Type} {ss ss₁ ss₂ : List Solver} {w : World}

theorem of_idling {a : Action α} (hw : w.Compliant) (h : ∀ w, Preserves (Idling w) a) : Runs w [] a :=
  .of_waiting (h w w (Idling.refl hw)).toWaiting

/-- A sequence starts what its parts start. -/
theorem bind {a : Action α} {f : α → Action β} (ha : Runs w ss₁ a)
    (hf : ∀ x w₁, a.on w = (.ok x, w₁) → Runs w₁ ss₂ (f x)) : Runs w (ss₁ ++ ss₂) (a >>= f) := by
  unfold Runs at *
  rw [on_bind]
  rcases hon : a.on w with ⟨fault | x, w₁⟩
  · rw [hon] at ha
    -- what the second part would have started stays unstarted
    exact ha.broken ss₂ (by simp)
  · rw [hon] at ha
    exact (ha.mono fun _ => ⟨x, rfl⟩).trans (hf x w₁ hon)

/-- What is looked up before. -/
theorem lift_bind {r : Except Fault α} {f : α → Action β} (hf : ∀ x, r = .ok x → Runs w ss (f x)) :
    Runs w ss (lift r >>= f) := by
  cases r with
  | error fault => exact .broken_of_calls rfl ss (by rintro ⟨x, ⟨⟩⟩)
  | ok x => exact hf x rfl

/-- What comes afterwards starts no solver. -/
theorem bind_idle {a : Action α} {f : α → Action β} (ha : Runs w ss a)
    (hf : ∀ x w₁, a.on w = (.ok x, w₁) → Runs w₁ [] (f x)) : Runs w ss (a >>= f) := by
  have h := ha.bind hf
  rwa [List.append_nil] at h

/-- A call before that starts no solver. -/
theorem after_call {c : Native.Call} {first : Action Unit} {a : Action α} (hc : c.isEntry = false)
    (hfirst : first.on w = (.ok (), w.after c)) (ha : Runs (w.after c) ss a) :
    Runs w ss (first >>= fun _ => a) := by
  have hidle : w.Starts [] True (w.after c) := .of_idle (.after w c) (by simp [hc])
  unfold Runs at *
  rw [on_bind_of_ok hfirst]
  exact hidle.trans ha

/-- A call in the end that starts no solver. -/
theorem ensuring_call {body : Action α} {cleanup : Action Unit} {c : Native.Call} (hb : Runs w ss body)
    (hc : c.isEntry = false) (hcleanup : cleanup.on (body.on w).2 = (.ok (), (body.on w).2.after c)) :
    Runs w ss (ensuring body cleanup) := by
  have hidle : (body.on w).2.Starts [] True ((body.on w).2.after c) := .of_idle (.after _ c) (by simp [hc])
  unfold Runs at *
  rw [on_ensuring, hcleanup]
  exact hb.andThen hidle

end Action.Runs

/-- A run starts the solver of its first call, and no other. -/
theorem Action.runs_conduct {w : World} (hw : w.Compliant) {r : NativeRun} {s : Solver}
    (hs : r.start.solver? = some s) : Runs w [s] (conduct r) := by
  obtain ⟨w₁, hwaiting, hend⟩ := on_conduct hw r
  -- the call itself starts the solver, the events that follow start nothing
  have hfirst : w.Starts [s] True (w.after r.start) :=
    .of_eq (.after w r.start) (by simp [Native.Call.solvers, hs])
  have hrun (complete : Prop) : w.Starts [s] complete w₁ :=
    (hfirst.andThen (.of_waiting hwaiting)).mono fun _ => trivial
  unfold Runs
  rcases hend with ⟨stopped, v, -, hend⟩ | ⟨fault, hend⟩ <;> rw [hend]
  · exact (hrun _).andThen (.of_calls rfl)
  · exact hrun _

/-! ## §2 Solvers of the engines -/

/-- The presolver is on. -/
def Parameters.presolves (p : Parameters) : Prop := ∃ d, p.presolve = .ok d ∧ d.isTrue = true

theorem Parameters.presolves_iff {p : Parameters} {d : Datum} (h : p.presolve = .ok d) :
    p.presolves ↔ d.isTrue = true := by
  unfold presolves
  rw [h]
  simp

instance (p : Parameters) : Decidable p.presolves :=
  match h : p.presolve with
  | .ok d => decidable_of_iff (d.isTrue = true) (Parameters.presolves_iff h).symm
  | .error _ => isFalse fun ⟨_, hd, _⟩ => nomatch h.symm.trans hd

/-- The relaxation ends with an optimal solution: its run returns 0, and the status is that of one. -/
def Script.RelaxationOptimal (s : Script) : Prop := s.simplexCode = 0 ∧ s.status = 5

instance (s : Script) : Decidable s.RelaxationOptimal := inferInstanceAs (Decidable (_ ∧ _))

/-- The solvers that a solve starts, in order. -/
def EngineKind.solvers (kind : EngineKind) (method : Method) (parameters : Parameters) (s : Script) :
    List Solver :=
  match kind with
  | .lpsolve => [.lpSolve]
  | .glpk =>
    if method = .simplex then [.simplex]
    else if parameters.presolves then [.search]
    else .simplex :: if s.RelaxationOptimal then [.search] else []

/-- On GLPK, the integer search is started under its own method only, and then if the presolver is on or the
relaxation ends with an optimal solution. -/
theorem EngineKind.search_mem_solvers_iff {kind : EngineKind} {method : Method} {parameters : Parameters}
    {s : Script} : .search ∈ kind.solvers method parameters s ↔
      kind = .glpk ∧ method ≠ .simplex ∧ (parameters.presolves ∨ s.RelaxationOptimal) := by
  unfold solvers
  cases kind with
  | lpsolve => simp
  | glpk =>
    by_cases hmethod : method = .simplex
    · simp [hmethod]
    · by_cases hpresolves : parameters.presolves
      · simp [hmethod, hpresolves]
      · -- without presolve the relaxation decides
        by_cases hoptimal : s.RelaxationOptimal <;> simp [hmethod, hpresolves, hoptimal]

namespace Glpk

variable {w w' : World} {n : Nat} {q : Problem} {parameters : Parameters}

/-- The simplex reports an optimum exactly if it returned and GLPK calls the solution optimal. -/
theorem simplexReport_optimal_iff {code status : Int} :
    simplexReport code status = .known (.solved .optimal) ↔ code = 0 ∧ status = 5 := by
  constructor
  · intro h
    obtain ⟨hcode, hshows⟩ := simplexReport_solved h
    exact ⟨hcode, hshows.optimal_iff.mp rfl⟩
  · rintro ⟨rfl, rfl⟩
    rfl

theorem runs_simplex (hw : w.Compliant) (presolve : Bool) : Runs w [.simplex] (simplex n parameters presolve) := by
  unfold simplex
  refine Runs.lift_bind fun verbose _ => (runs_conduct hw rfl).bind_idle fun code w₁ hon => ?_
  refine Runs.of_idling (compliant_of_conduct hw hon) fun _ => ?_
  split
  · exact Preserves.pure _
  · exact (reads_ask _ _ _ _).bind fun _ => Preserves.pure _

theorem runs_search (hw : w.Compliant) (abort : Option Handle) : Runs w [.search] (search n parameters abort) := by
  unfold search
  refine Runs.lift_bind fun verbose _ => Runs.lift_bind fun presolve _ =>
    (runs_conduct hw rfl).bind_idle fun code w₁ hon => ?_
  exact Runs.of_idling (compliant_of_conduct hw hon) fun _ => (reads_ask _ _ _ _).bind fun _ => Preserves.pure _

/-- What the simplex method reports is what its code and its status mean. -/
theorem report_of_simplex (hw : w.Compliant) (hq : w.native.problem? n = some (.glpk q)) {presolve : Bool}
    {report : EngineReport} (h : (simplex n parameters presolve).on w = (.ok report, w')) :
    report = simplexReport w.script.simplexCode w.script.status := by
  unfold simplex at h
  obtain ⟨verbose, -, h⟩ := on_lift_bind_eq_ok.mp h
  obtain ⟨code, w₁, hrun, h⟩ := on_bind_eq_ok.mp h
  obtain ⟨⟨stopped, hstopped⟩, hpersists, ⟨q₁, v, -, hq₁⟩, -⟩ :=
    left_of_conduct (n := n) hw (NativeRun.proper_simplex ..) rfl hq
      (fun s v q => { q with status := s.status, values := v }) (fun _ _ _ => rfl) hrun
  obtain rfl : code = w.script.simplexCode := hstopped
  by_cases hcode : w.script.simplexCode ≠ 0
  · -- the status is not read then, and does not matter
    rw [if_pos hcode] at h
    rw [← (on_pure_eq_ok.mp h).1]
    unfold simplexReport
    rw [if_pos hcode, if_pos hcode]
  · rw [if_neg hcode, on_bind_of_ok (on_ask (hpersists.compliant.grants _) _ _),
      glpk?_of_problem? hq₁, on_pure_eq_ok] at h
    exact h.1.symm

/-- Branch-and-cut starts the relaxation, unless the presolver is on, and the search, unless the relaxation
ends it. -/
theorem runs_branchCut (hw : w.Compliant) (hq : w.native.problem? n = some (.glpk q)) {method : Method}
    (hmethod : method ≠ .simplex) (abort : Option Handle) :
    Runs w (EngineKind.glpk.solvers method parameters w.script) (branchCut n parameters abort) := by
  unfold branchCut EngineKind.solvers
  refine Runs.lift_bind fun presolve hpresolve => ?_
  simp only [if_neg hmethod, Parameters.presolves_iff hpresolve]
  by_cases hon : presolve.isTrue = true
  · rw [if_pos hon, if_pos hon]
    exact runs_search hw abort
  rw [if_neg hon, if_neg hon]
  show Runs w ([.simplex] ++ if w.script.RelaxationOptimal then [.search] else []) _
  refine Runs.bind (runs_simplex hw false) fun relaxed w₁ hrelaxed => ?_
  -- whether the search follows is decided by the report of the relaxation
  obtain rfl := report_of_simplex hw hq hrelaxed
  have hw₁ := (preserves_simplex n parameters false w (RunningOn.refl hw)).compliant
  rw [hrelaxed] at hw₁
  by_cases hoptimal : w.script.RelaxationOptimal
  · rw [if_pos hoptimal, if_pos (simplexReport_optimal_iff.mpr hoptimal)]
    exact runs_search hw₁ abort
  · rw [if_neg hoptimal, if_neg fun h => hoptimal (simplexReport_optimal_iff.mp h)]
    exact Runs.of_idling hw₁ fun _ => (reads_debug _ _).bind fun _ => Preserves.pure _

/-- A method starts its solvers. -/
theorem runs_runMethod (hw : w.Compliant) (hq : w.native.problem? n = some (.glpk q)) (abort : Option Handle)
    (method : Method) :
    Runs w (EngineKind.glpk.solvers method parameters w.script) (runMethod n abort method parameters) := by
  unfold runMethod
  by_cases hmethod : method = .simplex
  · rw [if_pos hmethod, EngineKind.solvers, if_pos hmethod]
    exact Runs.lift_bind fun presolve _ => runs_simplex hw presolve.isTrue
  · rw [if_neg hmethod]
    exact runs_branchCut hw hq hmethod abort

/-- A solve of GLPK starts the solvers of its method. -/
theorem runs_solve (hw : w.Compliant) (hq : w.native.problem? n = some (.glpk q)) (abort : Option Handle)
    (method : Method) (log : Option Handle) :
    Runs w (EngineKind.glpk.solvers method parameters w.script) (solve n abort method parameters log) := by
  unfold solve
  cases log with
  | none => exact runs_runMethod hw hq abort method
  | some h =>
    -- the world with the hook set, in which the method runs
    let w₁ := w.after (.glpk (.terminalHook (some h)))
    have hran := preserves_runMethod n abort method parameters w₁ (RunningOn.refl (w := w₁) hw)
    have hruns : Runs w₁ _ (runMethod n abort method parameters) := runs_runMethod (w := w₁) hw hq abort method
    exact Runs.after_call rfl (on_tell (hw.grants _))
      (hruns.ensuring_call rfl (on_tell (hran.compliant.grants _)))

/-- An optimal solution under the method of the integer search comes from a search. -/
theorem search_of_optimal (hw : w.Compliant) (hq : w.native.problem? n = some (.glpk q)) {abort log : Option Handle}
    (h : (solve n abort .branchCut parameters log).on w = (.ok (.known (.solved .optimal)), w')) :
    .search ∈ EngineKind.glpk.solvers .branchCut parameters w.script := by
  have hran : Runs w (EngineKind.glpk.solvers .branchCut parameters w.script)
      (solve n abort .branchCut parameters log) := runs_solve hw hq abort .branchCut log
  rw [Runs, h] at hran
  rcases (solve_solved hw hq (by simp) h).1 with ⟨hsolved, -⟩ | ⟨hsuboptimal, -⟩
  · obtain ⟨c, hc, hstarts⟩ := hsolved.started
    rw [← hran.all ⟨_, rfl⟩]
    exact List.mem_filterMap.mpr ⟨c, hc, Native.Call.solver?_of_isSearch hstarts.isSearch⟩
  · -- OPTIMAL is not the other status
    cases hsuboptimal

end Glpk

namespace LpSolve

variable {w : World} {parameters : Parameters}

/-- A solve of lp_solve starts it once. -/
theorem runs_solve (hw : w.Compliant) (p : Nat) (log : Option Handle) :
    Runs w [.lpSolve] (solve p parameters log) := by
  unfold solve
  refine Runs.lift_bind fun verbose _ => Runs.after_call rfl (on_tell (hw.grants _)) ?_
  cases log with
  | none => exact (runs_conduct (hw.after _) rfl).bind_idle fun _ _ _ => .of_calls rfl
  | some h =>
    refine Runs.after_call rfl (on_tell ((hw.after _).grants _)) ?_
    let w₂ := (w.after (.lpsolve (.setVerbosity p (if verbose.isTrue then 4 else 0)))).after
      (.lpsolve (.logHook p (some h)))
    have hran := preserves_conduct (NativeRun.proper_lpSolve p) w₂ (RunningOn.refl (w := w₂) hw)
    have hrun : Runs w₂ [.lpSolve] (ensuring (conduct (.lpSolve p)) (tell (.logHook p none))) :=
      (runs_conduct (w := w₂) hw rfl).ensuring_call rfl (on_tell (hran.compliant.grants _))
    exact hrun.bind_idle fun _ _ _ => .of_calls rfl

end LpSolve

namespace Engine

variable {w w' : World} {e : Engine} {parameters : Parameters}

private theorem glpk_of_kind {n : Nat} (h : (w.native.problem? n).bind Native.Problem.kind? = some .glpk) :
    ∃ q, w.native.problem? n = some (.glpk q) := by
  obtain ⟨q, hq, hq'⟩ := Option.bind_eq_some_iff.mp h
  cases q with
  | glpk q => exact ⟨q, hq⟩
  | lpsolve q => cases hq'
  | deleted => cases hq'

/-- **An engine starts its solvers in order**, all of them if it reports an outcome. -/
theorem runs_solve (hw : w.Compliant) (hk : (w.native.problem? e.number).bind Native.Problem.kind? = some e.kind)
    (method : Method) (parameters : Parameters) (log : Option Handle) :
    Runs w (e.kind.solvers method parameters w.script) (e.solve method parameters log) := by
  unfold solve
  cases hkind : e.kind with
  | glpk =>
    obtain ⟨q, hq⟩ := glpk_of_kind (hkind ▸ hk)
    exact Glpk.runs_solve hw hq e.abort method log
  | lpsolve => exact LpSolve.runs_solve hw e.number log

theorem search_of_optimal (hw : w.Compliant)
    (hk : (w.native.problem? e.number).bind Native.Problem.kind? = some e.kind) (hglpk : e.kind = .glpk)
    {log : Option Handle}
    (h : (e.solve .branchCut parameters log).on w = (.ok (.known (.solved .optimal)), w')) :
    .search ∈ e.kind.solvers .branchCut parameters w.script := by
  unfold solve at h
  rw [hglpk] at hk h ⊢
  obtain ⟨q, hq⟩ := glpk_of_kind hk
  exact Glpk.search_of_optimal hw hq h

/-- Where the settings are not missing and runs return, an engine reports an outcome. -/
theorem solve_enters {verbose presolve : Datum}
    (hv : parameters.verbose = .ok verbose) (hp : parameters.presolve = .ok presolve) (e : Engine)
    (method : Method) (log : Option Handle) : (e.solve method parameters log).Enters := by
  unfold solve
  cases e.kind with
  | glpk => exact Glpk.solve_enters hv hp e.number e.abort method log
  | lpsolve => exact LpSolve.solve_enters hv e.number log

end Engine

end LinearProgram
