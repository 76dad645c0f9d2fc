import LinearProgram.Proofs.Solve.Hooks
import LinearProgram.Proofs.Twins

/-!
# Engines of twins

An operation of an engine does not depend on the number of its problem: performed with alike engines on twin
states, it gives the same answer or fault, makes alike calls, and leaves twin states. This holds also when the
libraries refuse calls, since they refuse the same ones.
-/

namespace LinearProgram

open LinearProgram.Action

variable {π : Pairing} {v v' : World}

/-! ## §1 Reading and telling -/

namespace Glpk

variable {n n' : Nat}

/-- Questions about problems that go together have the same answer. -/
theorem alike_ask {α : Type} (hn : π.problems n n') (query : Query) (absent : α) (answer : Problem → α) :
    Alike (Twins π v v') Eq (ask n query absent answer) (ask n' query absent answer) := by
  unfold ask
  refine Alike.step (alike_call ⟨rfl, .cons hn .nil⟩ rfl) fun carried => ?_
  cases carried with
  | false => exact .pure rfl
  | true =>
    refine .look fun w w' hr => ?_
    rw [Native.Store.glpk?_of_muted? (hr.alike.problems hn)]
    cases w'.native.glpk? n' <;> exact .pure rfl

theorem alike_tell {c c' : Call} (hc : (Native.Call.glpk c).Alike π (.glpk c'))
    (hlife : (Native.Call.glpk c).isLife = false) : Alike (Twins π v v') Eq (tell c) (tell c') :=
  (alike_call hc hlife).step fun _ => .pure rfl

theorem alike_columnBounds (hn : π.problems n n') (j : Int) :
    Alike (Twins π v v') Eq (columnBounds n j) (columnBounds n' j) :=
  (alike_ask hn _ _ _).step fun code => (Alike.lift (boundKind code)).step fun _ =>
    (alike_ask hn _ _ _).step fun _ => (alike_ask hn _ _ _).step fun _ => .pure rfl

/-- The number of the first new column or row is read off the problem before the call. -/
private theorem alike_add (hn : π.problems n n') (size : Problem → Nat) {c c' : Call}
    (hc : (Native.Call.glpk c).Alike π (.glpk c')) (hlife : (Native.Call.glpk c).isLife = false) :
    Alike (Twins π v v') Eq
      (do
        let first := (((← get).native.glpk? n).map size).getD 0 + 1
        if ← Action.call (.glpk c) then pure (first : Int) else pure 0)
      (do
        let first := (((← get).native.glpk? n').map size).getD 0 + 1
        if ← Action.call (.glpk c') then pure (first : Int) else pure 0) := by
  refine .look fun w w' hr => ?_
  rw [Native.Store.glpk?_of_muted? (hr.alike.problems hn)]
  refine (alike_call hc hlife).step fun carried => ?_
  cases carried <;> exact .pure rfl

/-- Columns are added on both sides. -/
theorem alike_addColumns (hn : π.problems n n') (count : Nat) :
    Alike (Twins π v v') Eq (addColumns n count) (addColumns n' count) := by
  unfold addColumns
  split
  · exact (alike_ask hn _ _ _).step fun _ => .pure rfl
  · exact alike_add hn _ ⟨rfl, .cons hn .nil⟩ rfl

theorem alike_addRows (hn : π.problems n n') (count : Nat) :
    Alike (Twins π v v') Eq (addRows n count) (addRows n' count) := by
  unfold addRows
  split
  · exact (alike_ask hn _ _ _).step fun _ => .pure rfl
  · exact alike_add hn _ ⟨rfl, .cons hn .nil⟩ rfl

end Glpk

namespace LpSolve

variable {n n' : Nat}

/-- What is read must not depend on what decides about messages. -/
theorem alike_ask {α : Type} (hn : π.problems n n') (query : Query) (absent : α) {answer : Problem → α}
    (hanswer : ∀ q : Problem, answer q.muted = answer q) :
    Alike (Twins π v v') Eq (ask n query absent answer) (ask n' query absent answer) := by
  unfold ask
  refine Alike.step (alike_call ⟨rfl, .cons hn .nil⟩ rfl) fun carried => ?_
  cases carried with
  | false => exact .pure rfl
  | true =>
    refine .look fun w w' hr => ?_
    -- what is asked for does not depend on the hooks, which `muted` leaves out
    have hsame := Native.Store.lpsolve?_of_muted? (hr.alike.problems hn)
    rcases hq : w.native.lpsolve? n with _ | q <;> rcases hq' : w'.native.lpsolve? n' with _ | q' <;>
      rw [hq, hq'] at hsame
    · exact .pure rfl
    · cases hsame
    · cases hsame
    · have hmuted : q.muted = q'.muted := Option.some.inj hsame
      refine .pure ?_
      rw [← hanswer q, hmuted, hanswer q']

theorem alike_tell {c c' : Call} (hc : (Native.Call.lpsolve c).Alike π (.lpsolve c'))
    (hlife : (Native.Call.lpsolve c).isLife = false) : Alike (Twins π v v') Eq (tell c) (tell c') :=
  (alike_call hc hlife).step fun _ => .pure rfl

theorem alike_columnCount (hn : π.problems n n') :
    Alike (Twins π v v') Eq (columnCount n) (columnCount n') := alike_ask hn _ _ fun _ => rfl

theorem alike_rowCount (hn : π.problems n n') :
    Alike (Twins π v v') Eq (rowCount n) (rowCount n') := alike_ask hn _ _ fun _ => rfl

theorem alike_columnBounds (hn : π.problems n n') (j : Int) :
    Alike (Twins π v v') Eq (columnBounds n j) (columnBounds n' j) :=
  (alike_ask hn _ _ fun _ => rfl).step fun _ => (alike_ask hn _ _ fun _ => rfl).step fun _ => .pure rfl

/-- Columns are refused on both sides at the same point, as both sides have the same permissions. -/
theorem alike_pushColumns (hn : π.problems n n') (count : Nat) :
    Alike (Twins π v v') Eq (pushColumns n count) (pushColumns n' count) := by
  induction count with
  | zero => exact .pure rfl
  | succ count ih =>
    unfold pushColumns
    refine Alike.step (alike_call ⟨rfl, .cons hn .nil⟩ rfl) fun carried => ?_
    -- the allowances are equal, so both calls are carried out or both refused
    cases carried with
    | false => exact .fail _
    | true => exact ih

theorem alike_pushRows (hn : π.problems n n') (count : Nat) :
    Alike (Twins π v v') Eq (pushRows n count) (pushRows n' count) := by
  induction count with
  | zero => exact .pure rfl
  | succ count ih =>
    unfold pushRows
    refine Alike.step (alike_call ⟨rfl, .cons hn .nil⟩ rfl) fun carried => ?_
    cases carried with
    | false => exact .fail _
    | true => exact ih

theorem alike_setEntries (hn : π.problems n n') (entries : List Entry) :
    Alike (Twins π v v') Eq (setEntries n entries) (setEntries n' entries) := by
  induction entries with
  | nil => exact .pure rfl
  | cons e rest ih => exact Alike.step (alike_tell ⟨rfl, .cons hn .nil⟩ rfl) fun _ => ih

theorem alike_setColumnKind (hn : π.problems n n') (j : Int) (kind : VariableKind) :
    Alike (Twins π v v') Eq (setColumnKind n j kind) (setColumnKind n' j kind) := by
  cases kind <;> exact alike_tell ⟨rfl, .cons hn .nil⟩ rfl

theorem alike_setColumnBounds (hn : π.problems n n') (j : Int) (b : Bound) :
    Alike (Twins π v v') Eq (setColumnBounds n j b) (setColumnBounds n' j b) := by
  unfold setColumnBounds
  cases b.kind <;> exact alike_tell ⟨rfl, .cons hn .nil⟩ rfl

/-- A range takes two calls, and both are made on both sides. -/
theorem alike_setRowBounds (hn : π.problems n n') (i : Int) (b : Bound) :
    Alike (Twins π v v') Eq (setRowBounds n i b) (setRowBounds n' i b) := by
  unfold setRowBounds
  cases rowSide? b with
  | none => exact .fail _
  | some side =>
    exact Alike.step (alike_tell ⟨rfl, .cons hn .nil⟩ rfl) fun _ => alike_tell ⟨rfl, .cons hn .nil⟩ rfl

end LpSolve

/-! ## §2 Runs of the solvers -/

namespace Action

/-- A message is only printed. -/
theorem on_sendMessage (hook : Option Handle) (text : Payload) (w : World) :
    ∃ l, (sendMessage hook text).on w = (.ok (), { w with writings := l }) := by
  cases hook with
  | none => exact ⟨w.writings, rfl⟩
  | some h => exact on_forwardMessage h text.terminated w

theorem alike_sendMessage (hook hook' : Option Handle) (text : Payload) :
    Alike (Twins π v v') Eq (sendMessage hook text) (sendMessage hook' text) :=
  alike_notes (on_sendMessage _ _) (on_sendMessage _ _)

/-- The same object is found under a handle, as far as it matters whether to go on. -/
theorem alike_shouldAbort (h : Handle) : Alike (Twins π v v') Eq (shouldAbort h) (shouldAbort h) := by
  unfold shouldAbort
  refine .look fun w w' hr => ?_
  -- the targets behind a handle look alike, up to the models they stand for
  have hresolve : (w.registry.resolve h).map Target.outline = (w'.registry.resolve h).map Target.outline := by
    rw [← Registry.resolve_map, ← Registry.resolve_map, hr.alike.registry]
  -- anything that is no context is logged and does not stop the solver
  have hlog : Alike (Twins π v v') Eq (do logError callbackSource "abort poll failed"; pure false)
      (do logError callbackSource "abort poll failed"; pure false) :=
    (alike_logError _ _ _ _).step fun _ => .pure rfl
  rcases hx : w.registry.resolve h with _ | t <;> rcases hx' : w'.registry.resolve h with _ | t' <;>
    rw [hx, hx'] at hresolve
  · exact .pure rfl
  · cases hresolve
  · cases hresolve
  · have ht : t.outline = t'.outline := Option.some.inj hresolve
    cases t <;> cases t' <;> simp only [Target.outline, reduceCtorEq] at ht
    · exact hlog
    · cases ht
      exact (alike_contextError _).step fun _ => .pure rfl
    · exact hlog
    · next d d' =>
      cases ht
      cases d <;> first | exact .pure rfl | exact hlog

theorem alike_poll (h : Handle) : Alike (Twins π v v') Eq (poll h) (poll h) :=
  .look fun _ _ _ => (alike_shouldAbort h).step fun _ => (Alike.tell _ _).step fun _ => .pure rfl

/-- Hooks for polls in which the same handle is set. -/
theorem alike_pollHook {hooks hooks' : RunHooks} (habort : hooks.abort = hooks'.abort)
    (hstops : hooks.stopsByCall = hooks'.stopsByCall) :
    Alike (Twins π v v') Eq (pollHook hooks) (pollHook hooks') := by
  unfold pollHook
  rw [habort, hstops]
  cases hooks'.abort with
  | none => exact .pure rfl
  | some h =>
    refine (alike_poll h).step fun stop => ?_
    -- stopped alike, by a call or by the answer
    split
    · split
      · exact alike_call ⟨rfl, .nil⟩ rfl
      · exact .pure rfl
    · exact .pure rfl

/-- One event happens alike, whether messages are heard or not. -/
theorem alike_runEvent {hooks hooks' : RunHooks} (habort : hooks.abort = hooks'.abort)
    (hstops : hooks.stopsByCall = hooks'.stopsByCall) (event : RunEvent) :
    Alike (Twins π v v') Eq (runEvent hooks event) (runEvent hooks' event) := by
  cases event with
  | message text => exact (alike_sendMessage _ _ _).step fun _ => .pure rfl
  | poll heeded => exact alike_pollHook habort hstops
  | cancel c =>
    refine (Alike.change fun w w' hr => ?_).step fun _ => .pure rfl
    exact hr.trans (.of_same { hr.alike with contexts := by rw [hr.alike.contexts] }
      rfl rfl rfl rfl rfl rfl rfl rfl rfl rfl)
  -- the clocks are equal, and stay so
  | advance seconds =>
    refine .look fun w w' hr => ?_
    rw [hr.alike.clock]
    refine (Alike.lift _).step fun clock => (Alike.change fun u u' hu => ?_).step fun _ => .pure rfl
    exact hu.trans (.of_same { hu.alike with clock := rfl } rfl rfl rfl rfl rfl rfl rfl rfl rfl rfl)
  | fail fault => exact .fail fault

/-- Schedules run alike if each of their events does. -/
theorem alike_runEvents {hooks hooks' : RunHooks}
    (hevent : ∀ event, Alike (Twins π v v') Eq (runEvent hooks event) (runEvent hooks' event))
    (events : List RunEvent) : Alike (Twins π v v') Eq (runEvents hooks events) (runEvents hooks' events) := by
  -- event by event, as both runs have the same course
  induction events with
  | nil => exact .pure rfl
  | cons event rest ih =>
    refine (hevent event).step fun stop => ?_
    split
    · exact .pure rfl
    · exact ih.step fun _ => .pure rfl

end Action

/-- Runs of one kind on paired problems. The handles for polls are the same where the problems are alike. -/
structure NativeRun.Alike (π : Pairing) (r r' : NativeRun) : Prop where
  left : r.Proper
  right : r'.Proper
  start : r.start.Alike π r'.start
  life : r.start.isLife = false
  problem : π.problems r.problem r'.problem
  abort : ∀ {s s' : Native.Store}, (∀ {n n'}, π.problems n n' → s.muted? n = s'.muted? n') →
    (r.hooks s).abort = (r'.hooks s').abort
  stopsByCall : ∀ s s', (r.hooks s).stopsByCall = (r'.hooks s').stopsByCall
  course : r.course = r'.course
  code : r.code = r'.code
  leave : ∀ s v {q q' : Native.Problem}, q.muted = q'.muted → (r.leave s v q).muted = (r'.leave s v q').muted

namespace NativeRun

variable {n n' : Nat}

theorem Proper.kind {r : NativeRun} (hr : r.Proper) (s : Script) (v : RunValues) (q : Native.Problem) :
    (r.leave s v q).kind? = q.kind? := by
  rw [← Native.Problem.kind?_core, hr.core, Native.Problem.kind?_core]

theorem alike_simplex (hn : π.problems n n') (level presolve : Int) :
    NativeRun.Alike π (simplex n level presolve) (simplex n' level presolve) where
  left := proper_simplex ..
  right := proper_simplex ..
  start := ⟨rfl, .cons hn .nil⟩
  life := rfl
  problem := hn
  abort _ := rfl
  stopsByCall _ _ := rfl
  course := rfl
  code := rfl
  leave s v q q' h := by cases q <;> cases q' <;> simp_all [simplex, Native.Problem.muted]

/-- Searches go together, with one handle for both. -/
theorem alike_integerSearch (hn : π.problems n n') (level presolve : Int) (callback : Option Handle) :
    NativeRun.Alike π (integerSearch n level presolve callback) (integerSearch n' level presolve callback) where
  left := proper_integerSearch ..
  right := proper_integerSearch ..
  start := ⟨rfl, .cons hn .nil⟩
  life := rfl
  problem := hn
  abort _ := rfl
  stopsByCall _ _ := rfl
  course := rfl
  code := rfl
  leave s v q q' h := by cases q <;> cases q' <;> simp_all [integerSearch, Native.Problem.muted]

/-- Solves of lp_solve go together. -/
theorem alike_lpSolve (hn : π.problems n n') : NativeRun.Alike π (lpSolve n) (lpSolve n') where
  left := proper_lpSolve n
  right := proper_lpSolve n'
  start := ⟨rfl, .cons hn .nil⟩
  life := rfl
  problem := hn
  -- what the problems differ in is not the hook for polls
  abort {s s'} h := by
    have hsame := Native.Store.lpsolve?_of_muted? (h hn)
    show ((s.lpsolve? n).getD .fresh).abortHook = ((s'.lpsolve? n').getD .fresh).abortHook
    rcases hq : s.lpsolve? n with _ | q <;> rcases hq' : s'.lpsolve? n' with _ | q' <;> rw [hq, hq'] at hsame
    · cases hsame
    · cases hsame
    · have hmuted : q.muted = q'.muted := Option.some.inj hsame
      show q.muted.abortHook = q'.muted.abortHook
      rw [hmuted]
  stopsByCall _ _ := rfl
  course := rfl
  code := rfl
  leave s v q q' h := by
    cases q <;> cases q' <;>
      simp only [lpSolve, Native.Problem.muted, reduceCtorEq, Native.Problem.lpsolve.injEq] at h ⊢
    · exact h
    · exact congrArg (fun r : LpSolve.Problem => { r with values := v }) h

end NativeRun

/-- **Runs on paired problems** go alike, although one may print and the other not. -/
theorem Action.alike_conduct {r r' : NativeRun} (h : NativeRun.Alike π r r') :
    Alike (Twins π v v') Eq (conduct r) (conduct r') := by
  unfold conduct
  refine (alike_call h.start h.life).step fun carried => ?_
  cases carried with
  | false => exact .pure rfl
  | true =>
    refine .look fun w w' hr => ?_
    -- one script for both runs: its events, its codes and its values are the same
    simp only [hr.alike.script, h.course, h.code]
    refine (alike_runEvents (alike_runEvent (h.abort hr.alike.problems) (h.stopsByCall _ _)) _).step
      fun stopped => (Alike.lift _).step fun values => Alike.step ?_ fun _ => .pure rfl
    exact Alike.change fun _ _ hu => hu.trans
      (.of_modify hu.alike h.problem (h.left.kind _ _) (h.right.kind _ _) (h.leave _ _))

namespace Glpk

variable {n n' : Nat}

theorem alike_simplex (hn : π.problems n n') (parameters : Parameters) (presolve : Bool) :
    Alike (Twins π v v') Eq (simplex n parameters presolve) (simplex n' parameters presolve) := by
  unfold simplex
  refine (Alike.lift _).step fun verbose => (alike_conduct (NativeRun.alike_simplex hn _ _)).step fun code => ?_
  split
  · exact .pure rfl
  · exact (alike_ask hn _ _ _).step fun _ => .pure rfl

theorem alike_search (hn : π.problems n n') (parameters : Parameters) (abort : Option Handle) :
    Alike (Twins π v v') Eq (search n parameters abort) (search n' parameters abort) :=
  (Alike.lift _).step fun _ => (Alike.lift _).step fun _ =>
    (alike_conduct (NativeRun.alike_integerSearch hn _ _ _)).step fun _ =>
      (alike_ask hn _ _ _).step fun _ => .pure rfl

/-- The relaxation is solved on both sides, and the search is started on both or on neither. -/
theorem alike_branchCut (hn : π.problems n n') (parameters : Parameters) (abort : Option Handle) :
    Alike (Twins π v v') Eq (branchCut n parameters abort) (branchCut n' parameters abort) := by
  unfold branchCut
  refine (Alike.lift _).step fun presolve => ?_
  -- the relaxations report alike, so both searches start or neither
  split
  · exact alike_search hn _ _
  · refine (alike_simplex hn _ _).step fun relaxed => ?_
    split
    · exact alike_search hn _ _
    · exact (alike_debug _ _ _ _).step fun _ => .pure rfl

theorem alike_runMethod (hn : π.problems n n') (abort : Option Handle) (method : Method)
    (parameters : Parameters) :
    Alike (Twins π v v') Eq (runMethod n abort method parameters) (runMethod n' abort method parameters) := by
  unfold runMethod
  split
  · exact (Alike.lift _).step fun _ => alike_simplex hn _ _
  · exact alike_branchCut hn _ _

/-- **A solve of GLPK** ends alike on both sides. -/
theorem alike_solve (hn : π.problems n n') (abort : Option Handle) (method : Method)
    (parameters : Parameters) (log : Option Handle) :
    Alike (Twins π v v') Eq (solve n abort method parameters log) (solve n' abort method parameters log) := by
  have hmethod : Alike (Twins π v v') Eq (runMethod n abort method parameters)
      (runMethod n' abort method parameters) := alike_runMethod hn abort method parameters
  unfold solve
  cases log with
  | none => exact hmethod
  | some h => exact Alike.step (alike_tell ⟨rfl, .nil⟩ rfl) fun _ => hmethod.ensuring (alike_tell ⟨rfl, .nil⟩ rfl)

end Glpk

namespace LpSolve

variable {n n' : Nat}

/-- **A solve of lp_solve** ends alike on both sides. -/
theorem alike_solve (hn : π.problems n n') (parameters : Parameters) (log : Option Handle) :
    Alike (Twins π v v') Eq (solve n parameters log) (solve n' parameters log) := by
  unfold solve
  refine (Alike.lift _).step fun verbose => Alike.step (alike_tell ⟨rfl, .cons hn .nil⟩ rfl) fun _ => ?_
  cases log with
  | none => exact (alike_conduct (NativeRun.alike_lpSolve hn)).step fun _ => .pure rfl
  | some h =>
    refine Alike.step (alike_tell ⟨rfl, .cons hn .nil⟩ rfl) fun _ => Alike.step ?_ fun _ => .pure rfl
    exact (alike_conduct (NativeRun.alike_lpSolve hn)).ensuring (alike_tell ⟨rfl, .cons hn .nil⟩ rfl)

theorem alike_primal (hn : π.problems n n') (j : Int) :
    Alike (Twins π v v') Eq (primal n j) (primal n' j) :=
  (alike_rowCount hn).step fun _ => alike_ask hn _ _ fun _ => rfl

theorem alike_dual (hn : π.problems n n') (j : Int) : Alike (Twins π v v') Eq (dual n j) (dual n' j) :=
  (alike_rowCount hn).step fun _ => alike_ask hn _ _ fun _ => rfl

end LpSolve

/-! ## §3 Engines of either kind -/

namespace Engine.Alike

variable {e e' : Engine}

/-- An operation is alike for alike engines if it is alike on each library. -/
private theorem by_kind {α : Type} {Q : α → α → Prop} (he : e.Alike π e') {glpk lpsolve glpk' lpsolve' : Action α}
    (hglpk : Action.Alike (Twins π v v') Q glpk glpk')
    (hlpsolve : Action.Alike (Twins π v v') Q lpsolve lpsolve') :
    Action.Alike (Twins π v v') Q (match e.kind with | .glpk => glpk | .lpsolve => lpsolve)
      (match e'.kind with | .glpk => glpk' | .lpsolve => lpsolve') := by
  rw [← he.kind]
  cases e.kind with
  | glpk => exact hglpk
  | lpsolve => exact hlpsolve

theorem checkName (he : e.Alike π e') (name : String) :
    Action.Alike (Twins π v v') Eq (e.checkName name) (e'.checkName name) := he.by_kind (.lift _) (.pure rfl)

theorem setName (he : e.Alike π e') (name : String) :
    Action.Alike (Twins π v v') Eq (e.setName name) (e'.setName name) :=
  (he.checkName name).step fun _ => he.by_kind (Glpk.alike_tell ⟨rfl, .cons he.number .nil⟩ rfl)
    (LpSolve.alike_tell ⟨rfl, .cons he.number .nil⟩ rfl)

theorem name (he : e.Alike π e') : Action.Alike (Twins π v v') Eq e.name e'.name :=
  he.by_kind (Glpk.alike_ask he.number _ _ _) (LpSolve.alike_ask he.number _ _ fun _ => rfl)

theorem setDirection (he : e.Alike π e') (d : Direction) :
    Action.Alike (Twins π v v') Eq (e.setDirection d) (e'.setDirection d) :=
  he.by_kind (Glpk.alike_tell ⟨rfl, .cons he.number .nil⟩ rfl)
    (LpSolve.alike_tell ⟨rfl, .cons he.number .nil⟩ rfl)

theorem direction (he : e.Alike π e') : Action.Alike (Twins π v v') Eq e.direction e'.direction := by
  refine he.by_kind ?_ ?_
  · exact (Glpk.alike_ask he.number _ _ _).step fun _ => .pure rfl
  · exact (LpSolve.alike_ask he.number _ _ fun _ => rfl).step fun _ => .pure rfl

theorem columnCount (he : e.Alike π e') : Action.Alike (Twins π v v') Eq e.columnCount e'.columnCount :=
  he.by_kind (Glpk.alike_ask he.number _ _ _) (LpSolve.alike_columnCount he.number)

theorem rowCount (he : e.Alike π e') : Action.Alike (Twins π v v') Eq e.rowCount e'.rowCount :=
  he.by_kind (Glpk.alike_ask he.number _ _ _) (LpSolve.alike_rowCount he.number)

/-- A negative number of columns is refused on both sides. -/
theorem addColumns (he : e.Alike π e') (count : Int) :
    Action.Alike (Twins π v v') Eq (e.addColumns count) (e'.addColumns count) := by
  unfold Engine.addColumns
  split
  · exact .fail _
  · refine he.by_kind (Glpk.alike_addColumns he.number _) ?_
    exact (LpSolve.alike_columnCount he.number).step fun _ =>
      (LpSolve.alike_pushColumns he.number _).step fun _ => .pure rfl

theorem setColumnName (he : e.Alike π e') (j : Int) (name : String) :
    Action.Alike (Twins π v v') Eq (e.setColumnName j name) (e'.setColumnName j name) :=
  (he.checkName name).step fun _ => he.by_kind (Glpk.alike_tell ⟨rfl, .cons he.number .nil⟩ rfl)
    (LpSolve.alike_tell ⟨rfl, .cons he.number .nil⟩ rfl)

theorem columnName (he : e.Alike π e') (j : Int) :
    Action.Alike (Twins π v v') Eq (e.columnName j) (e'.columnName j) :=
  he.by_kind (Glpk.alike_ask he.number _ _ _) (LpSolve.alike_ask he.number _ _ fun _ => rfl)

theorem setColumnKind (he : e.Alike π e') (j : Int) (kind : VariableKind) :
    Action.Alike (Twins π v v') Eq (e.setColumnKind j kind) (e'.setColumnKind j kind) :=
  he.by_kind (Glpk.alike_tell ⟨rfl, .cons he.number .nil⟩ rfl) (LpSolve.alike_setColumnKind he.number j kind)

theorem setColumnBounds (he : e.Alike π e') (j : Int) (b : Bound) :
    Action.Alike (Twins π v v') Eq (e.setColumnBounds j b) (e'.setColumnBounds j b) :=
  he.by_kind (Glpk.alike_tell ⟨rfl, .cons he.number .nil⟩ rfl) (LpSolve.alike_setColumnBounds he.number j b)

theorem columnBounds (he : e.Alike π e') (j : Int) :
    Action.Alike (Twins π v v') Eq (e.columnBounds j) (e'.columnBounds j) :=
  he.by_kind (Glpk.alike_columnBounds he.number j) (LpSolve.alike_columnBounds he.number j)

theorem setObjective (he : e.Alike π e') (j : Int) (coefficient : Float) :
    Action.Alike (Twins π v v') Eq (e.setObjective j coefficient) (e'.setObjective j coefficient) :=
  he.by_kind (Glpk.alike_tell ⟨rfl, .cons he.number .nil⟩ rfl)
    (LpSolve.alike_tell ⟨rfl, .cons he.number .nil⟩ rfl)

theorem objective (he : e.Alike π e') (j : Int) :
    Action.Alike (Twins π v v') Eq (e.objective j) (e'.objective j) :=
  he.by_kind (Glpk.alike_ask he.number _ _ _) (LpSolve.alike_ask he.number _ _ fun _ => rfl)

theorem addRows (he : e.Alike π e') (count : Int) :
    Action.Alike (Twins π v v') Eq (e.addRows count) (e'.addRows count) := by
  unfold Engine.addRows
  split
  · exact .fail _
  · refine he.by_kind (Glpk.alike_addRows he.number _) ?_
    exact (LpSolve.alike_rowCount he.number).step fun _ =>
      (LpSolve.alike_pushRows he.number _).step fun _ => .pure rfl

theorem setRowBounds (he : e.Alike π e') (i : Int) (b : Bound) :
    Action.Alike (Twins π v v') Eq (e.setRowBounds i b) (e'.setRowBounds i b) :=
  he.by_kind (Glpk.alike_tell ⟨rfl, .cons he.number .nil⟩ rfl) (LpSolve.alike_setRowBounds he.number i b)

theorem addBoundedRow (he : e.Alike π e') (b : Bound) :
    Action.Alike (Twins π v v') Eq (e.addBoundedRow b) (e'.addBoundedRow b) :=
  (he.addRows 1).step fun i => (he.setRowBounds i b).step fun _ => .pure rfl

/-- A bound takes the same rows on both sides. -/
theorem addRow (he : e.Alike π e') (b : Bound) :
    Action.Alike (Twins π v v') Eq (e.addRow b) (e'.addRow b) := by
  unfold Engine.addRow
  rw [← he.kind]
  -- GLPK stores any bound as one row, lp_solve a double one as two and a free one as none
  split
  · exact (he.addBoundedRow _).step fun _ => (he.addBoundedRow _).step fun _ => .pure rfl
  · split
    · exact .pure rfl
    · exact (he.addBoundedRow b).step fun _ => .pure rfl

theorem loadMatrix (he : e.Alike π e') (t : Triplets) :
    Action.Alike (Twins π v v') Eq (e.loadMatrix t) (e'.loadMatrix t) :=
  he.by_kind (Glpk.alike_tell ⟨rfl, .cons he.number .nil⟩ rfl) (LpSolve.alike_setEntries he.number _)

/-- Engines that are alike report the same outcome. -/
theorem solve (he : e.Alike π e') (method : Method) (parameters : Parameters) (log : Option Handle) :
    Action.Alike (Twins π v v') Eq (e.solve method parameters log) (e'.solve method parameters log) := by
  unfold Engine.solve
  rw [← he.abort]
  exact he.by_kind (Glpk.alike_solve he.number _ _ _ _) (LpSolve.alike_solve he.number _ _)

theorem primal (he : e.Alike π e') (j : Int) (method : Method) :
    Action.Alike (Twins π v v') Eq (e.primal j method) (e'.primal j method) := by
  refine he.by_kind ?_ (LpSolve.alike_primal he.number j)
  unfold Glpk.primal
  split <;> exact Glpk.alike_ask he.number _ _ _

/-- Where the one side has no dual values, the other has none either. -/
theorem dual (he : e.Alike π e') (j : Int) (method : Method) :
    Action.Alike (Twins π v v') Eq (e.dual j method) (e'.dual j method) := by
  refine he.by_kind ?_ (LpSolve.alike_dual he.number j)
  unfold Glpk.dual
  split
  · exact .fail _
  · exact Glpk.alike_ask he.number _ _ _

theorem objectiveValue (he : e.Alike π e') (method : Method) :
    Action.Alike (Twins π v v') Eq (e.objectiveValue method) (e'.objectiveValue method) := by
  refine he.by_kind ?_ (LpSolve.alike_ask he.number _ _ fun _ => rfl)
  unfold Glpk.objectiveValue
  split <;> exact Glpk.alike_ask he.number _ _ _

end Engine.Alike

end LinearProgram
