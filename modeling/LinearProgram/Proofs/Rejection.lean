import LinearProgram.Proofs.Refusal
import LinearProgram.Proofs.Results
import LinearProgram.Proofs.Shape

/-!
# Operations that are rejected

Everything that an operation is given is checked before anything changes: `Operation.Objectionable` lists what
there is to object to. `Action.Decides` ties an action to such a list. It says that the action fails exactly if
something on the list is the case, and that nothing but calls that read happens then. It is put together along
the steps of the action, one check after the other.

`World.rejected_without_trace` is the outcome for the operations that build a model, in every state, states
after a shortage of memory included.
-/

namespace LinearProgram

/-! ## §1 Arguments that cannot be read -/

/-- The integer is beyond all doubles. -/
def Number.TooLarge (n : Number) : Prop := n.toFloat? = none

/-- The number is no number. -/
def Number.NotANumber (n : Number) : Prop := ∃ x, n.toFloat? = some x ∧ x.isNaN = true

theorem Number.toDouble_fails_iff (n : Number) : (∃ fault, n.toDouble = .error fault) ↔ n.TooLarge := by
  unfold toDouble TooLarge
  cases n.toFloat? <;> simp

theorem Number.mapM_toDouble_fails_iff (ns : List Number) :
    (∃ fault, ns.mapM toDouble = .error fault) ↔ ∃ n ∈ ns, n.TooLarge := by
  have hall : (∃ xs, ns.mapM toDouble = .ok xs) ↔ ∀ n ∈ ns, n.toDouble.isOk = true := Entries.mapM_isOk_iff
  -- a number fails to convert only by being too large
  have hone (n : Number) : n.toDouble.isOk = true ↔ ¬ n.TooLarge := by
    rw [← toDouble_fails_iff]
    cases n.toDouble <;> simp [Except.isOk, Except.toBool]
  simp only [hone] at hall
  cases hns : ns.mapM toDouble with
  | error fault =>
    have hnot : ¬ ∀ n ∈ ns, ¬ n.TooLarge := fun h => by simpa [hns] using hall.mpr h
    simpa using hnot
  | ok xs =>
    have hnone := hall.mp ⟨xs, hns⟩
    simpa using hnone

/-- The numbers cannot be a pair of bounds. -/
def Bound.Unreadable (lower upper : Number) : Prop :=
  lower.TooLarge ∨ upper.TooLarge ∨ lower.NotANumber ∨ upper.NotANumber

/-- Bounds are refused exactly if they cannot be read: one is too large, or NaN. -/
theorem Bound.encodeNumbers_fails_iff (lower upper : Number) :
    (∃ fault, encodeNumbers lower upper = .error fault) ↔ Unreadable lower upper := by
  unfold encodeNumbers Unreadable Number.toDouble Number.TooLarge Number.NotANumber
  cases hl : lower.toFloat? with
  | none => exact iff_of_true ⟨_, rfl⟩ (.inl rfl)
  | some l =>
    cases hu : upper.toFloat? with
    | none => exact iff_of_true ⟨_, rfl⟩ (.inr (.inl rfl))
    | some u =>
      show (∃ fault, encode l u = .error fault) ↔ _
      -- two doubles are refused only for a NaN
      have hencode : (∃ fault, encode l u = .error fault) ↔ l.isNaN = true ∨ u.isNaN = true := by
        unfold encode
        by_cases hnan : (l.isNaN || u.isNaN) = true
        · rw [if_pos hnan]
          simpa using hnan
        · rw [if_neg hnan]
          have hnone : ¬ (l.isNaN = true ∨ u.isNaN = true) := by simpa using hnan
          refine iff_of_false ?_ hnone
          rintro ⟨fault, h⟩
          repeat' split at h
          all_goals cases h
      rw [hencode]
      simp

/-- The value is the name of no alternative. -/
def Choice.Unknown (α : Type) [Choice α] (d : Datum) : Prop := ∀ a ∈ Choice.all (α := α), d ≠ .text (name a)

/-- A plain value is refused exactly if it is no name of an alternative. -/
theorem Choice.read_fails_iff {α : Type} [Choice α] (d : Datum) :
    (∃ fault, (read d : Except Fault α) = .error fault) ↔ Unknown α d := by
  unfold read Unknown
  cases d with
  | text s =>
    dsimp only
    cases hs : (ofName? s : Option α) with
    | none =>
      have hnone := List.find?_eq_none.mp hs
      refine iff_of_true ⟨_, rfl⟩ fun a ha hsame => hnone a ha ?_
      cases hsame
      exact beq_self_eq_true _
    | some a =>
      have hname : (name a == s) = true := List.find?_some (p := fun a => name a == s) hs
      refine iff_of_false (fun ⟨_, h⟩ => nomatch h) fun hnot => ?_
      exact hnot a (List.mem_of_find?_eq_some hs) (by rw [eq_of_beq hname])
  -- anything that is not a text names no choice
  | _ => exact iff_of_true ⟨_, rfl⟩ fun _ _ h => nomatch h

/-- Lists are refused exactly if their lengths differ. -/
theorem Model.checkLengths_fails_iff (arguments : List VariableArgument) (coefficients : List Number) :
    (∃ fault, checkLengths arguments coefficients = .error fault) ↔
      arguments.length ≠ coefficients.length := by
  unfold checkLengths
  split <;> simp [*]

/-- The description of a variable is refused exactly if one of its parts is. -/
theorem Model.VariableDraft.read_fails_iff (kind : Datum) (coefficient lower upper : Number) :
    (∃ fault, VariableDraft.read kind coefficient lower upper = .error fault) ↔
      Choice.Unknown VariableKind kind ∨ Bound.Unreadable lower upper ∨ coefficient.TooLarge := by
  rw [← Choice.read_fails_iff, ← Bound.encodeNumbers_fails_iff, ← Number.toDouble_fails_iff]
  unfold VariableDraft.read
  -- read in this order: the kind, the bounds, the coefficient
  cases (Choice.read kind : Except Fault VariableKind) with
  | error fault => exact iff_of_true ⟨fault, rfl⟩ (.inl ⟨fault, rfl⟩)
  | ok k =>
    cases Bound.encodeNumbers lower upper with
    | error fault => exact iff_of_true ⟨fault, rfl⟩ (.inr (.inl ⟨fault, rfl⟩))
    | ok b =>
      cases coefficient.toDouble with
      | error fault => exact iff_of_true ⟨fault, rfl⟩ (.inr (.inr ⟨fault, rfl⟩))
      | ok x => exact iff_of_false (fun ⟨_, h⟩ => nomatch h) (by simp)

/-! ## §2 Names that cannot be chosen -/

namespace VariableName

/-- The names for `count` variables from position `index` on cannot all be chosen: after some of them, the next
one was given and is taken, or it is too long for GLPK. -/
def Blocked (kind : EngineKind) (given : Nat → String) (taken : List String) (index count : Nat) : Prop :=
  ∃ names, Chosen given taken index names ∧ names.length < count ∧
    let next := given (index + names.length)
    (next ≠ "" ∧ next ∈ taken ++ names) ∨
      (kind = .glpk ∧ ∃ name, pick (taken ++ names) next (index + names.length) = .ok name ∧
        Glpk.longestName < name.utf8ByteSize)

/-- A name is refused exactly if it is given and taken. -/
theorem pick_fails_iff (taken : List String) (given : String) (index : Nat) :
    (∃ fault, pick taken given index = .error fault) ↔ given ≠ "" ∧ given ∈ taken := by
  unfold pick
  by_cases hgiven : given = ""
  · simp [hgiven]
  · by_cases htaken : given ∈ taken <;> simp [hgiven, htaken]

theorem blocked_zero (kind : EngineKind) (given : Nat → String) (taken : List String) (index : Nat) :
    ¬ Blocked kind given taken index 0 := fun ⟨_, _, hlt, _⟩ => Nat.not_lt_zero _ hlt

/-- The first name cannot be chosen, or one of those that follow it. -/
theorem blocked_succ_iff {kind : EngineKind} {given : Nat → String} {taken : List String} {index count : Nat} :
    Blocked kind given taken index (count + 1) ↔ (given index ≠ "" ∧ given index ∈ taken) ∨
      ∃ name, pick taken (given index) index = .ok name ∧
        ((kind = .glpk ∧ Glpk.longestName < name.utf8ByteSize) ∨
          Blocked kind given (taken ++ [name]) (index + 1) count) := by
  constructor
  · rintro ⟨names, hchosen, hlt, hnext⟩
    cases hchosen with
    | done =>
      rcases hnext with htaken | ⟨hk, name, hpick, hlong⟩
      · exact .inl (by simpa using htaken)
      · exact .inr ⟨name, by simpa using hpick, .inl ⟨hk, hlong⟩⟩
    | @next _ _ name names first rest =>
      -- the names after the first are chosen from the next position on, with the first among those taken
      have hplace : index + (name :: names).length = index + 1 + names.length := by
        rw [List.length_cons]
        omega
      have hlist : taken ++ name :: names = taken ++ [name] ++ names := by simp
      rw [hplace, hlist] at hnext
      exact .inr ⟨name, first, .inr ⟨names, rest, Nat.lt_of_succ_lt_succ hlt, hnext⟩⟩
  · rintro (htaken | ⟨name, hpick, hlong | ⟨names, hchosen, hlt, hnext⟩⟩)
    · exact ⟨[], .done, Nat.succ_pos _, .inl (by simpa using htaken)⟩
    · exact ⟨[], .done, Nat.succ_pos _, .inr ⟨hlong.1, name, by simpa using hpick, hlong.2⟩⟩
    · have hplace : index + (name :: names).length = index + 1 + names.length := by
        rw [List.length_cons]
        omega
      have hlist : taken ++ name :: names = taken ++ [name] ++ names := by simp
      refine ⟨name :: names, .next hpick hchosen, Nat.succ_lt_succ hlt, ?_⟩
      rw [hplace, hlist]
      exact hnext

end VariableName

/-- Only GLPK looks at a name beforehand, and only at its length. -/
theorem Engine.on_checkName (e : Engine) (name : String) (w : World) :
    (e.checkName name).on w =
      (if e.kind = .glpk ∧ Glpk.longestName < name.utf8ByteSize then .error (.nameTooLong name) else .ok (),
        w) := by
  unfold checkName Glpk.checkName
  cases e.kind with
  | glpk =>
    dsimp only
    rw [Action.on_lift]
    simp
  -- lp_solve has no limit on names
  | lpsolve => simp

/-- Choosing names fails exactly if they are blocked. -/
theorem Model.pickNames_fails_iff (e : Engine) (taken : List String) (given : Nat → String)
    (count index : Nat) (w : World) :
    (∃ fault, (pickNames e taken given count index).on w = (.error fault, w)) ↔
      VariableName.Blocked e.kind given taken index count := by
  -- names that were chosen are taken for those that follow
  induction count generalizing taken index with
  | zero => exact iff_of_false (fun ⟨_, h⟩ => nomatch h) (VariableName.blocked_zero _ _ _ _)
  | succ count ih =>
    rw [VariableName.blocked_succ_iff, ← VariableName.pick_fails_iff]
    unfold pickNames
    cases hpick : VariableName.pick taken (given index) index with
    | error fault => exact iff_of_true ⟨fault, rfl⟩ (.inl ⟨fault, rfl⟩)
    | ok name =>
      obtain ⟨rest, hrest, -⟩ := on_pickNames e (taken ++ [name]) given count (index + 1)
      have hlater := ih (taken ++ [name]) (index + 1)
      rw [hrest] at hlater
      have hexists (P : String → Prop) : ((∃ fault, (.ok name : Except Fault String) = .error fault) ∨
          ∃ name', (.ok name : Except Fault String) = .ok name' ∧ P name') ↔ P name := by simp
      rw [hexists, Action.on_bind_of_ok (Action.on_lift _ w), Action.on_bind, Engine.on_checkName]
      by_cases hlong : e.kind = .glpk ∧ Glpk.longestName < name.utf8ByteSize
      · rw [if_pos hlong]
        exact iff_of_true ⟨_, rfl⟩ (.inl hlong)
      · rw [if_neg hlong]
        dsimp only
        rw [Action.on_bind, hrest, ← hlater]
        cases rest <;> simp [hlong]

/-! ## §3 Actions that check first -/

namespace World

/-- The model is not open, or something is the case that bars it from an operation. -/
def Barred (w : World) (m : ModelId) (bad : Model → Prop) : Prop :=
  w.Closed m ∨ ∃ model, w.model? m = some model ∧ model.freed = false ∧ bad model

theorem barred_false_iff {w : World} {m : ModelId} : w.Barred m (fun _ => False) ↔ w.Closed m := by
  simp [Barred]

end World

namespace Action

variable {α β : Type} {w : World} {m : ModelId} {bad bad' stray : Prop}

/-- The action fails, and nothing happens but calls that read. -/
def Fails (w : World) (a : Action α) : Prop :=
  ∃ fault cs, a.on w = (.error fault, w.reading cs) ∧ ∀ c ∈ cs, c.isRead = true

theorem Fails.of_on {a : Action α} {fault : Fault} (h : a.on w = (.error fault, w)) : Fails w a :=
  ⟨fault, [], by rw [h, World.reading_nil], fun _ hc => nomatch hc⟩

theorem Fails.bind {a : Action α} (h : Fails w a) (f : α → Action β) : Fails w (a >>= f) := by
  obtain ⟨fault, cs, hon, hcs⟩ := h
  exact ⟨fault, cs, on_bind_of_error hon f, hcs⟩

theorem fails_openModel (h : w.Closed m) : Fails w (openModel m) := by
  rcases on_openModel_cases m w with ⟨model, hm, hf, -⟩ | hon
  · exact Bool.noConfusion ((h model hm).symm.trans hf)
  · exact .of_on hon

/-- If `bad` is the case, the action fails, and nothing happens but calls that read. Otherwise it does not
fail, except in the case `stray`, of which nothing is said. -/
def Decides (w : World) (a : Action α) (bad stray : Prop) : Prop :=
  (bad ∧ Fails w a) ∨ (¬ bad ∧ (stray ∨ ∃ x w', a.on w = (.ok x, w')))

namespace Decides

theorem of_fails {a : Action α} (hbad : bad) (h : Fails w a) : Decides w a bad stray := .inl ⟨hbad, h⟩

theorem of_ok {a : Action α} (hbad : ¬ bad) {x : α} {w' : World} (h : a.on w = (.ok x, w')) :
    Decides w a bad stray := .inr ⟨hbad, .inr ⟨x, w', h⟩⟩

theorem congr {a : Action α} (h : Decides w a bad stray) (hbad : bad ↔ bad') : Decides w a bad' stray :=
  propext hbad ▸ h

/-- A step that neither fails nor does anything. -/
theorem after_ok {a : Action α} {x : α} (ha : a.on w = (.ok x, w)) {f : α → Action β}
    (h : Decides w (f x) bad stray) : Decides w (a >>= f) bad stray := by
  unfold Decides Fails at h ⊢
  rwa [on_bind_of_ok ha]

/-- A last step that does not fail. -/
theorem andThen {a : Action α} (h : Decides w a bad stray) (f : α → β) :
    Decides w (a >>= fun x => pure (f x)) bad stray := by
  rcases h with ⟨hbad, hfails⟩ | ⟨hbad, hstray | ⟨x, w', hon⟩⟩
  · exact of_fails hbad (hfails.bind _)
  · exact .inr ⟨hbad, .inl hstray⟩
  · exact of_ok hbad (on_bind_of_ok hon _)

theorem map {a : Action α} (h : Decides w a bad stray) (f : α → β) : Decides w (f <$> a) bad stray :=
  map_eq_pure_bind f a ▸ h.andThen f

/-- A check of the arguments alone. -/
theorem after_lift {r : Except Fault α} {f : α → Action β} (hr : (∃ fault, r = .error fault) ↔ bad)
    (hf : ∀ x, r = .ok x → Decides w (f x) bad' stray) : Decides w (lift r >>= f) (bad ∨ bad') stray := by
  cases r with
  | error fault => exact of_fails (.inl (hr.mp ⟨fault, rfl⟩)) (.of_on (on_bind_of_error (on_lift _ w) f))
  | ok x =>
    have hbad : ¬ bad := fun hbad => nomatch (hr.mpr hbad).choose_spec
    have hsame : Decides w (lift (.ok x) >>= f) bad' stray := after_ok (on_lift _ w) (hf x rfl)
    exact hsame.congr (by simp [hbad])

/-- The check that a model is open. -/
theorem after_openModel {f : Model → Action β} {bad : Model → Prop}
    (hf : ∀ model, w.model? m = some model → model.freed = false → Decides w (f model) (bad model) stray) :
    Decides w (openModel m >>= f) (w.Barred m bad) stray := by
  rcases w.closed_or_open m with hclosed | ⟨model, hm, hf'⟩
  · exact of_fails (.inl hclosed) ((fails_openModel hclosed).bind f)
  · -- an open model: the rest decides
    have hopen : ¬ w.Closed m := fun hclosed => Bool.noConfusion ((hclosed model hm).symm.trans hf')
    have hsame : Decides w (openModel m >>= f) (bad model) stray :=
      after_ok (on_openModel_of_open hm hf') (hf model hm hf')
    refine hsame.congr ⟨fun hbad => .inr ⟨model, hm, hf', hbad⟩, ?_⟩
    rintro (hclosed | ⟨model', hm', -, hbad⟩)
    · exact absurd hclosed hopen
    · cases hm.symm.trans hm'
      exact hbad

end Decides

end Action

/-! ## §4 Lists of variables -/

/-- The argument is one of the first `count` variables of the model. -/
def VariableArgument.IsOf (m : ModelId) (count : Nat) : VariableArgument → Prop
  | .variable v => v.model = m ∧ 0 ≤ v.index ∧ v.index < count
  | .plain _ => False

namespace Model

variable {w : World} {m : ModelId} {model : Model}

/-- Checking variables fails if one of the arguments is none of the model; otherwise it leaves no trace. -/
theorem checkVariables_decides (hw : w.Compliant) (m : ModelId) (count : Nat)
    (arguments : List VariableArgument) :
    ((∃ a ∈ arguments, ¬ a.IsOf m count) ∧ Action.Fails w (checkVariables m count arguments)) ∨
      (¬ (∃ a ∈ arguments, ¬ a.IsOf m count) ∧
        ∃ vars, (checkVariables m count arguments).on w = (.ok vars, w)) := by
  induction arguments with
  | nil => exact .inr ⟨by simp, [], rfl⟩
  | cons a rest ih =>
    match a with
    | .plain d => exact .inl ⟨⟨_, List.mem_cons_self .., id⟩, .of_on rfl⟩
    | .variable v =>
      unfold checkVariables
      by_cases hv : v.model = m ∧ 0 ≤ v.index ∧ v.index < count
      · rw [if_pos hv]
        have hiff : (∃ a ∈ VariableArgument.variable v :: rest, ¬ a.IsOf m count) ↔
            ∃ a ∈ rest, ¬ a.IsOf m count := by
          simp [VariableArgument.IsOf, hv]
        rw [hiff]
        rcases ih with ⟨hbad, hfails⟩ | ⟨hbad, vars, hon⟩
        · exact .inl ⟨hbad, hfails.bind _⟩
        · exact .inr ⟨hbad, v :: vars, Action.on_bind_of_ok hon _⟩
      · rw [if_neg hv]
        refine .inl ⟨⟨_, List.mem_cons_self .., hv⟩, ?_⟩
        -- the fault shows the variable, so its name may be read first
        have hreads := v.isRead_displayCalls w
        obtain ⟨r, hdisplay, -⟩ := Variable.on_display hw v
        unfold Action.Fails
        rw [Action.on_bind, hdisplay]
        cases r with
        | error fault => exact ⟨fault, _, rfl, hreads⟩
        | ok text => exact ⟨_, _, rfl, hreads⟩

/-! ## §5 Operations on models -/

/-- Columns are refused exactly if the model is closed or one of their names is blocked. -/
theorem addColumns_decides (hs : w.Sound) (m : ModelId) (count : Nat) (given : Nat → String)
    (d : VariableDraft) :
    Action.Decides w (addColumns m count given d)
      (w.Barred m fun model => ∃ n q, model.engine.Owns w.native n q ∧
        VariableName.Blocked model.engine.kind given model.names q.columnCount count) False := by
  unfold addColumns
  refine .after_openModel fun model hm hf => ?_
  obtain ⟨n, q, -, ho⟩ := hs.holds_of_model? hm hf
  -- the number of columns is read before the names are chosen, and they are all chosen before a column is made
  have hread := Engine.on_columnCount (hs.compliant.grants model.engine.columnCountCall.function) ho
  have hblocked := pickNames_fails_iff model.engine model.names given count q.columnCount
    (w.after model.engine.columnCountCall)
  obtain ⟨r, hpick, -⟩ := on_pickNames model.engine model.names given count q.columnCount
  rw [hpick] at hblocked
  cases r with
  | error fault =>
    have hcount : model.engine.columnCountCall.isRead = true := by
      unfold Engine.columnCountCall
      cases model.engine.kind <;> rfl
    refine .of_fails ⟨n, q, ho, hblocked.mp ⟨fault, rfl⟩⟩
      ⟨fault, [model.engine.columnCountCall], ?_, by simpa using hcount⟩
    rw [Action.on_bind_of_ok hread, Action.on_bind_of_error (hpick _), World.after_eq_reading w hcount]
  | ok names =>
    have hfree : ¬ ∃ n' q', model.engine.Owns w.native n' q' ∧
        VariableName.Blocked model.engine.kind given model.names q'.columnCount count := by
      rintro ⟨n', q', ho', hblocked'⟩
      obtain ⟨rfl, rfl⟩ := ho.unique ho'
      exact nomatch (hblocked.mpr hblocked').choose_spec
    obtain ⟨-, -, hadd⟩ := on_addColumns_of_picked hs.compliant hm hf ho hpick d
    refine .of_ok hfree (Eq.trans ?_ hadd)
    unfold addColumns
    rw [Action.on_bind_of_ok (Action.on_openModel_of_open hm hf)]

/-- Rows can be added, and a model that is there can be changed: a constraint is accepted once its arguments have
been checked, and adding its rows takes all calls. -/
theorem on_addConstraint_of_own (hs : w.Sound) (hm : w.model? m = some model) (hf : model.freed = false) {n : Nat}
    {q : Native.Problem} (ho : model.engine.Owns w.native n q) {lower upper : Number}
    {arguments : List VariableArgument} {coefficients : List Number}
    (hlen : checkLengths arguments coefficients = .ok ()) {b : Bound}
    (hb : Bound.encodeNumbers lower upper = .ok b) {cs : List Float}
    (hcs : coefficients.mapM Number.toDouble = .ok cs) {vars : List Variable}
    (hc : (checkVariables m model.kinds.length arguments).on w = (.ok vars, w)) :
    ∃ w', (addConstraint m lower upper arguments coefficients).on w = (.ok (), w') ∧
      w.callsSince w' = model.engine.rowsCalls q.rowCount (Engine.rowBounds model.engine.kind b) := by
  obtain ⟨-, hon⟩ := on_addConstraint_of_checked hm hf hlen hb hcs hc
  have hm₁ : (w.afterAll (model.engine.rowsCalls q.rowCount
      (Engine.rowBounds model.engine.kind b))).model? m = some model :=
    (World.afterAll_model? w _ m).trans hm
  obtain ⟨l, hlast⟩ := on_enterRows hm₁ ((vars.map Variable.column).zip cs)
    (Engine.rowNumbers q.rowCount (Engine.rowBounds model.engine.kind b).length)
  rw [Action.on_bind_of_ok (Engine.on_addRow hs.compliant ho b), hlast] at hon
  exact ⟨_, hon, World.callsSince_of_calls _ (World.afterAll_calls w _)⟩

/-- A constraint is refused exactly if its arguments cannot be read, the model is closed, or one of the
variables is not its own. -/
theorem addConstraint_decides (hs : w.Sound) (m : ModelId) (lower upper : Number)
    (arguments : List VariableArgument) (coefficients : List Number) :
    Action.Decides w (addConstraint m lower upper arguments coefficients)
      (arguments.length ≠ coefficients.length ∨ Bound.Unreadable lower upper ∨
        (∃ c ∈ coefficients, c.TooLarge) ∨
          w.Barred m fun model => ∃ a ∈ arguments, ¬ a.IsOf m model.kinds.length) False := by
  unfold addConstraint
  refine .after_lift (checkLengths_fails_iff arguments coefficients) fun _ hlen => ?_
  refine .after_lift (Bound.encodeNumbers_fails_iff lower upper) fun b hb => ?_
  refine .after_lift (Number.mapM_toDouble_fails_iff coefficients) fun cs hcs => ?_
  refine .after_openModel fun model hm hf => ?_
  -- past the checks of the numbers only the variables can still be wrong
  rcases checkVariables_decides hs.compliant m model.kinds.length arguments with ⟨hbad, hfails⟩ | ⟨hbad, vars, hc⟩
  · exact .of_fails hbad (hfails.bind _)
  · obtain ⟨n, q, -, ho⟩ := hs.holds_of_model? hm hf
    obtain ⟨w', hon, -⟩ := on_addConstraint_of_own hs hm hf ho hlen hb hcs hc
    refine .of_ok hbad (Eq.trans ?_ hon)
    unfold addConstraint
    rw [hlen, hb, hcs, Action.on_bind_of_ok (Action.on_lift _ w), Action.on_bind_of_ok (Action.on_lift _ w),
      Action.on_bind_of_ok (Action.on_lift _ w), Action.on_bind_of_ok (Action.on_openModel_of_open hm hf)]

/-- An objective is refused for the same reasons, bounds apart. -/
theorem setObjective_decides (hs : w.Sound) (m : ModelId) (coefficients : List Number)
    (arguments : List VariableArgument) :
    Action.Decides w (setObjective m coefficients arguments)
      (arguments.length ≠ coefficients.length ∨ (∃ c ∈ coefficients, c.TooLarge) ∨
        w.Barred m fun model => ∃ a ∈ arguments, ¬ a.IsOf m model.kinds.length) False := by
  unfold setObjective
  refine .after_lift (checkLengths_fails_iff arguments coefficients) fun _ _ => ?_
  refine .after_lift (Number.mapM_toDouble_fails_iff coefficients) fun cs _ => ?_
  refine .after_openModel fun model hm hf => ?_
  rcases checkVariables_decides hs.compliant m model.kinds.length arguments with ⟨hbad, hfails⟩ | ⟨hbad, vars, hon⟩
  · exact .of_fails hbad (hfails.bind _)
  · exact .of_ok hbad ((Action.on_bind_of_ok hon _).trans (on_setObjectives hs.compliant _ _))

theorem setDirection_decides (hs : w.Sound) (m : ModelId) (direction : Datum) :
    Action.Decides w (setDirection m direction) (Choice.Unknown Direction direction ∨ w.Closed m) False := by
  unfold setDirection
  refine .after_lift (Choice.read_fails_iff direction) fun d _ => ?_
  exact (Action.Decides.after_openModel fun model hm hf =>
    .of_ok id (Engine.on_setDirection hs.compliant d)).congr World.barred_false_iff

end Model

/-! ## §6 Operations on variables -/

namespace Variable

variable {w : World} {v : Variable}

/-- The model does not have the kind of the variable. -/
def Strays (v : Variable) (w : World) : Prop :=
  ∃ model, w.model? v.model = some model ∧ place? model.kinds.length v.index = none

/-- A kind is refused exactly if it is unknown or the model is closed; a variable behind the last one is
another matter. -/
theorem setKind_decides (hs : w.Sound) (v : Variable) (kind : Datum) :
    Action.Decides w (v.setKind kind) (Choice.Unknown VariableKind kind ∨ w.Closed v.model) (v.Strays w) := by
  unfold setKind
  refine .after_lift (Choice.read_fails_iff kind) fun k hk => ?_
  refine Action.Decides.congr (Action.Decides.after_openModel fun model hm hf => ?_) World.barred_false_iff
  have hon := on_setKind hs.compliant hm hf hk
  unfold setKind at hon
  rw [hk, Action.on_bind_of_ok (Action.on_lift _ w),
    Action.on_bind_of_ok (Action.on_openModel_of_open hm hf)] at hon
  cases hp : place? model.kinds.length v.index with
  -- the engine is told first, and only then is the list of kinds found too short
  | none => exact .inr ⟨id, .inl ⟨model, hm, hp⟩⟩
  | some i =>
    rw [hp] at hon
    exact .of_ok id hon

/-- Bounds are refused exactly if they cannot be read or the model is closed. -/
theorem setBounds_decides (hs : w.Sound) (v : Variable) (lower upper : Number) :
    Action.Decides w (v.setBounds lower upper) (Bound.Unreadable lower upper ∨ w.Closed v.model)
      (v.Strays w) := by
  unfold setBounds
  refine .after_lift (Bound.encodeNumbers_fails_iff lower upper) fun b _ => ?_
  rcases w.closed_or_open v.model with hclosed | ⟨model, hm, hf⟩
  · exact .of_fails hclosed (((Action.fails_openModel hclosed).bind _).bind _)
  have hopen : ¬ w.Closed v.model := fun hclosed => Bool.noConfusion ((hclosed model hm).symm.trans hf)
  -- bounds of a binary variable are ignored, so its kind is looked up first
  have hkind := on_kind hm hf
  cases hp : place? model.kinds.length v.index with
  | none => exact .inr ⟨hopen, .inl ⟨model, hm, hp⟩⟩
  | some i =>
    obtain ⟨k, hk⟩ : ∃ k, model.kinds[i]? = some k := ⟨_, List.getElem?_eq_getElem (place?_lt hp)⟩
    rw [hp, Option.bind_some, hk] at hkind
    refine .after_ok hkind ?_
    by_cases hbinary : k = .binary
    · rw [if_pos hbinary]
      exact .of_ok hopen (Action.on_debug ..)
    · rw [if_neg hbinary]
      exact .after_ok (Action.on_openModel_of_open hm hf)
        (.of_ok hopen (Engine.on_setColumnBounds hs.compliant.lenient v.column b))

theorem setCoefficient_decides (hs : w.Sound) (v : Variable) (coefficient : Number) :
    Action.Decides w (v.setCoefficient coefficient) (coefficient.TooLarge ∨ w.Closed v.model) False := by
  unfold setCoefficient
  refine .after_lift (Number.toDouble_fails_iff coefficient) fun x _ => ?_
  exact (Action.Decides.after_openModel fun model hm hf =>
    .of_ok id (Engine.on_setObjective hs.compliant.lenient v.column x)).congr World.barred_false_iff

end Variable

/-! ## §7 Operations -/

namespace Operation

/-- The operation builds up model `m` or changes it: it adds variables or a constraint, sets the objective or
the direction, or changes a variable. -/
def Builds (m : ModelId) : Operation → Prop
  | addVariable m' .. | addVariables m' .. | addConstraint m' .. | setObjective m' .. | setDirection m' _ =>
    m' = m
  | setKind v _ | setBounds v .. | setCoefficient v _ => v.model = m
  | _ => False

/-- Something is wrong with the arguments of the operation, whatever they are used on. -/
def Malformed : Operation → Prop
  | addVariable _ _ kind c l u => Choice.Unknown VariableKind kind ∨ Bound.Unreadable l u ∨ c.TooLarge
  | addVariables _ count _ kind c l u =>
    count < 0 ∨ Choice.Unknown VariableKind kind ∨ Bound.Unreadable l u ∨ c.TooLarge
  | addConstraint _ l u arguments cs =>
    arguments.length ≠ cs.length ∨ Bound.Unreadable l u ∨ ∃ c ∈ cs, c.TooLarge
  | setObjective _ cs arguments => arguments.length ≠ cs.length ∨ ∃ c ∈ cs, c.TooLarge
  | setDirection _ direction => Choice.Unknown Direction direction
  | setKind _ kind => Choice.Unknown VariableKind kind
  | setBounds _ l u => Bound.Unreadable l u
  | setCoefficient _ c => c.TooLarge
  | _ => False

/-- The arguments of the operation do not suit the model: a name cannot be chosen, or something in a list is no
variable of the model. -/
def Unsuited (w : World) (m : ModelId) (model : Model) : Operation → Prop
  | o@(addVariable ..) => ∃ n q, model.engine.Owns w.native n q ∧
    VariableName.Blocked model.engine.kind o.given model.names q.columnCount 1
  | o@(addVariables _ count ..) => ∃ n q, model.engine.Owns w.native n q ∧
    VariableName.Blocked model.engine.kind o.given model.names q.columnCount count.toNat
  | addConstraint _ _ _ arguments _ | setObjective _ _ arguments =>
    ∃ a ∈ arguments, ¬ a.IsOf m model.kinds.length
  | _ => False

/-- There is something to object to: the arguments are malformed, the model is not open, or the arguments do
not suit it. -/
def Objectionable (w : World) (m : ModelId) (o : Operation) : Prop :=
  o.Malformed ∨ w.Barred m fun model => o.Unsuited w m model

/-- The operation is about a variable whose kind its model does not have. -/
def Strays (w : World) : Operation → Prop
  | setKind v _ | setBounds v .. => v.Strays w
  | _ => False

/-- The operations that build models are refused exactly for the listed objections. -/
theorem decides {w : World} (hs : w.Sound) {m : ModelId} {o : Operation} (ho : o.Builds m) :
    Action.Decides w o.run (o.Objectionable w m) (o.Strays w) := by
  -- the operations that describe something are refused for it first, the others only for what they name
  cases o with
  | addVariable m' name kind c l u =>
    obtain rfl : m' = m := ho
    refine Action.Decides.map ?_ _
    exact .after_lift (Model.VariableDraft.read_fails_iff kind c l u) fun d _ =>
      (Model.addColumns_decides hs m' 1 (fun _ => name) d).andThen _
  | addVariables m' count stem kind c l u =>
    obtain rfl : m' = m := ho
    refine Action.Decides.map ?_ _
    unfold Model.addVariables
    by_cases hneg : count < 0
    · rw [if_pos hneg]
      exact .of_fails (.inl (.inl hneg)) (.of_on rfl)
    · rw [if_neg hneg]
      have hadd := Action.Decides.after_lift (Model.VariableDraft.read_fails_iff kind c l u) fun d _ =>
        Model.addColumns_decides hs m' count.toNat (addVariables m' count stem kind c l u).given d
      exact hadd.congr (by
        simp only [Objectionable, Malformed, hneg, false_or]
        rfl)
  | addConstraint m' l u arguments cs =>
    obtain rfl : m' = m := ho
    exact ((Model.addConstraint_decides hs m' l u arguments cs).map _).congr (by
      simp [Objectionable, Malformed, Unsuited, or_assoc])
  | setObjective m' cs arguments =>
    obtain rfl : m' = m := ho
    exact ((Model.setObjective_decides hs m' cs arguments).map _).congr (by
      simp [Objectionable, Malformed, Unsuited, or_assoc])
  | setDirection m' direction =>
    obtain rfl : m' = m := ho
    exact ((Model.setDirection_decides hs m' direction).map _).congr (or_congr_right World.barred_false_iff.symm)
  | setKind v kind =>
    obtain rfl : v.model = m := ho
    exact ((v.setKind_decides hs kind).map _).congr (or_congr_right World.barred_false_iff.symm)
  | setBounds v l u =>
    obtain rfl : v.model = m := ho
    exact ((v.setBounds_decides hs l u).map _).congr (or_congr_right World.barred_false_iff.symm)
  | setCoefficient v c =>
    obtain rfl : v.model = m := ho
    exact ((v.setCoefficient_decides hs c).map _).congr (or_congr_right World.barred_false_iff.symm)
  | _ => exact ho.elim

end Operation

/-- Unless there was a shortage of memory, a model has the kinds of all variables that it created. -/
theorem Variable.not_strays {os : List Operation} {v : Variable} {model : Model}
    (hm : (World.initial.nextAll os).model? v.model = some model) (hf : model.freed = false)
    (hv : v ∈ model.vars) : ¬ v.Strays (World.initial.nextAll os) := by
  rintro ⟨model', hm', hp⟩
  cases hm.symm.trans hm'
  obtain ⟨n, q, hh, -⟩ := (World.sound_nextAll World.sound_initial os).holds_of_model? hm hf
  have haligned := World.aligned_nextAll World.aligned_initial World.sound_initial os hh
  have hvars : model.vars = Model.newVariables v.model 0 q.core.columnCount := haligned.vars
  have hkinds : model.kinds.length = q.core.columnCount := haligned.kinds
  rw [hvars] at hv
  obtain ⟨i, hi, hsame⟩ := List.mem_map.mp hv
  have hlt := List.mem_range.mp hi
  -- the variables of a model are numbered in order, as many as its kinds
  have hindex : v.index = i := by
    rw [← hsame]
    exact Int.zero_add _
  unfold place? at hp
  rw [hkinds, hindex, if_pos (by omega), Int.toNat_natCast, if_pos hlt] at hp
  cases hp

namespace World

variable {w : World}

/-- **What is rejected leaves no trace.** In every state, even after shortages of memory, an operation that
builds up or changes a model is refused if there is something to object to. Then the state is as it was, apart
from the record of calls that read, and the same results are usable. And there is nothing else for which such an
operation is refused, unless the model does not have the kind of the variable. -/
theorem rejected_without_trace (h : w.Reachable) {m : ModelId} {o : Operation} (ho : o.Builds m) :
    (o.Objectionable w m →
      (∃ fault cs, o.run.on w = (.error fault, w.reading cs) ∧ ∀ c ∈ cs, c.isRead = true) ∧
        ∀ r : SolveResult, r.Usable (w.next o) ↔ r.Usable w) ∧
      (¬ o.Objectionable w m → o.Strays w ∨ ∃ a, (o.run.on w).1 = .ok a) := by
  rcases Operation.decides h.sound ho with ⟨hbad, hfails⟩ | ⟨hbad, hstray | ⟨a, w', hon⟩⟩
  · refine ⟨fun _ => ⟨hfails, fun r => ?_⟩, fun hnot => absurd hbad hnot⟩
    obtain ⟨fault, cs, hon, -⟩ := hfails
    -- reading leaves the models as they are, hence the results too
    rw [SolveResult.usable_iff_current (h.next o).sound, SolveResult.usable_iff_current h.sound]
    unfold next
    rw [hon]
    exact Iff.rfl
  · exact ⟨fun hobjection => absurd hobjection hbad, fun _ => .inl hstray⟩
  · exact ⟨fun hobjection => absurd hobjection hbad, fun _ => .inr ⟨a, by rw [hon]⟩⟩

/-- On GLPK, a batch is rejected as a whole if only its second name is too long, which has one digit more than
the first. -/
theorem batch_with_long_name :
    let w := initial.nextAll [.create "" (.text "minimize") [.engine (.named (.text "glpk"))],
      .addVariables 0 9 "" (.text "continuous") (.int 1) (.int 0) (.int 1)]
    let o (count : Int) : Operation := .addVariables 0 count (String.ofList (List.replicate 254 'x'))
      (.text "continuous") (.int 1) (.int 0) (.int 1)
    (∃ a, ((o 1).run.on w).1 = .ok a) ∧
      ∃ fault cs, (o 3).run.on w = (.error fault, w.reading cs) ∧ ∀ c ∈ cs, c.isRead = true := by
  intro w o
  have hone : ((o 1).run.on w).1.toOption.isSome = true := by decide +kernel
  have hthree : ((o 3).run.on w).1.toOption = none := by decide +kernel
  obtain ⟨a, ha⟩ := Option.isSome_iff_exists.mp hone
  refine ⟨⟨a, eq_ok_of_toOption ha⟩, ?_⟩
  obtain ⟨hrejected, haccepted⟩ := rejected_without_trace (Reachable.initial.nextAll _ : w.Reachable)
    (m := 0) (o := o 3) rfl
  -- the batch raises, so it was objectionable
  by_cases hobjection : (o 3).Objectionable w 0
  · exact (hrejected hobjection).1
  · rcases haccepted hobjection with hstray | ⟨a, ha⟩
    · exact hstray.elim
    · rw [ha] at hthree
      cases hthree

end World

end LinearProgram
