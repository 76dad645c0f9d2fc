import LinearProgram.Proofs.Rejection
import LinearProgram.Proofs.Shortage

/-!
# Which columns calls name

A native library must not be asked for a column that a problem does not have: GLPK ends the whole program then.
An operation that is given a list of variables checks all of them before it makes a call for any. But the
message for a variable that does not belong to the model shows the variable, and showing it reads its name,
from whatever model it belongs to. Nothing checks that this model has its column.

`Model.checkVariables_cases` says which calls a check makes, and `Action.Takes` what comes of an operation on a
list. With `World.Reachable.filled` it follows when all calls of the operation name columns that there are:
always, unless the first argument that is foreign is a variable that its own, open model does not have,
`World.columns_named`.
-/

namespace LinearProgram

/-! ## §1 Calls in range -/

namespace Native

/-- The column that the call names, if any, is one of the problem that it is made for. -/
def Call.InRange (s : Store) (c : Call) : Prop :=
  ∀ j, c.column? = some j → ∀ n ∈ c.problems, ∃ q, s.problem? n = some q ∧ 1 ≤ j ∧ j ≤ q.columnCount

theorem Call.inRange_of_column?_eq_none {c : Call} (h : c.column? = none) (s : Store) : c.InRange s := by
  intro j hj
  rw [h] at hj
  cases hj

/-- A call for one column of one problem. -/
theorem Call.inRange_iff {s : Store} {c : Call} {j : Int} {n : Nat} {q : Problem} (hc : c.column? = some j)
    (hn : c.problems = [n]) (hq : s.problem? n = some q) : c.InRange s ↔ 1 ≤ j ∧ j ≤ q.columnCount := by
  simp [InRange, hc, hn, hq]

end Native

namespace Engine

variable {e : Engine} {w : World} {n : Nat} {q : Native.Problem}

/-- Asking for the name of a column is in range if the column exists. -/
theorem inRange_columnNameCall (ho : e.Owns w.native n q) (j : Int) :
    (e.columnNameCall j).InRange w.native ↔ 1 ≤ j ∧ j ≤ q.columnCount := by
  refine Native.Call.inRange_iff ?_ ?_ ho.found
  · unfold columnNameCall
    cases e.kind <;> rfl
  · rw [← ho.number]
    unfold columnNameCall
    cases e.kind <;> rfl

/-- Setting a coefficient of the objective is in range if the column exists. -/
theorem inRange_objectiveCall (ho : e.Owns w.native n q) (j : Int) (x : Float) :
    (e.objectiveCall j x).InRange w.native ↔ 1 ≤ j ∧ j ≤ q.columnCount := by
  refine Native.Call.inRange_iff ?_ ?_ ho.found
  · unfold objectiveCall
    cases e.kind <;> rfl
  · rw [← ho.number]
    unfold objectiveCall
    cases e.kind <;> rfl

/-- Adding rows names no columns. -/
theorem column?_rowsCalls (e : Engine) (rows : Nat) (bs : List Bound) :
    ∀ c ∈ e.rowsCalls rows bs, c.column? = none := by
  intro c hc
  cases rowCall_of_rowsCalls hc with
  | count =>
    unfold rowCountCall
    cases e.kind <;> rfl
  | _ => rfl

end Engine

/-! ## §2 Showing a variable -/

namespace Variable

variable {w : World} {v : Variable}

/-- The model of the variable is open, and its problem does not have the column. -/
def Misses (v : Variable) (w : World) : Prop :=
  ∃ model n q, w.model? v.model = some model ∧ model.freed = false ∧ model.engine.Owns w.native n q ∧
    ¬ (0 ≤ v.index ∧ v.index < q.columnCount)

/-- Showing a variable is in range unless its own, open model does not have its column. -/
theorem inRange_displayCalls (hs : w.Sound) (v : Variable) :
    (∀ c ∈ v.displayCalls w, c.InRange w.native) ↔ ¬ v.Misses w := by
  unfold displayCalls Misses
  cases hm : w.model? v.model with
  | none => simp
  | some model =>
    cases hf : model.freed with
    | true => simp [hf]
    | false =>
      obtain ⟨n, q, -, ho⟩ := hs.holds_of_model? hm hf
      have hrange : 1 ≤ v.column ∧ v.column ≤ q.columnCount ↔ 0 ≤ v.index ∧ v.index < q.columnCount := by
        unfold column
        omega
      have hone : (∀ c ∈ (if model.freed = true then [] else [model.engine.columnNameCall v.column]),
          c.InRange w.native) ↔ 0 ≤ v.index ∧ v.index < q.columnCount := by
        simp only [hf, Bool.false_eq_true, if_false, List.mem_singleton, forall_eq]
        exact (Engine.inRange_columnNameCall ho v.column).trans hrange
      dsimp only
      rw [hone]
      refine ⟨?_, fun h => ?_⟩
      · -- the model that misses the column is the one that was found
        rintro hin ⟨model', n', q', hm', -, ho', hout⟩
        cases hm'
        obtain ⟨rfl, rfl⟩ := ho.unique ho'
        exact hout hin
      · by_contra hout
        exact h ⟨model, n, q, rfl, hf, ho, hout⟩

end Variable

/-! ## §3 Checking a list -/

namespace VariableArgument

instance (m : ModelId) (count : Nat) : (a : VariableArgument) → Decidable (a.IsOf m count)
  | .variable v => inferInstanceAs (Decidable (v.model = m ∧ 0 ≤ v.index ∧ v.index < count))
  | .plain _ => inferInstanceAs (Decidable False)

/-- The first argument that is none of the first `count` variables of the model. -/
def foreign? (m : ModelId) (count : Nat) (arguments : List VariableArgument) : Option VariableArgument :=
  arguments.find? fun a => !decide (a.IsOf m count)

theorem foreign?_eq_none_iff {m : ModelId} {count : Nat} {arguments : List VariableArgument} :
    foreign? m count arguments = none ↔ ∀ a ∈ arguments, a.IsOf m count := by
  simp [foreign?]

/-- The calls that it takes to say in a message what the argument is. -/
def displayCalls (w : World) : VariableArgument → List Native.Call
  | .variable v => v.displayCalls w
  | .plain _ => []

end VariableArgument

namespace Model

variable {w : World} {m : ModelId} {model : Model}

/-- A check of variables makes no calls, but for those that show the first argument that is foreign. -/
theorem checkVariables_cases (hw : w.Compliant) (m : ModelId) (count : Nat) {arguments : List VariableArgument}
    (hknown : ∀ a ∈ arguments, a.Known w) :
    (VariableArgument.foreign? m count arguments = none ∧
      ∃ vars, (checkVariables m count arguments).on w = (.ok vars, w)) ∨
    ∃ a fault, VariableArgument.foreign? m count arguments = some a ∧
      (checkVariables m count arguments).on w = (.error fault, w.reading (a.displayCalls w)) ∧
      fault.kind = .validation := by
  induction arguments with
  | nil => exact .inl ⟨rfl, [], rfl⟩
  | cons a rest ih =>
    match a with
    | .plain d => exact .inr ⟨.plain d, _, rfl, by rw [VariableArgument.displayCalls, World.reading_nil]; rfl, rfl⟩
    | .variable v =>
      unfold checkVariables
      -- the first argument is passed over if the model has it, and is shown otherwise
      by_cases hv : v.model = m ∧ 0 ≤ v.index ∧ v.index < count
      · have hof : (VariableArgument.variable v).IsOf m count := hv
        have hfirst : VariableArgument.foreign? m count (.variable v :: rest) =
            VariableArgument.foreign? m count rest :=
          List.find?_cons_of_neg (by simp [hof])
        rw [if_pos hv, hfirst]
        rcases ih fun a ha => hknown a (List.mem_cons_of_mem _ ha) with
          ⟨hnone, vars, hon⟩ | ⟨a, fault, hsome, hon, hkind⟩
        · exact .inl ⟨hnone, v :: vars, Action.on_bind_of_ok hon _⟩
        · exact .inr ⟨a, fault, hsome, Action.on_bind_of_error hon _, hkind⟩
      · have hof : ¬ (VariableArgument.variable v).IsOf m count := hv
        have hfirst : VariableArgument.foreign? m count (.variable v :: rest) = some (.variable v) :=
          List.find?_cons_of_pos (by simp [hof])
        obtain ⟨text, hdisplay⟩ := Variable.on_display_of_known hw (hknown (.variable v) (List.mem_cons_self ..))
        rw [if_neg hv]
        exact .inr ⟨.variable v, .foreignVariable text, hfirst, Action.on_bind_of_ok hdisplay _, rfl⟩

end Model

/-! ## §4 Actions that take a list -/

namespace Action

variable {α β : Type} {w : World} {m : ModelId} {model : Model} {arguments : List VariableArgument}
  {bad bad' large large' : Prop}

/-- What comes of an action that is given a list of variables for an open model: something else is wrong, which
is `bad`; or the first foreign argument is refused, after it was shown; or all arguments are variables of the
model, and the calls name the columns of these at most. It is `large` if a number is beyond all doubles, and
without that, all refusals are for invalid arguments. -/
inductive Takes (w : World) (m : ModelId) (model : Model) (arguments : List VariableArgument) (bad large : Prop)
    (a : Action α) : Prop
  | malformed {fault} (h : bad) (hon : a.on w = (.error fault, w)) (hkind : ¬ large → fault.kind = .validation) :
    Takes w m model arguments bad large a
  | foreign {x fault} (h : ¬ bad) (hx : VariableArgument.foreign? m model.kinds.length arguments = some x)
      (hon : a.on w = (.error fault, w.reading (x.displayCalls w))) (hkind : fault.kind = .validation) :
    Takes w m model arguments bad large a
  | accepted {y w'} (hall : ∀ x ∈ arguments, x.IsOf m model.kinds.length) (hon : a.on w = (.ok y, w'))
      (hcalls : ∀ c ∈ w.callsSince w', c.column? = none ∨
        ∃ v x, .variable v ∈ arguments ∧ c = model.engine.objectiveCall v.column x) :
    Takes w m model arguments bad large a

namespace Takes

/-- A check of the other arguments. -/
theorem after_lift {r : Except Fault α} {f : α → Action β} (hr : (∃ fault, r = .error fault) ↔ bad)
    (hkind : ∀ fault, r = .error fault → ¬ large → fault.kind = .validation)
    (hf : ∀ x, r = .ok x → Takes w m model arguments bad' large' (f x)) :
    Takes w m model arguments (bad ∨ bad') (large ∨ large') (lift r >>= f) := by
  cases r with
  | error fault =>
    exact .malformed (.inl (hr.mp ⟨fault, rfl⟩)) (on_bind_of_error (on_lift _ w) f)
      fun hsmall => hkind fault rfl fun h => hsmall (.inl h)
  | ok x =>
    have hfine : ¬ bad := fun hbad => nomatch (hr.mpr hbad).choose_spec
    have hrest : (lift (.ok x) >>= f).on w = (f x).on w := on_bind_of_ok (on_lift _ w) f
    -- the step passed, so the class of the rest is that of the whole
    cases hf x rfl with
    | malformed h hon hkind => exact .malformed (.inr h) (hrest.trans hon) fun hsmall => hkind fun h => hsmall (.inr h)
    | foreign h hx hon hkind => exact .foreign (by simp [hfine, h]) hx (hrest.trans hon) hkind
    | accepted hall hon hcalls => exact .accepted hall (hrest.trans hon) hcalls

/-- The check that the model is open, and that of the list; what follows makes few calls. -/
theorem after_checks (hs : w.Sound) (hm : w.model? m = some model) (hf : model.freed = false)
    (hknown : ∀ x ∈ arguments, x.Known w) {f : Model → List Variable → Action α}
    (h : ∀ vars, (Model.checkVariables m model.kinds.length arguments).on w = (.ok vars, w) →
      ∃ y w', (f model vars).on w = (.ok y, w') ∧ ∀ c ∈ w.callsSince w', c.column? = none ∨
        ∃ v x, .variable v ∈ arguments ∧ c = model.engine.objectiveCall v.column x) :
    Takes w m model arguments False False (do
      let model ← openModel m
      let vars ← Model.checkVariables m model.kinds.length arguments
      f model vars) := by
  have hopen {g : Model → Action α} : (openModel m >>= g).on w = (g model).on w :=
    on_bind_of_ok (on_openModel_of_open hm hf) g
  rcases Model.checkVariables_cases hs.compliant m model.kinds.length hknown with
    ⟨hnone, vars, hon⟩ | ⟨x, fault, hx, hon, hkind⟩
  · obtain ⟨y, w', hlast, hcalls⟩ := h vars hon
    exact .accepted (VariableArgument.foreign?_eq_none_iff.mp hnone)
      (hopen.trans ((on_bind_of_ok hon (f model)).trans hlast)) hcalls
  · -- the first foreign variable stops the check, and nothing behind it is read
    exact .foreign id hx (hopen.trans (on_bind_of_error hon (f model))) hkind

theorem map {a : Action α} (h : Takes w m model arguments bad large a) (f : α → β) :
    Takes w m model arguments bad large (f <$> a) := by
  cases h with
  | malformed h hon hkind => exact .malformed h (by rw [on_map, hon]; rfl) hkind
  | foreign h hx hon hkind => exact .foreign h hx (by rw [on_map, hon]; rfl) hkind
  | accepted hall hon hcalls => exact .accepted hall (by rw [on_map, hon]; rfl) hcalls

theorem congr {a : Action α} (h : Takes w m model arguments bad large a) (hbad : bad ↔ bad')
    (hlarge : large ↔ large') : Takes w m model arguments bad' large' a := propext hbad ▸ propext hlarge ▸ h

end Takes

end Action

/-- Bounds that are doubles are refused as invalid arguments. -/
theorem Bound.kind_of_encodeNumbers {l u : Number} {fault : Fault} (h : encodeNumbers l u = .error fault)
    (hsmall : ¬ (l.TooLarge ∨ u.TooLarge)) : fault.kind = .validation := by
  cases hx : l.toDouble with
  | error fault => exact absurd (.inl ((Number.toDouble_fails_iff l).mp ⟨fault, hx⟩)) hsmall
  | ok x =>
    cases hy : u.toDouble with
    | error fault => exact absurd (.inr ((Number.toDouble_fails_iff u).mp ⟨fault, hy⟩)) hsmall
    | ok y =>
      unfold encodeNumbers at h
      rw [hx, hy] at h
      have hencode : encode x y = .error fault := h
      unfold encode at hencode
      -- NaN is the only other thing that is refused
      split_ifs at hencode
      cases hencode
      rfl

namespace Model

variable {w : World} {m : ModelId} {model : Model} {arguments : List VariableArgument}

/-- Lists of different lengths are refused as invalid arguments. -/
theorem kind_of_checkLengths {coefficients : List Number} {fault : Fault}
    (h : checkLengths arguments coefficients = .error fault) : fault.kind = .validation := by
  unfold checkLengths at h
  split_ifs at h
  cases h
  rfl

/-- How adding a constraint takes its arguments. -/
theorem addConstraint_takes (hs : w.Sound) (hm : w.model? m = some model) (hf : model.freed = false)
    (hknown : ∀ x ∈ arguments, x.Known w) (l u : Number) (coefficients : List Number) :
    Action.Takes w m model arguments
      (arguments.length ≠ coefficients.length ∨ Bound.Unreadable l u ∨ (∃ c ∈ coefficients, c.TooLarge) ∨ False)
      (False ∨ (l.TooLarge ∨ u.TooLarge) ∨ (∃ c ∈ coefficients, c.TooLarge) ∨ False)
      (addConstraint m l u arguments coefficients) := by
  unfold addConstraint
  refine .after_lift (checkLengths_fails_iff arguments coefficients) (fun _ h _ => kind_of_checkLengths h)
    fun _ hlen => ?_
  refine .after_lift (Bound.encodeNumbers_fails_iff l u) (fun _ h => Bound.kind_of_encodeNumbers h) fun b hb => ?_
  have hlarge := Number.mapM_toDouble_fails_iff coefficients
  refine .after_lift hlarge (fun fault h hsmall => absurd (hlarge.mp ⟨fault, h⟩) hsmall) fun cs hcs => ?_
  refine .after_checks hs hm hf hknown fun vars hc => ?_
  obtain ⟨n, q, -, ho⟩ := hs.holds_of_model? hm hf
  obtain ⟨w', hon, hcalls⟩ := on_addConstraint_of_own hs hm hf ho hlen hb hcs hc
  -- what is left after the checks is all that the operation does
  unfold addConstraint at hon
  rw [hlen, hb, hcs, Action.on_bind_of_ok (Action.on_lift _ w), Action.on_bind_of_ok (Action.on_lift _ w),
    Action.on_bind_of_ok (Action.on_lift _ w), Action.on_bind_of_ok (Action.on_openModel_of_open hm hf),
    Action.on_bind_of_ok hc] at hon
  refine ⟨(), w', hon, fun c hcall => .inl ?_⟩
  rw [hcalls] at hcall
  exact Engine.column?_rowsCalls _ _ _ c hcall

/-- How setting the objective takes its arguments. -/
theorem setObjective_takes (hs : w.Sound) (hm : w.model? m = some model) (hf : model.freed = false)
    (hknown : ∀ x ∈ arguments, x.Known w) (coefficients : List Number) :
    Action.Takes w m model arguments
      (arguments.length ≠ coefficients.length ∨ (∃ c ∈ coefficients, c.TooLarge) ∨ False)
      (False ∨ (∃ c ∈ coefficients, c.TooLarge) ∨ False) (setObjective m coefficients arguments) := by
  unfold setObjective
  refine .after_lift (checkLengths_fails_iff arguments coefficients) (fun _ h _ => kind_of_checkLengths h)
    fun _ _ => ?_
  have hlarge := Number.mapM_toDouble_fails_iff coefficients
  refine .after_lift hlarge (fun fault h hsmall => absurd (hlarge.mp ⟨fault, h⟩) hsmall) fun cs _ => ?_
  refine .after_checks hs hm hf hknown fun vars hc => ?_
  obtain ⟨-, hvars, -⟩ := on_checkVariables_ok hc
  -- past the checks every call sets the coefficient of some given variable
  refine ⟨(), _, on_setObjectives hs.compliant model.engine (vars.zip cs), fun c hcall => .inr ?_⟩
  rw [World.callsSince_afterAll] at hcall
  obtain ⟨⟨v, x⟩, ht, rfl⟩ := List.mem_map.mp hcall
  exact ⟨v, x, hvars ▸ List.mem_map_of_mem (List.of_mem_zip ht).1, rfl⟩

end Model

/-! ## §5 Operations on lists -/

namespace Operation

/-- The operation is given a list of variables for model `m`. -/
def Lists (m : ModelId) (arguments : List VariableArgument) : Operation → Prop
  | addConstraint m' _ _ arguments' _ | setObjective m' _ arguments' => m' = m ∧ arguments' = arguments
  | _ => False

/-- One of the numbers that come with the list is beyond all doubles. -/
def Overflows : Operation → Prop
  | addConstraint _ l u _ cs => (l.TooLarge ∨ u.TooLarge) ∨ ∃ c ∈ cs, c.TooLarge
  | setObjective _ cs _ => ∃ c ∈ cs, c.TooLarge
  | _ => False

/-- Every operation that is given a list of variables takes its arguments in this way. -/
theorem takes {w : World} {m : ModelId} {model : Model} {arguments : List VariableArgument} {o : Operation}
    (hs : w.Sound) (hm : w.model? m = some model) (hf : model.freed = false) (ho : o.Lists m arguments)
    (hknown : ∀ x ∈ arguments, x.Known w) : Action.Takes w m model arguments o.Malformed o.Overflows o.run := by
  cases o with
  | addConstraint m' l u arguments' coefficients =>
    obtain ⟨rfl, rfl⟩ := ho
    exact ((Model.addConstraint_takes hs hm hf hknown l u coefficients).map _).congr (by simp [Malformed])
      (by simp [Overflows])
  | setObjective m' coefficients arguments' =>
    obtain ⟨rfl, rfl⟩ := ho
    exact ((Model.setObjective_takes hs hm hf hknown coefficients).map _).congr (by simp [Malformed])
      (by simp [Overflows])
  | _ => exact ho.elim

end Operation

namespace World

variable {w : World} {m : ModelId} {model : Model} {arguments : List VariableArgument} {o : Operation}

/-- **Which columns are named for a list of variables.** In every reachable state, all calls that an operation
makes for a list name columns that there are, unless the list comes to be checked and its first foreign argument
is a variable that its own, open model does not have: then its name is read for the message. A list with a
foreign argument is refused, as invalid unless a number with it is too large. -/
theorem columns_named (h : w.Reachable) (hm : w.model? m = some model) (hf : model.freed = false)
    (ho : o.Lists m arguments) (hknown : ∀ a ∈ arguments, a.Known w) :
    ((∀ c ∈ w.callsSince (w.next o), c.InRange w.native) ↔
      (o.Malformed ∨ ∀ v, VariableArgument.foreign? m model.kinds.length arguments = some (.variable v) →
        ¬ v.Misses w)) ∧
    ((∃ a ∈ arguments, ¬ a.IsOf m model.kinds.length) →
      ∃ fault, (o.run.on w).1 = .error fault ∧ (¬ o.Overflows → fault.kind = .validation)) := by
  have hs := h.sound
  unfold next
  cases Operation.takes hs hm hf ho hknown with
  | @malformed fault hbad hon hkind =>
    rw [hon]
    refine ⟨iff_of_true ?_ (.inl hbad), fun _ => ⟨fault, rfl, hkind⟩⟩
    rw [callsSince_self]
    exact fun c hc => nomatch hc
  | @foreign a fault hfine ha hon hkind =>
    rw [hon]
    refine ⟨?_, fun _ => ⟨fault, rfl, fun _ => hkind⟩⟩
    have hcalls : w.callsSince (w.reading (a.displayCalls w)) = a.displayCalls w := callsSince_of_calls _ rfl
    rw [hcalls, or_iff_right hfine, ha]
    cases a with
    | plain d => exact iff_of_true (fun c hc => nomatch hc) fun v hv => nomatch hv
    | «variable» v =>
      refine (Variable.inRange_displayCalls hs v).trans ⟨?_, fun hnot => hnot v rfl⟩
      rintro hnot v' hv
      cases hv
      exact hnot
  | @accepted answer w' hall hon hcalls =>
    rw [hon]
    refine ⟨iff_of_true (fun c hc => ?_) (.inr fun v hv => ?_), ?_⟩
    · rcases hcalls c hc with hnone | ⟨v, x, hv, rfl⟩
      · exact Native.Call.inRange_of_column?_eq_none hnone _
      -- the model has the kind of the variable, and its problem has a column for each kind
      obtain ⟨n, q, hh, howns⟩ := hs.holds_of_model? hm hf
      have hcovered := h.filled.1 hh
      rw [Native.Problem.columnCount_core] at hcovered
      have hkinds : model.kinds.length ≤ q.columnCount := hcovered
      obtain ⟨-, hfirst, hlast⟩ : v.model = m ∧ 0 ≤ v.index ∧ v.index < model.kinds.length := hall _ hv
      refine (Engine.inRange_objectiveCall howns v.column x).mpr ?_
      unfold Variable.column
      omega
    · rw [VariableArgument.foreign?_eq_none_iff.mpr hall] at hv
      cases hv
    · rintro ⟨a, ha, hnot⟩
      exact absurd (hall a ha) hnot

/-- On GLPK, the name of a variable of another open model is read, and the list refused. -/
theorem name_read_of_foreign :
    let w := initial.nextAll [.create "" (.text "minimize") [.engine (.named (.text "glpk"))],
      .create "" (.text "minimize") [.engine (.named (.text "glpk"))],
      .addVariable 0 "x" (.text "continuous") (.int 1) (.int 0) (.int 4),
      .addVariable 1 "y" (.text "continuous") (.int 1) (.int 0) (.int 4)]
    let o : Operation := .addConstraint 0 (.int 0) (.int 1) [.variable ⟨0, 0⟩, .variable ⟨1, 0⟩] [.int 1, .int 1]
    w.callsSince (w.next o) = [.glpk (.read 2 (.columnName 1))] ∧
      (∀ c ∈ w.callsSince (w.next o), c.InRange w.native) ∧
      ∃ fault, (o.run.on w).1 = .error fault ∧ fault.kind = .validation := by
  intro w o
  obtain ⟨model, hm⟩ := Option.isSome_iff_exists.mp (by decide +kernel : (w.model? 0).isSome = true)
  have hmodel {α : Type} (f : Model → α) {x : α} (h : (w.model? 0).map f = some x) : f model = x := by
    rw [hm] at h
    exact Option.some.inj h
  have hsize : w.models.size = 2 := by decide +kernel
  have hknown : ∀ a ∈ [VariableArgument.variable ⟨0, 0⟩, .variable ⟨1, 0⟩], a.Known w := by
    simp [VariableArgument.Known, hsize]
  have hkinds : model.kinds.length = 1 := hmodel (·.kinds.length) (by decide +kernel)
  obtain ⟨hcalls, hrefused⟩ := columns_named (Reachable.initial.nextAll _ : w.Reachable) hm
    (hmodel (·.freed) (by decide +kernel)) (o := o) ⟨rfl, rfl⟩ hknown
  rw [hkinds] at hcalls hrefused
  refine ⟨by decide +kernel, hcalls.mpr (.inr ?_), ?_⟩
  · -- the other model has the column of its variable
    rintro v hv ⟨other, n, q, hother, -, ho, hout⟩
    cases hv
    have hn : (w.model? 1).bind (·.engine.problem) = some 2 := by decide +kernel
    have hq : (w.native.problem? 2).map (·.columnCount) = some 1 := by decide +kernel
    rw [hother] at hn
    obtain rfl : n = 2 := Option.some.inj (ho.problem.symm.trans hn)
    rw [ho.found] at hq
    have hcount : q.columnCount = 1 := Option.some.inj hq
    exact hout (by rw [hcount]; decide)
  · obtain ⟨fault, hon, hkind⟩ := hrefused ⟨.variable ⟨1, 0⟩, by simp, by decide⟩
    have hzero : ¬ (Number.int 0).TooLarge := Option.isSome_iff_ne_none.mp (by decide +kernel)
    have hone : ¬ (Number.int 1).TooLarge := Option.isSome_iff_ne_none.mp (by decide +kernel)
    exact ⟨fault, hon, hkind (by simp [o, Operation.Overflows, hzero, hone])⟩

/-- On GLPK, the name of a variable is read that its own model does not have, to say that it does not have it. -/
theorem name_read_of_missing :
    let w := initial.nextAll [.create "" (.text "minimize") [.engine (.named (.text "glpk"))],
      .addVariable 0 "x" (.text "continuous") (.int 1) (.int 0) (.int 4)]
    let o : Operation := .addConstraint 0 (.int 0) (.int 1) [.variable ⟨0, 999⟩] [.int 1]
    ¬ ∀ c ∈ w.callsSince (w.next o), c.InRange w.native := by
  intro w o h
  -- the one call made: the name of column 1000
  have hcalls : w.callsSince (w.next o) = [.glpk (.read 1 (.columnName 1000))] := by decide +kernel
  rw [hcalls] at h
  obtain ⟨q, hq, -, hlast⟩ := h _ (List.mem_singleton_self _) 1000 rfl 1 (List.mem_singleton_self _)
  have hcount : (w.native.problem? 1).map (·.columnCount) = some 1 := by decide +kernel
  rw [hq] at hcount
  have hone : q.columnCount = 1 := Option.some.inj hcount
  rw [hone] at hlast
  exact absurd hlast (by decide)

end World

end LinearProgram
