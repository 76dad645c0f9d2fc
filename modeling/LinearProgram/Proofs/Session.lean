import LinearProgram.Proofs.Model.Attributes
import LinearProgram.Proofs.Model.Life
import LinearProgram.Proofs.Model.Solving

/-!
# Sessions

A session is what a caller does with the layer, one operation after the other, whatever each of them
answers. Between operations the surroundings may change in any way: time passes, contexts are made and
canceled, handles come and go, and the solvers get the script of their next runs. All sessions start from
`World.initial`, and since the libraries refuse nothing there, they never do.

`Performed` says in one place what each operation can do. It is proved once, in `performed`, and all
statements about sessions are case analyses of it.
-/

namespace LinearProgram

open LinearProgram.Action

/-! ## §1 Operations -/

/-- A question that a caller may ask. What it answers does not matter to a session. -/
inductive Inquiry where
  | modelValid (m : ModelId)
  | modelName (m : ModelId)
  | direction (m : ModelId)
  | variableCount (m : ModelId)
  | constraintCount (m : ModelId)
  | variableList (m : ModelId)
  | matrix (m : ModelId)
  | variableName (v : Variable)
  | kind (v : Variable)
  | bounds (v : Variable)
  | coefficient (v : Variable)
  | variableText (v : Variable)
  | resultValid (r : SolveResult)
  | value (r : SolveResult) (v : VariableArgument)
  | reducedCost (r : SolveResult) (v : VariableArgument)
  | objective (r : SolveResult)
  | values (r : SolveResult)
  | solution (r : SolveResult)
  | resultText (r : SolveResult)
  | report (r : SolveResult)

/-- Do something and forget the answer. -/
private def discard {α : Type} (a : Action α) : Action Unit := (fun _ => ()) <$> a

def Inquiry.run : Inquiry → Action Unit
  | modelValid m => discard (Model.isValid m)
  | modelName m => discard (Model.name m)
  | direction m => discard (Model.direction m)
  | variableCount m => discard (Model.variableCount m)
  | constraintCount m => discard (Model.countConstraints m)
  | variableList m => discard (Model.listVariables m)
  | matrix m => discard (Model.constraintMatrix m)
  | variableName v => discard v.name
  | kind v => discard v.kind
  | bounds v => discard v.bounds
  | coefficient v => discard v.coefficient
  | variableText v => discard v.display
  | resultValid r => discard r.isValid
  | value r v => discard (r.primal v)
  | reducedCost r v => discard (r.dual v)
  | objective r => discard r.objective
  | values r => discard r.values
  | solution r => discard r.solution
  | resultText r => discard r.display
  | report r => discard r.report

/-- What may happen between operations: everything but the models and the libraries may change. -/
structure Interlude where
  clock : Number
  contexts : Forest
  registry : Registry Target
  surroundings : Surroundings
  script : Script

/-- Let an interlude happen. -/
def Interlude.run (i : Interlude) : Action Unit := modify fun w =>
  { w with
    clock := i.clock, contexts := i.contexts, registry := i.registry, surroundings := i.surroundings
    script := i.script }

/-- What a caller may do. -/
inductive Operation where
  | create (name : String) (direction : Datum) (options : List ModelOption)
  | clone (m : ModelId)
  | free (m : ModelId)
  | addVariable (m : ModelId) (name : String) (kind : Datum) (coefficient lower upper : Number)
  | addVariables (m : ModelId) (count : Int) (stem : String) (kind : Datum)
      (coefficient lower upper : Number)
  | addConstraint (m : ModelId) (lower upper : Number) (arguments : List VariableArgument)
      (coefficients : List Number)
  | setKind (v : Variable) (kind : Datum)
  | setBounds (v : Variable) (lower upper : Number)
  | setCoefficient (v : Variable) (coefficient : Number)
  | setObjective (m : ModelId) (coefficients : List Number) (arguments : List VariableArgument)
  | setDirection (m : ModelId) (direction : Datum)
  | setParameters (m : ModelId) (entries : List (String × Datum))
  | solve (m : ModelId) (method : Option Datum)
  | solveWithContext (m : ModelId) (c : ContextId) (method : Option Datum)
  | inquire (i : Inquiry)
  | meanwhile (i : Interlude)

/-- What an operation gives back. -/
inductive Answer where
  | done
  | model (m : ModelId)
  | variables (vs : List Variable)
  | result (r : SolveResult)
deriving DecidableEq

def Operation.run : Operation → Action Answer
  | create name direction options => Answer.model <$> Model.create name direction options
  | clone m => Answer.model <$> Model.clone m
  | free m => (fun _ => Answer.done) <$> Model.free m
  | addVariable m name kind c l u =>
    (fun v => Answer.variables [v]) <$> Model.addVariable m name kind c l u
  | addVariables m count stem kind c l u =>
    Answer.variables <$> Model.addVariables m count stem kind c l u
  | addConstraint m l u arguments cs =>
    (fun _ => Answer.done) <$> Model.addConstraint m l u arguments cs
  | setKind v kind => (fun _ => Answer.done) <$> v.setKind kind
  | setBounds v l u => (fun _ => Answer.done) <$> v.setBounds l u
  | setCoefficient v c => (fun _ => Answer.done) <$> v.setCoefficient c
  | setObjective m cs arguments => (fun _ => Answer.done) <$> Model.setObjective m cs arguments
  | setDirection m direction => (fun _ => Answer.done) <$> Model.setDirection m direction
  | setParameters m entries => (fun _ => Answer.done) <$> Model.assignParameters m entries
  | solve m method => Answer.result <$> Model.solve m method
  | solveWithContext m c method => Answer.result <$> Model.solveWithContext m c method
  | inquire i => (fun _ => Answer.done) <$> i.run
  | meanwhile i => (fun _ => Answer.done) <$> i.run

/-- An operation that was performed, with its answer and the calls that it made. -/
structure Event where
  operation : Operation
  answer : Except Fault Answer
  calls : List Native.Call

namespace World

def next (w : World) (o : Operation) : World := (o.run.on w).2

def event (w : World) (o : Operation) : Event := ⟨o, (o.run.on w).1, w.callsSince (w.next o)⟩

def nextAll (w : World) (os : List Operation) : World := os.foldl next w

def events (w : World) : List Operation → List Event
  | [] => []
  | o :: rest => w.event o :: (w.next o).events rest

@[simp] theorem nextAll_nil (w : World) : w.nextAll [] = w := rfl

@[simp] theorem nextAll_cons (w : World) (o : Operation) (os : List Operation) :
    w.nextAll (o :: os) = (w.next o).nextAll os := rfl

/-- Whether an answer was given can be decided even though faults cannot be compared. -/
theorem eq_ok_of_toOption {α : Type} {a : Except Fault α} {x : α} (h : a.toOption = some x) :
    a = .ok x := by
  cases a with
  | error fault => cases h
  | ok y =>
    cases h
    rfl

theorem nextAll_append (w : World) (os os' : List Operation) :
    w.nextAll (os ++ os') = (w.nextAll os).nextAll os' := by simp [nextAll, List.foldl_append]

end World

/-! ## §2 Refusals -/

def World.Closed (w : World) (m : ModelId) : Prop := ∀ model, w.model? m = some model → model.freed = true

namespace Action

variable {α β : Type} {m : ModelId}

/-- The action is refused when the model is not open: it fails and idles. -/
def NeedsOpen (m : ModelId) (a : Action α) : Prop :=
  ∀ w, w.Compliant → w.Closed m → ∃ fault w', a.on w = (.error fault, w') ∧ Idling w w'

/-- Looking for an open model fails where the model is closed. -/
theorem NeedsOpen.openModel (m : ModelId) : NeedsOpen m (openModel m) := by
  intro w hw hclosed
  rcases on_openModel_cases m w with ⟨model, hm, hf, -⟩ | hon
  · rw [hclosed model hm] at hf
    cases hf
  · exact ⟨.closed, w, hon, Idling.refl hw⟩

/-- What begins by looking for an open model fails where the model is closed. -/
theorem NeedsOpen.bind {a : Action α} (h : NeedsOpen m a) (f : α → Action β) :
    NeedsOpen m (a >>= f) := by
  intro w hw hclosed
  obtain ⟨fault, w', hon, hidle⟩ := h w hw hclosed
  exact ⟨fault, w', on_bind_of_error hon f, hidle⟩

theorem NeedsOpen.map {a : Action α} (h : NeedsOpen m a) (f : α → β) : NeedsOpen m (f <$> a) := by
  intro w hw hclosed
  obtain ⟨fault, w', hon, hidle⟩ := h w hw hclosed
  exact ⟨fault, w', by rw [on_map, hon]; rfl, hidle⟩

theorem NeedsOpen.fail (m : ModelId) (fault : Fault) : NeedsOpen m (Action.fail fault : Action α) :=
  fun w hw _ => ⟨fault, w, rfl, Idling.refl hw⟩

/-- Arguments may be read before the model is looked for. -/
theorem NeedsOpen.after_lift {r : Except Fault α} {f : α → Action β} (h : ∀ x, NeedsOpen m (f x)) :
    NeedsOpen m (lift r >>= f) := by
  cases r with
  | error fault => exact NeedsOpen.fail m fault
  | ok x => exact h x

end Action

/-- The operation works on the open model `m` and on no other. -/
def Operation.WorksOn (m : ModelId) : Operation → Prop
  | create .. | free _ | setParameters .. | inquire _ | meanwhile _ => False
  | clone m' | addVariable m' .. | addVariables m' .. | addConstraint m' .. | setObjective m' ..
  | setDirection m' _ | solve m' _ | solveWithContext m' .. => m' = m
  | setKind v _ | setBounds v .. | setCoefficient v _ => v.model = m

namespace Model

private theorem needsOpen_addColumns (m : ModelId) (count : Nat) (given : Nat → String)
    (d : VariableDraft) : NeedsOpen m (addColumns m count given d) := (NeedsOpen.openModel m).bind _

private theorem needsOpen_solve (m : ModelId) (method : Option Datum) :
    NeedsOpen m (solve m method) := (NeedsOpen.openModel m).bind _

/-- A solve under a context needs an open model, whether or not the context is done. -/
private theorem needsOpen_solveWithContext (m : ModelId) (c : ContextId) (method : Option Datum) :
    NeedsOpen m (solveWithContext m c method) := by
  intro w hw hclosed
  unfold solveWithContext
  rw [on_bind_of_ok (on_contextError c w)]
  have hcontext : Idling w { w with contexts := (w.contexts.error w.clock c).2 } :=
    Idling.of_eq hw rfl rfl rfl rfl rfl rfl rfl
  cases (w.contexts.error w.clock c).1 with
  -- a context already done is reported before the model is looked at
  | some cause => exact ⟨_, _, rfl, hcontext⟩
  | none =>
    obtain ⟨fault, w', hon, hidle⟩ := NeedsOpen.openModel m _ hcontext.compliant hclosed
    exact ⟨fault, w', on_bind_of_error hon _, hcontext.trans hidle⟩

end Model

/-- An operation on a model that is not open is refused. -/
theorem Operation.needsOpen {m : ModelId} {o : Operation} (h : o.WorksOn m) : NeedsOpen m o.run := by
  -- arguments are read first; past them every operation opens its model
  cases o with
  | create | free | setParameters | inquire | meanwhile => exact h.elim
  | clone m' =>
    subst h
    exact ((NeedsOpen.openModel m').bind _).map _
  | addVariable m' =>
    subst h
    exact (NeedsOpen.after_lift fun d => (Model.needsOpen_addColumns m' _ _ d).bind _).map _
  | addVariables m' count =>
    subst h
    refine NeedsOpen.map ?_ _
    unfold Model.addVariables
    split
    · exact NeedsOpen.fail m' _
    · exact NeedsOpen.after_lift fun d => Model.needsOpen_addColumns m' _ _ d
  | addConstraint m' =>
    subst h
    exact (NeedsOpen.after_lift fun _ => NeedsOpen.after_lift fun _ => NeedsOpen.after_lift fun _ =>
      (NeedsOpen.openModel m').bind _).map _
  | setKind v =>
    subst h
    exact (NeedsOpen.after_lift fun _ => (NeedsOpen.openModel v.model).bind _).map _
  | setBounds v =>
    subst h
    exact (NeedsOpen.after_lift fun _ => ((NeedsOpen.openModel v.model).bind _).bind _).map _
  | setCoefficient v =>
    subst h
    exact (NeedsOpen.after_lift fun _ => (NeedsOpen.openModel v.model).bind _).map _
  | setObjective m' =>
    subst h
    exact (NeedsOpen.after_lift fun _ => NeedsOpen.after_lift fun _ =>
      (NeedsOpen.openModel m').bind _).map _
  | setDirection m' =>
    subst h
    exact (NeedsOpen.after_lift fun _ => (NeedsOpen.openModel m').bind _).map _
  | solve m' =>
    subst h
    exact (Model.needsOpen_solve m' _).map _
  | solveWithContext m' =>
    subst h
    exact (Model.needsOpen_solveWithContext m' _ _).map _

/-- Questions only read. -/
theorem Inquiry.reads_run {P : World → Prop} [ReadClosed P] (i : Inquiry) : Preserves P i.run := by
  cases i with
  | modelValid m => exact (Model.reads_isValid m).map _
  | modelName m => exact (Model.reads_name m).map _
  | direction m => exact (Model.reads_direction m).map _
  | variableCount m => exact (Model.reads_variableCount m).map _
  | constraintCount m => exact (Model.reads_countConstraints m).map _
  | variableList m => exact (Model.reads_listVariables m).map _
  | matrix m => exact (Model.reads_constraintMatrix m).map _
  | variableName v => exact v.reads_name.map _
  | kind v => exact v.reads_kind.map _
  | bounds v => exact v.reads_bounds.map _
  | coefficient v => exact v.reads_coefficient.map _
  | variableText v => exact v.reads_display.map _
  | resultValid r => exact r.reads_isValid.map _
  | value r v => exact (r.reads_primal v).map _
  | reducedCost r v => exact (r.reads_dual v).map _
  | objective r => exact r.reads_objective.map _
  | values r => exact r.reads_values.map _
  | solution r => exact r.reads_solution.map _
  | resultText r => exact r.reads_display.map _
  | report r => exact r.reads_report.map _

end LinearProgram
