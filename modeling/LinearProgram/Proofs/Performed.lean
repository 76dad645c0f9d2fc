import LinearProgram.Proofs.Session

/-!
# What operations do

`Performed` lists everything that can come of an operation in a sound state: a refusal, which idles, or
one of the changes that the modules on models describe, with the model it changes, the problem this model
holds, and the calls that are made. `performed` is the proof that the list is complete.

Every operation keeps a state sound, so that the list applies at every point of a session.
-/

namespace LinearProgram

open LinearProgram.Action

variable {w : World}

/-! ## §1 The list -/

/-- The operation asks for `count` new variables of one description. -/
def Operation.Grows (m : ModelId) (count : Nat) (d : Model.VariableDraft) : Operation → Prop
  | addVariable m' _ kind c l u => m' = m ∧ count = 1 ∧ Model.VariableDraft.read kind c l u = .ok d
  | addVariables m' k _ kind c l u =>
    m' = m ∧ k = count ∧ Model.VariableDraft.read kind c l u = .ok d
  | _ => False

/-- The names that a caller gives to new variables, by position; an empty one asks for a generated name. -/
def Operation.given : Operation → Nat → String
  | addVariable _ name .. => fun _ => name
  | addVariables _ _ stem .. => fun i => if stem.isEmpty then "" else stem ++ toString i
  | _ => fun _ => ""

/-- The operation solves model `m`. -/
def Operation.SolvesModel (m : ModelId) : Operation → Prop
  | solve m' _ | solveWithContext m' .. => m' = m
  | _ => False

/-- The rows of a constraint on a model, and the entries that they get. -/
structure Constraint where
  bound : Bound
  terms : List (Int × Float)

/-- The bounds of the rows that an engine gives to a constraint. -/
def Constraint.rowBounds (c : Constraint) (e : Engine) : List Bound := Engine.rowBounds e.kind c.bound

/-- The constraint that the arguments of an operation describe, if they are variables of a model that has
`count` of them. -/
structure Constraint.Describes (c : Constraint) (m : ModelId) (count : Nat) (lower upper : Number)
    (arguments : List VariableArgument) (coefficients : List Number) : Prop where
  bound : Bound.encodeNumbers lower upper = .ok c.bound
  terms : ∃ (vars : List Variable) (cs : List Float), arguments = vars.map .variable ∧
    coefficients.mapM Number.toDouble = .ok cs ∧
    vars.length = cs.length ∧ (∀ v ∈ vars, v.model = m ∧ 0 ≤ v.index ∧ v.index < count) ∧
    c.terms = (vars.map Variable.column).zip cs

/-- What comes of an operation: its answer and the state after it. -/
inductive Performed (w : World) : Operation → Except Fault Answer → World → Prop
  | refused {o fault w'} (h : Idling w w') : Performed w o (.error fault) w'
  | asked {i w'} {a : Except Fault Unit} (h : Idling w w') :
    Performed w (.inquire i) (a.map fun _ => .done) w'
  | elapsed {i : Interlude} : Performed w (.meanwhile i) (.ok .done) (i.run.on w).2
  | configured {m entries w'} {a : Except Fault Unit} (h : World.Undisturbed w w')
      (hs : w.Steady w') : Performed w (.setParameters m entries) (a.map fun _ => .done) w'
  | created {name direction options d kind n w₁ w'}
      (hd : (Choice.read direction : Except Fault Direction) = .ok d)
      (h₁ : World.Makes w w₁ (Model.made kind n) (Engine.fresh kind))
      (h₂ : World.Edits w₁ w' w.models.size id n
        (Model.namingCalls ⟨kind, some n, none⟩ name d)) (hs : w₁.Steady w') :
    Performed w (.create name direction options) (.ok (.model w.models.size)) w'
  | undone {name direction options fault kind n w₁ w'}
      (h₁ : World.Makes w w₁ (Model.made kind n) (Engine.fresh kind))
      (h₂ : World.Frees w₁ w' w.models.size n) :
    Performed w (.create name direction options) (.error fault) w'
  | cloned {m model n q w'} (hh : w.Holds m model n q)
      (h : World.Makes w w' (Model.copied model w.models.size w.native.next) q) :
    Performed w (.clone m) (.ok (.model w.models.size)) w'
  | freed {m model n q w'} (hh : w.Holds m model n q) (h : World.Frees w w' m n) :
    Performed w (.free m) (.ok .done) w'
  | freedBefore {m} {a : Except Fault Unit} (h : w.Closed m) :
    Performed w (.free m) (a.map fun _ => .done) w
  | grew {o m count d names model n q w'} (ho : o.Grows m count d) (hh : w.Holds m model n q)
      (hn : names.length = count)
      (h : World.Edits w w' m (Model.grown m q.columnCount names d.kind) n
        (Model.newVariablesCalls model.engine d q.columnCount names)) (hs : w.Steady w')
      (hc : VariableName.Chosen o.given model.names q.columnCount names) :
    Performed w o (.ok (.variables (Model.newVariables m q.columnCount count))) w'
  | constrained {m lower upper arguments coefficients model n q w'} {c : Constraint} (hh : w.Holds m model n q)
      (hc : c.Describes m model.kinds.length lower upper arguments coefficients)
      (h : World.Edits w w' m (Model.constrained c.terms
          (Engine.rowNumbers q.rowCount (c.rowBounds model.engine).length)) n
        (model.engine.rowsCalls q.rowCount (c.rowBounds model.engine))) (hs : w.Steady w') :
    Performed w (.addConstraint m lower upper arguments coefficients) (.ok .done) w'
  | kindSet {v kind k model n q w'} {a : Except Fault Unit}
      (hk : (Choice.read kind : Except Fault VariableKind) = .ok k) (hh : w.Holds v.model model n q)
      (ha : ∀ i, place? model.kinds.length v.index = some i → a = .ok ())
      (h : World.Edits w w' v.model (Variable.withKind v.index k) n
        (Variable.kindCalls model.engine v.column k)) (hs : w.Steady w') :
    Performed w (.setKind v kind) (a.map fun _ => .done) w'
  | boundsSet {v lower upper b i k model n q w'} (hb : Bound.encodeNumbers lower upper = .ok b)
      (hh : w.Holds v.model model n q) (hp : place? model.kinds.length v.index = some i)
      (hi : model.kinds[i]? = some k) (hk : k ≠ .binary)
      (h : World.Edits w w' v.model id n [model.engine.boundsCall v.column b]) (hs : w.Steady w') :
    Performed w (.setBounds v lower upper) (.ok .done) w'
  | boundsIgnored {v lower upper b i model n q w'} (hb : Bound.encodeNumbers lower upper = .ok b)
      (hh : w.Holds v.model model n q) (hp : place? model.kinds.length v.index = some i)
      (hi : model.kinds[i]? = some .binary) (h : Idling w w') :
    Performed w (.setBounds v lower upper) (.ok .done) w'
  | coefficientSet {v coefficient x model n q w'} (hx : coefficient.toDouble = .ok x)
      (hh : w.Holds v.model model n q)
      (h : World.Edits w w' v.model id n [model.engine.objectiveCall v.column x])
      (hs : w.Steady w') : Performed w (.setCoefficient v coefficient) (.ok .done) w'
  | objectiveSet {m coefficients arguments cs model n q w'} {vars : List Variable} (hh : w.Holds m model n q)
      (ha : arguments = vars.map .variable)
      (hv : ∀ v ∈ vars, v.model = m ∧ 0 ≤ v.index ∧ v.index < model.kinds.length)
      (hc : coefficients.mapM Number.toDouble = .ok cs)
      (h : World.Edits w w' m id n (Model.objectiveCalls model.engine (vars.zip cs)))
      (hs : w.Steady w') : Performed w (.setObjective m coefficients arguments) (.ok .done) w'
  | directionSet {m direction d model n q w'}
      (hd : (Choice.read direction : Except Fault Direction) = .ok d) (hh : w.Holds m model n q)
      (h : World.Edits w w' m id n [model.engine.directionCall d]) (hs : w.Steady w') :
    Performed w (.setDirection m direction) (.ok .done) w'
  | solved {o m model n q w'} {a : Except Fault SolveResult} (ho : o.SolvesModel m)
      (hh : w.Holds m model n q) (h : Model.Solves w m model n (a, w')) :
    Performed w o (a.map .result) w'

/-! ## §2 The list is complete -/

/-- A model is closed, or it is open and is found. -/
theorem World.closed_or_open (w : World) (m : ModelId) :
    w.Closed m ∨ ∃ model, w.model? m = some model ∧ model.freed = false := by
  cases hm : w.model? m with
  | none => exact Or.inl fun model h => nomatch hm.symm.trans h
  | some model =>
    cases hf : model.freed with
    | false => exact Or.inr ⟨model, rfl, hf⟩
    | true =>
      refine Or.inl fun model' h => ?_
      cases hm.symm.trans h
      exact hf

/-- What comes of the operation in the state is in the list. -/
private def World.Lists (w : World) (o : Operation) : Prop := Performed w o (o.run.on w).1 (w.next o)

/-- An operation is in the list if one of the things in the list is what it does. -/
private theorem lists_of_on {o : Operation} {a : Except Fault Answer} {w' : World}
    (hon : o.run.on w = (a, w')) (h : Performed w o a w') : w.Lists o := by
  unfold World.Lists World.next
  rwa [hon]

/-- The same for an operation that turns what it runs into an answer. -/
private theorem lists_of_run {α : Type} {o : Operation} {act : Action α} {f : α → Answer}
    (hrun : o.run = f <$> act) {a : Except Fault α} {w' : World} (hon : act.on w = (a, w'))
    (h : Performed w o (a.map f) w') : w.Lists o :=
  lists_of_on (by rw [hrun, on_map, hon]) h

/-- An operation on a model is refused if the model is not open; otherwise the model holds a problem. -/
private theorem lists_of_open (hs : w.Sound) {m : ModelId} {o : Operation} (ho : o.WorksOn m)
    (h : ∀ model n q, w.model? m = some model → model.freed = false → w.Holds m model.core n q.core →
      model.engine.Owns w.native n q → w.Lists o) : w.Lists o := by
  rcases w.closed_or_open m with hclosed | ⟨model, hm, hf⟩
  · obtain ⟨fault, w', hon, hidle⟩ := Operation.needsOpen ho w hs.compliant hclosed
    exact lists_of_on hon (.refused hidle)
  · obtain ⟨n, q, hh, howns⟩ := hs.holds_of_model? hm hf
    exact h model n q hm hf hh howns

/-- An edit that is one equation. -/
private theorem edits_of_eq (hs : w.Sound) {m : ModelId} {model : Model} {n : Nat} {q : Native.Problem}
    (hh : w.Holds m model n q) {f : Model → Model} (hf : ∀ model, (f model).core = f model.core)
    {cs : List Native.Call} (hcs : ∀ c ∈ cs, c.IsAbout model.engine.number) :
    World.Edits w ((w.afterAll cs).modifyModel m f) m f n cs ∧
      w.Steady ((w.afterAll cs).modifyModel m f) := by
  have hn : model.engine.number = n := by simp [Engine.number, hh.number]
  refine ⟨World.Edits.of_eq hs.compliant hf (hn ▸ hcs), ?_, ?_⟩
  · exact World.afterAll_registry w cs
  · exact World.afterAll_clock w cs

/-- An edit that leaves the model itself as it was. -/
private theorem edits_of_calls (hs : w.Sound) {m : ModelId} {model : Model} {n : Nat}
    {q : Native.Problem} (hh : w.Holds m model n q) (cs : List Native.Call)
    (hcs : ∀ c ∈ cs, c.IsAbout model.engine.number) :
    World.Edits w (w.afterAll cs) m id n cs ∧ w.Steady (w.afterAll cs) := by
  have h := edits_of_eq hs hh (f := id) (fun _ => rfl) hcs
  rwa [World.modifyModel_id] at h

/-- Columns that were added and entered are one of the things in the list. -/
theorem performed_of_grown (hs : w.Sound) {o : Operation} {m : ModelId} {model : Model} {n : Nat}
    {q : Native.Problem} (hh : w.Holds m model.core n q.core) {d : Model.VariableDraft} {names : List String}
    (hgrows : o.Grows m names.length d)
    (hchosen : VariableName.Chosen o.given model.names q.columnCount names) :
    Performed w o (.ok (.variables (Model.newVariables m q.columnCount names.length)))
      ((w.afterAll (Model.newVariablesCalls model.engine d q.columnCount names)).modifyModel m
        (Model.grown m q.columnCount names d.kind)) := by
  -- cores count the same columns as problems
  have hcount : q.core.columnCount = q.columnCount := by cases q <;> rfl
  have hedit := edits_of_eq hs hh (f := Model.grown m q.core.columnCount names d.kind) (fun _ => rfl)
    (Model.isAbout_newVariablesCalls model.core.engine d q.core.columnCount names)
  have hcalls : Model.newVariablesCalls model.core.engine d q.core.columnCount names =
      Model.newVariablesCalls model.engine d q.columnCount names := by
    unfold Model.newVariablesCalls
    rw [hcount]
    exact congrArg (fun cs => _ :: (_ ++ cs)) (Engine.setUpAllCalls_withAbort model.engine none d _ names)
  have hgrew := Performed.grew hgrows hh rfl hedit.1 hedit.2 (hcount ▸ hchosen)
  rwa [hcalls, hcount] at hgrew

/-- Rows that were added and entered are one of the things in the list, beside which there may be a
record. -/
theorem performed_of_constrained (hs : w.Sound) {m : ModelId} {model : Model} {n : Nat} {q : Native.Problem}
    (hh : w.Holds m model.core n q.core) {lower upper : Number} {arguments : List VariableArgument}
    {coefficients : List Number} {c : Constraint}
    (hc : c.Describes m model.kinds.length lower upper arguments coefficients) {w' : World}
    (hidle : Idling ((w.afterAll (model.engine.rowsCalls q.rowCount (c.rowBounds model.engine))).modifyModel m
      (Model.constrained c.terms (Engine.rowNumbers q.rowCount (c.rowBounds model.engine).length))) w') :
    Performed w (.addConstraint m lower upper arguments coefficients) (.ok .done) w' := by
  have hcount : q.core.rowCount = q.rowCount := by cases q <;> rfl
  have hedit := edits_of_eq hs hh (f := Model.constrained c.terms
    (Engine.rowNumbers q.core.rowCount (c.rowBounds model.core.engine).length)) (fun _ => rfl)
    (Engine.isAbout_rowsCalls model.core.engine q.core.rowCount (c.rowBounds model.core.engine))
  have hcalls : model.core.engine.rowsCalls q.core.rowCount (c.rowBounds model.core.engine) =
      model.engine.rowsCalls q.rowCount (c.rowBounds model.engine) := by
    rw [hcount]
    exact Engine.rowsCalls_withAbort model.engine none q.rowCount _
  -- storing the terms is followed by a log message at most
  have hafter : Idling ((w.afterAll (model.core.engine.rowsCalls q.core.rowCount
      (c.rowBounds model.core.engine))).modifyModel m (Model.constrained c.terms
        (Engine.rowNumbers q.core.rowCount (c.rowBounds model.core.engine).length))) w' := by
    rw [hcalls, hcount]
    exact hidle
  exact .constrained hh hc (hedit.1.andThen (World.Undisturbed.of_idling hafter))
    (hedit.2.trans hafter.steady)

/-- New columns are in the list, or the library refused them and nothing but its log has changed. -/
private theorem lists_grow (hs : w.Sound) {o : Operation} {m : ModelId} {model : Model} {n : Nat}
    {q : Native.Problem} (hm : w.model? m = some model) (hf : model.freed = false)
    (hh : w.Holds m model.core n q.core) (ho : model.engine.Owns w.native n q) (count : Nat)
    {d : Model.VariableDraft} (hgrows : o.Grows m count d)
    (hon : o.run.on w = (Answer.variables <$> Model.addColumns m count o.given d).on w) :
    w.Lists o := by
  unfold World.Lists World.next
  rw [hon, on_map]
  rcases Model.on_addColumns hs.compliant hm hf ho count o.given d with
    ⟨fault, hadd⟩ | ⟨names, rfl, hchosen, hadd⟩
  · -- refused: nothing but a count of the columns was asked for
    rw [hadd]
    refine .refused (Idling.after hs.compliant ?_ ?_) <;>
    · unfold Engine.columnCountCall
      cases model.engine.kind <;> rfl
  · rw [hadd]
    exact performed_of_grown hs hh hgrows hchosen

private theorem lists_inquire (hs : w.Sound) (i : Inquiry) : w.Lists (.inquire i) :=
  lists_of_run rfl rfl (.asked (i.reads_run w (Idling.refl hs.compliant)))

private theorem lists_setParameters (hs : w.Sound) (m : ModelId) (entries : List (String × Datum)) :
    w.Lists (.setParameters m entries) := by
  have hset := Model.undisturbed_assignParameters m entries w
    ⟨World.Undisturbed.refl hs.compliant, ⟨rfl, rfl⟩⟩
  exact lists_of_run rfl rfl (.configured hset.1 hset.2)

/-- Making a model comes to one of the listed ends. -/
private theorem lists_create (hs : w.Sound) (name : String) (direction : Datum)
    (options : List ModelOption) : w.Lists (.create name direction options) := by
  rcases Model.create_cases hs name direction options with ⟨fault, hon⟩ | ⟨d, hd, hcreation⟩
  · exact lists_of_run rfl hon (.refused (Idling.refl hs.compliant))
  -- past the direction, the library may give no problem, or the options may fail on the one it gave
  rcases hcreation with ⟨fault, w', hon, hidle⟩ | ⟨fault, w₁, w', kind, n, hon, hmakes, hfrees⟩ |
    ⟨w₁, w', kind, n, hon, hmakes, hedits, hsteady⟩
  · exact lists_of_run rfl hon (.refused hidle)
  · exact lists_of_run rfl hon (.undone hmakes hfrees)
  · exact lists_of_run rfl hon (.created hd hmakes hedits hsteady)

/-- A model may be freed twice, so that this operation is not refused on a closed model. -/
private theorem lists_free (hs : w.Sound) (m : ModelId) : w.Lists (.free m) := by
  rcases w.closed_or_open m with hclosed | ⟨model, hm, hf⟩
  · exact lists_of_run rfl (Model.on_free_of_closed hclosed) (.freedBefore hclosed)
  · obtain ⟨n, q, hh, ho⟩ := hs.holds_of_model? hm hf
    obtain ⟨w', hon, hfrees⟩ := Model.on_free_of_open hs.compliant hm hf ho
    exact lists_of_run rfl hon (.freed hh hfrees)

/-- Copying a model comes to one of the listed ends. -/
private theorem lists_clone (hs : w.Sound) (m : ModelId) : w.Lists (.clone m) := by
  refine lists_of_open hs (m := m) rfl fun model n q hm hf hh ho => ?_
  rcases Model.clone_cases hs.compliant hm hf ho with ⟨fault, hon⟩ | ⟨w', hon, hmakes⟩
  · exact lists_of_run rfl hon (.refused (Idling.refl hs.compliant))
  · exact lists_of_run rfl hon (.cloned hh hmakes)

/-- Adding a variable comes to one of the listed ends. -/
private theorem lists_addVariable (hs : w.Sound) (m : ModelId) (name : String) (kind : Datum)
    (c l u : Number) : w.Lists (.addVariable m name kind c l u) := by
  refine lists_of_open hs (m := m) rfl fun model n q hm hf hh ho => ?_
  cases hd : Model.VariableDraft.read kind c l u with
  -- the arguments are read before anything is changed
  | error fault =>
    have hon : (Model.addVariable m name kind c l u).on w = (.error fault, w) := by
      unfold Model.addVariable
      rw [hd]
      rfl
    exact lists_of_run rfl hon (.refused (Idling.refl hs.compliant))
  | ok d =>
    refine lists_grow hs hm hf hh ho 1 ⟨rfl, rfl, hd⟩ ?_
    unfold Operation.run Operation.given Model.addVariable
    rw [on_map, on_map, hd, on_bind_of_ok (on_lift _ w), on_bind]
    rcases Model.on_addColumns hs.compliant hm hf ho 1 (fun _ => name) d with
      ⟨fault, hadd⟩ | ⟨names, -, -, hadd⟩
    · rw [hadd]
      rfl
    · rw [hadd, Model.newVariables_one]
      rfl

private theorem lists_addVariables (hs : w.Sound) (m : ModelId) (count : Int) (stem : String)
    (kind : Datum) (c l u : Number) : w.Lists (.addVariables m count stem kind c l u) := by
  refine lists_of_open hs (m := m) rfl fun model n q hm hf hh ho => ?_
  -- a negative count would reduce the number of variables, which is refused
  by_cases hneg : count < 0
  · have hon : (Model.addVariables m count stem kind c l u).on w = (.error (.reduced .vars), w) := by
      unfold Model.addVariables
      rw [if_pos hneg]
      rfl
    exact lists_of_run rfl hon (.refused (Idling.refl hs.compliant))
  cases hd : Model.VariableDraft.read kind c l u with
  | error fault =>
    have hon : (Model.addVariables m count stem kind c l u).on w = (.error fault, w) := by
      unfold Model.addVariables
      rw [if_neg hneg, hd]
      rfl
    exact lists_of_run rfl hon (.refused (Idling.refl hs.compliant))
  | ok d =>
    refine lists_grow hs hm hf hh ho count.toNat ⟨rfl, by omega, hd⟩ ?_
    have hon : (Model.addVariables m count stem kind c l u).on w =
        (Model.addColumns m count.toNat
          (Operation.addVariables m count stem kind c l u).given d).on w := by
      unfold Model.addVariables
      rw [if_neg hneg, hd, on_bind_of_ok (on_lift _ w)]
      rfl
    show (Answer.variables <$> Model.addVariables m count stem kind c l u).on w = _
    rw [on_map, on_map, hon]

/-- Adding a constraint comes to one of the listed ends. -/
private theorem lists_addConstraint (hs : w.Sound) (m : ModelId) (lower upper : Number)
    (arguments : List VariableArgument) (coefficients : List Number) :
    w.Lists (.addConstraint m lower upper arguments coefficients) := by
  refine lists_of_open hs (m := m) rfl fun model n q hm hf hh ho => ?_
  rcases Model.on_addConstraint hs.compliant hm hf ho lower upper arguments coefficients with
    ⟨fault, w', hon, hidle⟩ | ⟨b, cs, vars, w', hb, hcs, hcheck, hlen, hon, hidle⟩
  · exact lists_of_run rfl hon (.refused hidle)
  · obtain ⟨-, hargs, hvars⟩ := Model.on_checkVariables_ok hcheck
    -- the bound as it is encoded, and the columns of the variables with their coefficients
    let c : Constraint := ⟨b, (vars.map Variable.column).zip cs⟩
    have hdescribes : c.Describes m model.kinds.length lower upper arguments coefficients :=
      ⟨hb, vars, cs, hargs, hcs, hlen, hvars, rfl⟩
    exact lists_of_run rfl hon (performed_of_constrained hs hh hdescribes hidle)

/-- Changing the kind of a variable comes to one of the listed ends. -/
private theorem lists_setKind (hs : w.Sound) (v : Variable) (kind : Datum) :
    w.Lists (.setKind v kind) := by
  refine lists_of_open hs (m := v.model) rfl fun model n q hm hf hh ho => ?_
  cases hk : (Choice.read kind : Except Fault VariableKind) with
  | error fault =>
    have hon : (v.setKind kind).on w = (.error fault, w) := by
      unfold Variable.setKind
      rw [hk]
      rfl
    exact lists_of_run rfl hon (.refused (Idling.refl hs.compliant))
  | ok k =>
    -- the engine gets the kind and, of a binary variable, its bounds
    have hedit := edits_of_eq hs hh (f := Variable.withKind v.index k)
      (Variable.withKind_core v.index k) (Variable.isAbout_kindCalls model.core.engine v.column k)
    refine lists_of_run rfl (Variable.on_setKind hs.compliant hm hf hk)
      (.kindSet hk hh (fun i hi => ?_) hedit.1 hedit.2)
    have hi : place? model.kinds.length v.index = some i := hi
    rw [hi]

private theorem lists_setBounds (hs : w.Sound) (v : Variable) (lower upper : Number) :
    w.Lists (.setBounds v lower upper) := by
  refine lists_of_open hs (m := v.model) rfl fun model n q hm hf hh ho => ?_
  -- the bounds of a binary variable are not passed on, so that this case makes no call
  rcases Variable.on_setBounds hs.compliant hm hf lower upper with
    ⟨fault, hon⟩ | ⟨b, i, k, hb, hp, hi, ⟨rfl, w', hon, hidle⟩ | ⟨hk, hon⟩⟩
  · exact lists_of_run rfl hon (.refused (Idling.refl hs.compliant))
  · exact lists_of_run rfl hon (.boundsIgnored hb hh hp hi hidle)
  · have hedit := edits_of_calls hs hh [model.core.engine.boundsCall v.column b]
      (by simpa using Engine.isAbout_boundsCall model.core.engine v.column b)
    exact lists_of_run rfl hon (.boundsSet hb hh hp hi hk hedit.1 hedit.2)

private theorem lists_setCoefficient (hs : w.Sound) (v : Variable) (coefficient : Number) :
    w.Lists (.setCoefficient v coefficient) := by
  refine lists_of_open hs (m := v.model) rfl fun model n q hm hf hh ho => ?_
  have hon := Variable.on_setCoefficient hs.compliant hm hf coefficient
  cases hx : coefficient.toDouble with
  -- too large for a double
  | error fault =>
    rw [hx] at hon
    exact lists_of_run rfl hon (.refused (Idling.refl hs.compliant))
  | ok x =>
    rw [hx] at hon
    have hedit := edits_of_calls hs hh [model.core.engine.objectiveCall v.column x]
      (by simpa using Engine.isAbout_objectiveCall model.core.engine v.column x)
    exact lists_of_run rfl hon (.coefficientSet hx hh hedit.1 hedit.2)

/-- Setting the objective comes to one of the listed ends. -/
private theorem lists_setObjective (hs : w.Sound) (m : ModelId) (coefficients : List Number)
    (arguments : List VariableArgument) : w.Lists (.setObjective m coefficients arguments) := by
  refine lists_of_open hs (m := m) rfl fun model n q hm hf hh ho => ?_
  rcases Model.on_setObjective hs.compliant hm hf coefficients arguments with
    ⟨fault, w', hon, hidle⟩ | ⟨cs, vars, w₁, hcs, hcheck, hon⟩
  · exact lists_of_run rfl hon (.refused hidle)
  · obtain ⟨-, hargs, hvars⟩ := Model.on_checkVariables_ok hcheck
    -- one call for each variable given; the objective is not cleared before
    have hedit := edits_of_calls hs hh _
      (Model.isAbout_objectiveCalls model.core.engine (vars.zip cs))
    exact lists_of_run rfl hon (.objectiveSet hh hargs hvars hcs hedit.1 hedit.2)

private theorem lists_setDirection (hs : w.Sound) (m : ModelId) (direction : Datum) :
    w.Lists (.setDirection m direction) := by
  refine lists_of_open hs (m := m) rfl fun model n q hm hf hh ho => ?_
  have hon := Model.on_setDirection hs.compliant hm hf direction
  cases hd : (Choice.read direction : Except Fault Direction) with
  | error fault =>
    rw [hd] at hon
    exact lists_of_run rfl hon (.refused (Idling.refl hs.compliant))
  | ok d =>
    rw [hd] at hon
    have hedit := edits_of_calls hs hh [model.core.engine.directionCall d]
      (by simpa using Engine.isAbout_directionCall model.core.engine d)
    exact lists_of_run rfl hon (.directionSet hd hh hedit.1 hedit.2)

/-- Solving comes to one of the listed ends. -/
private theorem lists_solve (hs : w.Sound) (m : ModelId) (method : Option Datum) :
    w.Lists (.solve m method) := by
  refine lists_of_open hs (m := m) rfl fun model n q hm hf hh ho => ?_
  have hsolves := Model.solve_solves hs.compliant hm hf ho method
  exact lists_of_run rfl rfl (.solved rfl hh (hsolves.congr_core (Model.core_core model).symm))

private theorem lists_solveWithContext (hs : w.Sound) (m : ModelId) (c : ContextId)
    (method : Option Datum) : w.Lists (.solveWithContext m c method) := by
  refine lists_of_open hs (m := m) rfl fun model n q hm hf hh ho => ?_
  have hsolves := Model.solveWithContext_solves hs.compliant hm hf ho c method
  exact lists_of_run rfl rfl (.solved rfl hh (hsolves.congr_core (Model.core_core model).symm))

/-- **Every operation does one of the things in the list.** -/
theorem performed (hs : w.Sound) (o : Operation) : Performed w o (o.run.on w).1 (w.next o) := by
  show w.Lists o
  -- one lemma for each operation
  cases o with
  | create name direction options => exact lists_create hs name direction options
  | clone m => exact lists_clone hs m
  | free m => exact lists_free hs m
  | addVariable m name kind c l u => exact lists_addVariable hs m name kind c l u
  | addVariables m count stem kind c l u => exact lists_addVariables hs m count stem kind c l u
  | addConstraint m lower upper arguments coefficients =>
    exact lists_addConstraint hs m lower upper arguments coefficients
  | setKind v kind => exact lists_setKind hs v kind
  | setBounds v lower upper => exact lists_setBounds hs v lower upper
  | setCoefficient v coefficient => exact lists_setCoefficient hs v coefficient
  | setObjective m coefficients arguments => exact lists_setObjective hs m coefficients arguments
  | setDirection m direction => exact lists_setDirection hs m direction
  | setParameters m entries => exact lists_setParameters hs m entries
  | solve m method => exact lists_solve hs m method
  | solveWithContext m c method => exact lists_solveWithContext hs m c method
  | inquire i => exact lists_inquire hs i
  | meanwhile i => exact .elapsed

/-! ## §3 Sessions are sound -/

namespace World

/-- An interlude changes nothing that is held. -/
theorem holds_interlude (i : Interlude) {m : ModelId} {model : Model} {n : Nat} {q : Native.Problem} :
    (i.run.on w).2.Holds m model n q ↔ w.Holds m model n q :=
  ⟨fun h => ⟨h.found, h.unfreed, h.number, h.problem, h.kind⟩,
    fun h => ⟨h.found, h.unfreed, h.number, h.problem, h.kind⟩⟩

/-- What others do between operations leaves every model with its problem. -/
private theorem sound_interlude (hs : w.Sound) (i : Interlude) : (i.run.on w).2.Sound where
  compliant := hs.compliant
  holds hm hf := by
    obtain ⟨n, q, hh⟩ := hs.holds hm hf
    exact ⟨n, q, (holds_interlude i).mpr hh⟩
  apart h₁ h₂ := hs.apart ((holds_interlude i).mp h₁) ((holds_interlude i).mp h₂)

/-- An operation keeps a state sound. -/
theorem sound_of_performed (hs : w.Sound) {o : Operation} {a : Except Fault Answer} {w' : World}
    (h : Performed w o a w') : w'.Sound := by
  cases h with
  | refused h => exact (Undisturbed.of_idling h).sound hs
  | asked h => exact (Undisturbed.of_idling h).sound hs
  | @elapsed i => exact sound_interlude hs i
  | configured h => exact h.sound hs
  | created hd h₁ h₂ =>
    -- the problem of a new model is the next one of the store
    obtain rfl := h₁.eq_next rfl
    exact h₂.sound (h₁.sound hs) h₁.holds_new rfl rfl
  | undone h₁ h₂ =>
    obtain rfl := h₁.eq_next rfl
    exact h₂.sound (h₁.sound hs) h₁.holds_new
  | cloned hh h => exact h.sound hs
  | freed hh h => exact h.sound hs hh
  | freedBefore => exact hs
  | grew ho hh hn h => exact h.sound hs hh rfl rfl
  | constrained hh hc h => exact h.sound hs hh rfl rfl
  | kindSet hk hh ha h =>
    exact h.sound hs hh (Variable.withKind_freed ..) (Variable.withKind_engine ..)
  | boundsSet hb hh hp hi hk h => exact h.sound hs hh rfl rfl
  | boundsIgnored hb hh hp hi h => exact (Undisturbed.of_idling h).sound hs
  | coefficientSet hx hh h => exact h.sound hs hh rfl rfl
  | objectiveSet hh ha hv hc h => exact h.sound hs hh rfl rfl
  | directionSet hd hh h => exact h.sound hs hh rfl rfl
  | solved ho hh h =>
    rcases h with ⟨hran, -⟩ | ⟨t, touched, -, hran⟩
    · exact hran.edits.sound hs hh rfl rfl
    · cases touched <;> exact hran.edits.sound hs hh rfl rfl

theorem sound_next (hs : w.Sound) (o : Operation) : (w.next o).Sound :=
  sound_of_performed hs (performed hs o)

/-- The state at the outset is sound, as there are no models. -/
theorem sound_initial : initial.Sound where
  compliant := rfl
  holds hm _ := by simp [modelCore?, model?, initial] at hm
  apart h _ := by
    have hfound := h.found
    simp [modelCore?, model?, initial] at hfound

/-- **Every session is sound**: each open model holds a problem, and no two models hold the same one. -/
theorem sound_nextAll (hs : w.Sound) (os : List Operation) : (w.nextAll os).Sound := by
  induction os generalizing w with
  | nil => exact hs
  | cons o rest ih => exact ih (sound_next hs o)

end World

end LinearProgram
