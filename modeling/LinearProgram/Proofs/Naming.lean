import LinearProgram.Proofs.Engine.Columns
import LinearProgram.Proofs.Lifetime

/-!
# Names in a session

A model reserves the names of its variables, and its engine stores them. `World.naming` follows the names that
the operations of a session ask for, in terms of these operations alone; at every point of the session both the
reserved and the stored names of an open model are these, in the order of the columns. They are different from
each other, and none is empty.

An operation that fails changes no names, so a name that was asked for in vain is still free.
-/

namespace LinearProgram

open LinearProgram.Action

/-! ## §1 The names that operations ask for -/

/-- The names of the variables of each model, in order. -/
abbrev Naming := ModelId → List String

namespace Naming

def set (ns : Naming) (m : ModelId) (names : List String) : Naming := fun k => if k = m then names else ns k

/-- The names with further ones for new variables of a model. -/
def extend (ns : Naming) (m : ModelId) (given : Nat → String) (count : Nat) : Naming :=
  ns.set m (ns m ++ VariableName.choose given (ns m) count (ns m).length)

def answered (ns : Naming) (o : Operation) (answer : Answer) : Naming :=
  match o, answer with
  | .create .., .model m => ns.set m []
  | .clone source, .model m => ns.set m (ns source)
  | .addVariable m .., _ => ns.extend m o.given 1
  | .addVariables m count .., _ => ns.extend m o.given count.toNat
  | _, _ => ns

/-- The names after an event. What fails changes none. -/
def after (ns : Naming) (e : Event) : Naming :=
  match e.answer with
  | .ok answer => ns.answered e.operation answer
  | .error _ => ns

@[simp] theorem set_self (ns : Naming) (m : ModelId) (names : List String) : ns.set m names m = names := if_pos rfl

theorem set_of_ne (ns : Naming) {m k : ModelId} (h : k ≠ m) (names : List String) : ns.set m names k = ns k :=
  if_neg h

theorem set_eq_self (ns : Naming) (m : ModelId) : ns.set m (ns m) = ns := by
  funext k
  by_cases hk : k = m
  · rw [hk, set_self]
  · rw [set_of_ne ns hk]

variable {ns : Naming} {m : ModelId}

/-- An operation that adds columns adds names. -/
theorem after_of_grows {o : Operation} {count : Nat} {d : Model.VariableDraft} (ho : o.Grows m count d)
    (answer : Answer) (calls : List Native.Call) :
    ns.after ⟨o, .ok answer, calls⟩ = ns.extend m o.given count := by
  cases o with
  | addVariable m' =>
    obtain ⟨rfl, rfl, -⟩ := ho
    cases answer <;> rfl
  -- a batch takes its names as the given count, whatever the answer holds
  | addVariables m' count' =>
    obtain ⟨rfl, rfl, -⟩ := ho
    cases answer <;> rfl
  | _ => exact ho.elim

/-- An operation whose answers bring no names brings none when it fails either. -/
theorem after_of_answered {o : Operation} (ho : ∀ answer calls, ns.after ⟨o, .ok answer, calls⟩ = ns)
    (a : Except Fault Answer) (calls : List Native.Call) : ns.after ⟨o, a, calls⟩ = ns := by
  cases a with
  | error fault => rfl
  | ok answer => exact ho answer calls

/-- No solve changes names. -/
theorem after_of_solves {o : Operation} (ho : o.SolvesModel m) (a : Except Fault Answer)
    (calls : List Native.Call) : ns.after ⟨o, a, calls⟩ = ns := by
  refine after_of_answered (fun _ _ => ?_) a calls
  cases o with
  | solve | solveWithContext => rfl
  | _ => exact ho.elim

end Naming

/-- The names of the variables of all models after operations from the start. -/
def World.naming (os : List Operation) : Naming := (World.initial.events os).foldl Naming.after fun _ => []

/-! ## §2 Reserved and stored names -/

/-- The names that a model reserves, and those of the columns of its problem. -/
structure Model.Named (model : Model) (q : Native.Problem) (names : List String) : Prop where
  reserved : model.names = names
  stored : q.columnNames = names
  distinct : names.Nodup
  nonempty : ∀ name ∈ names, name ≠ ""

namespace Model.Named

variable {model model' : Model} {q : Native.Problem} {names : List String}

/-- A change of the model that keeps the reserved names, by calls that neither add nor name columns. -/
theorem edit (h : Named model q names) {cs : List Native.Call} (hnames : model'.names = model.names)
    (hcs : ∀ c ∈ cs, c.isNaming = false) : Named model' (q.applyAll cs).core names where
  reserved := hnames.trans h.reserved
  stored := by rw [Native.Problem.columnNames_core, Native.Problem.columnNames_applyAll hcs, h.stored]
  distinct := h.distinct
  nonempty := h.nonempty

theorem length_eq (h : Named model q names) : names.length = q.columnCount := by
  rw [← h.stored, Native.Problem.length_columnNames]

/-- New variables bring the names that are asked for. -/
theorem grow (h : Named model q names) (hq : q.kind? = some model.engine.kind) (m : ModelId) (d : VariableDraft)
    {given : Nat → String} {chosen : List String}
    (hc : VariableName.Chosen given model.names q.columnCount chosen) :
    Named (grown m q.columnCount chosen d.kind model)
      (q.applyAll (newVariablesCalls model.engine d q.columnCount chosen)).core
      (names ++ VariableName.choose given names chosen.length names.length) := by
  rw [h.reserved, ← h.length_eq] at hc
  rw [← hc.eq_choose]
  -- the names chosen go behind the old ones, in the model and in the engine
  refine ⟨?_, ?_, hc.nodup h.distinct, fun name hname => ?_⟩
  · show model.names ++ chosen = _
    rw [h.reserved]
  · rw [Native.Problem.columnNames_core, Engine.columnNames_newVariablesCalls hq, h.stored]
  · rcases List.mem_append.mp hname with hname | hname
    · exact h.nonempty name hname
    · exact hc.ne_empty name hname

end Model.Named

namespace Naming

variable {ns : Naming} {w w' : World} {m : ModelId} {model : Model} {n : Nat} {q : Native.Problem}

/-- Every model that holds a problem has its names, reserved and stored. -/
def Fits (ns : Naming) (w : World) : Prop := ∀ ⦃m model n q⦄, w.Holds m model n q → model.Named q (ns m)

theorem Fits.undisturbed (h : ns.Fits w) (hu : World.Undisturbed w w') : ns.Fits w' :=
  fun _ _ _ _ hh => h (hu.holds_iff.mp hh)

/-- After an edit, the model has other names, and the other models have theirs. -/
theorem Fits.edits (h : ns.Fits w) (hs : w.Sound) (hh : w.Holds m model n q) {f : Model → Model}
    {cs : List Native.Call} (he : World.Edits w w' m f n cs) (hfreed : (f model).freed = model.freed)
    (hengine : (f model).engine = model.engine) {names : List String}
    (hnamed : (f model).Named (q.applyAll cs).core names) : (ns.set m names).Fits w' := by
  intro m₁ model₁ n₁ q₁ hh₁
  rcases he.holds_cases hs hh hfreed hengine hh₁ with ⟨rfl, rfl, rfl, rfl⟩ | ⟨hne, hold⟩
  · rw [set_self]
    exact hnamed
  · -- the names of any other model are untouched
    rw [set_of_ne ns hne]
    exact h hold

/-- An edit that neither adds nor names columns changes no names. -/
theorem Fits.keep (h : ns.Fits w) (hs : w.Sound) (hh : w.Holds m model n q) {f : Model → Model}
    {cs : List Native.Call} (he : World.Edits w w' m f n cs) (hfreed : (f model).freed = model.freed)
    (hengine : (f model).engine = model.engine) (hnames : (f model).names = model.names)
    (hcs : ∀ c ∈ cs, c.isNaming = false) : ns.Fits w' := by
  have hkept := h.edits hs hh he hfreed hengine ((h hh).edit hnames hcs)
  rwa [set_eq_self] at hkept

/-- Setting attributes changes no names of columns. -/
theorem Fits.tune (h : ns.Fits w) (hs : w.Sound) (hh : w.Holds m model n q) {f : Model → Model}
    {cs : List Native.Call} (he : World.Edits w w' m f n cs) (hf : model.Retyped (f model))
    (hcs : ∀ c ∈ cs, c.isAttribute = true) : ns.Fits w' :=
  h.keep hs hh he hf.freed hf.engine hf.names fun c hc => Native.Call.isNaming_of_isAttribute (hcs c hc)

/-- A new model has names of its own. -/
theorem Fits.makes (h : ns.Fits w) (hs : w.Sound) (hm : World.Makes w w' model q) {names : List String}
    (hnamed : model.Named q names) : (ns.set w.models.size names).Fits w' := by
  intro m₁ model₁ n₁ q₁ hh₁
  rcases hm.holds_cases hs hh₁ with ⟨rfl, rfl, rfl, rfl⟩ | ⟨hne, hold⟩
  · rw [set_self]
    exact hnamed
  · rw [set_of_ne ns hne]
    exact h hold

/-- **One operation.** If all models have their names, they do so after an operation, for the names after it. -/
theorem fits_of_performed (h : ns.Fits w) (hs : w.Sound) {o : Operation} {a : Except Fault Answer}
    (hp : Performed w o a w') (calls : List Native.Call) : (ns.after ⟨o, a, calls⟩).Fits w' := by
  cases hp with
  | refused hidle => exact h.undisturbed (.of_idling hidle)
  | asked hidle =>
    rw [after_of_answered fun _ _ => rfl]
    exact h.undisturbed (.of_idling hidle)
  | elapsed => exact fun _ _ _ _ hh => h ((World.holds_interlude _).mp hh)
  | configured hu =>
    rw [after_of_answered fun _ _ => rfl]
    exact h.undisturbed hu
  | @created name _ _ d kind n w₁ _ hd h₁ h₂ =>
    -- a fresh model without names, then the calls that name its problem, which are not about columns
    obtain rfl := h₁.eq_next rfl
    have hmade : (Model.made kind w.native.next).Named (Engine.fresh kind) [] := by
      cases kind <;> exact ⟨rfl, rfl, List.nodup_nil, nofun⟩
    exact (h.makes hs h₁ hmade).tune (h₁.sound hs) h₁.holds_new h₂ (.refl _)
      (Engine.isAttribute_namingCalls _ _ _)
  | undone h₁ h₂ =>
    -- the model that was made is freed again, so what is held was held before
    exact fun _ _ _ _ hh₁ => h ((h₁.holds_iff_of_frees hs rfl h₂).mp hh₁)
  | cloned hh hm =>
    have hnamed := h hh
    exact h.makes hs hm ⟨hnamed.reserved, hnamed.stored, hnamed.distinct, hnamed.nonempty⟩
  | freed hh hf => exact fun _ _ _ _ hh₁ => h ((hf.holds_iff hs hh).mp hh₁).2
  | freedBefore =>
    rw [after_of_answered fun _ _ => rfl]
    exact h
  | @grew _ m count d names model n q _ ho hh hn he _ hc =>
    subst hn
    rw [after_of_grows ho]
    exact h.edits hs hh he rfl rfl ((h hh).grow hh.kind m d hc)
  | constrained hh _ he => exact h.keep hs hh he rfl rfl rfl (Engine.isNaming_rowsCalls _ _ _)
  | kindSet _ hh _ he =>
    rw [after_of_answered fun _ _ => rfl]
    exact h.tune hs hh he (Variable.retyped_withKind ..) (Engine.isAttribute_kindCalls _ _ _)
  | boundsSet _ hh _ _ _ he =>
    exact h.tune hs hh he (.refl _) (List.forall_mem_singleton.mpr (Engine.isAttribute_boundsCall _ _ _))
  | boundsIgnored _ _ _ _ hidle => exact h.undisturbed (.of_idling hidle)
  | coefficientSet _ hh he =>
    exact h.tune hs hh he (.refl _) (List.forall_mem_singleton.mpr (Engine.isAttribute_objectiveCall _ _ _))
  | objectiveSet hh _ _ _ he => exact h.tune hs hh he (.refl _) (Engine.isAttribute_objectiveCalls _ _)
  | directionSet _ hh he =>
    exact h.tune hs hh he (.refl _) (List.forall_mem_singleton.mpr (Engine.isAttribute_directionCall _ _))
  | solved ho hh hsolves =>
    -- a solve may load the matrix into the problem, whether it fails or not, and leaves the columns
    rw [after_of_solves ho]
    rcases hsolves with ⟨hran, -⟩ | ⟨t, touched, -, hran⟩
    · exact h.keep hs hh hran.edits rfl rfl rfl nofun
    · cases touched <;> exact h.keep hs hh hran.edits rfl rfl rfl (Engine.isNaming_loadCalls _ _)

theorem fits_initial (ns : Naming) : ns.Fits World.initial := by
  intro m model n q hh
  have hfound := hh.found
  simp [World.modelCore?, World.model?, World.initial] at hfound

/-- **Every session.** Whatever a caller does, each open model has the names that were asked for. -/
theorem fits_nextAll (h : ns.Fits w) (hs : w.Sound) (os : List Operation) :
    ((w.events os).foldl Naming.after ns).Fits (w.nextAll os) := by
  induction os generalizing w ns with
  | nil => exact h
  | cons o rest ih =>
    have hfirst : (ns.after (w.event o)).Fits (w.next o) := fits_of_performed h hs (performed hs o) _
    exact ih hfirst (World.sound_next hs o)

theorem fits_naming (os : List Operation) : (World.naming os).Fits (World.initial.nextAll os) :=
  fits_nextAll (fits_initial _) World.sound_initial os

end Naming

/-! ## §3 Operations that fail -/

namespace World

variable {w w' : World} {m : ModelId} {model : Model} {n : Nat} {q : Native.Problem}

/-- An edit of one model leaves all open models open. -/
private theorem Edits.stays_open {m₀ : ModelId} {model₀ : Model} {n₀ : Nat} {q₀ : Native.Problem}
    {f : Model → Model} {cs : List Native.Call} (he : Edits w w' m₀ f n₀ cs) (hs : w.Sound)
    (hh₀ : w.Holds m₀ model₀ n₀ q₀)
    (hfreed : (f model₀).freed = model₀.freed) (hengine : (f model₀).engine = model₀.engine)
    (hh : w.Holds m model n q) : ∃ model' n' q', w'.Holds m model' n' q' := by
  by_cases hm : m = m₀
  · subst hm
    exact ⟨_, _, _, he.holds hh₀ hfreed hengine⟩
  · exact ⟨_, _, _, (he.holds_other hs hh₀ hm).mpr hh⟩

/-- An operation that fails leaves all open models open. -/
theorem stays_open_of_performed (hs : w.Sound) {o : Operation} {a : Except Fault Answer} {fault : Fault}
    (hp : Performed w o a w') (ha : a = .error fault) (hh : w.Holds m model n q) :
    ∃ model' n' q', w'.Holds m model' n' q' := by
  cases hp with
  | refused hidle => exact ⟨_, _, _, (Undisturbed.of_idling hidle).holds_iff.mpr hh⟩
  | asked hidle => exact ⟨_, _, _, (Undisturbed.of_idling hidle).holds_iff.mpr hh⟩
  | configured hu => exact ⟨_, _, _, hu.holds_iff.mpr hh⟩
  -- a model was made and freed again; it is none of the old ones
  | undone h₁ h₂ => exact ⟨_, _, _, (h₁.holds_iff_of_frees hs rfl h₂).mpr hh⟩
  | freedBefore => exact ⟨_, _, _, hh⟩
  | kindSet _ hh₀ _ he =>
    exact he.stays_open hs hh₀ (Variable.withKind_freed ..) (Variable.withKind_engine ..) hh
  | solved _ hh₀ hsolves =>
    rcases hsolves with ⟨hran, -⟩ | ⟨t, touched, -, hran⟩
    · exact hran.edits.stays_open hs hh₀ rfl rfl hh
    · cases touched <;> exact hran.edits.stays_open hs hh₀ rfl rfl hh
  -- the other operations answered, against the hypothesis
  | _ => cases ha

/-! ## §4 States that sessions reach -/

/-- Operations from the start lead to this state. -/
def Reached (w : World) : Prop := ∃ os, w = initial.nextAll os

namespace Reached

theorem sound (h : w.Reached) : w.Sound := by
  obtain ⟨os, rfl⟩ := h
  exact sound_nextAll sound_initial os

instance : OperationClosed Reached where
  operation o := by
    rintro w ⟨os, rfl⟩
    exact ⟨os ++ [o], (nextAll_append initial os [o]).symm⟩

end Reached

end World

/-- The undertaking is not a limit of the libraries. -/
def Undertaking.IsGranted : Undertaking → Prop
  | limit _ => False
  | _ => True

instance : (u : Undertaking) → Decidable u.IsGranted
  | .limit _ => inferInstanceAs (Decidable False)
  | .perform _ | .fromArrays .. | .solveArrays .. | .within .. => inferInstanceAs (Decidable True)

/-- Whatever is undertaken on libraries without limits, operations lead there. -/
theorem World.Reached.undertake {us : List Undertaking} {w : World} (hus : ∀ u ∈ us, u.IsGranted)
    (h : w.Reached) : (w.undertake us).Reached :=
  OperationClosed.undertake h fun _ hmem => (hus _ hmem).elim

/-! ## §5 Everything in step -/

/-- Model `m` with its problem: there is one kind and one variable for each column, the variables count from
zero, and the reserved names are those of the columns, none of them empty and no two equal. -/
structure Model.InStep (m : ModelId) (model : Model) (q : Native.Problem) : Prop where
  kinds : model.kinds.length = q.columnCount
  vars : model.vars.length = q.columnCount
  indices : ∀ (i : Nat) (v : Variable), model.vars[i]? = some v → v.model = m ∧ v.index = i
  names : model.names = q.columnNames
  distinct : q.columnNames.Nodup
  nonempty : ∀ name ∈ q.columnNames, name ≠ ""

/-- A model whose columns have these names, and that is aligned with its problem, is in step with it. -/
theorem Model.Named.inStep {model : Model} {q : Native.Problem} {names : List String} (h : model.Named q names)
    {m : ModelId} (ha : model.Aligned m q) : model.InStep m q where
  kinds := ha.kinds
  vars := by rw [ha.vars, newVariables, List.length_map, List.length_range]
  indices i v hv := by
    rw [ha.vars, newVariables, List.getElem?_map] at hv
    -- the variables of an aligned model are numbered in order
    obtain ⟨k, hk, rfl⟩ := Option.map_eq_some_iff.mp hv
    obtain ⟨hlt, rfl⟩ := List.getElem?_eq_some_iff.mp hk
    simp
  names := h.reserved.trans h.stored.symm
  distinct := h.stored ▸ h.distinct
  nonempty := h.stored ▸ h.nonempty

/-- The operation adds `count` variables to model `m`. -/
def Operation.AddsVariables (m : ModelId) (count : Nat) : Operation → Prop
  | addVariable m' .. => m' = m ∧ count = 1
  | addVariables m' k .. => m' = m ∧ k = count
  | _ => False

/-- Which columns are added by an operation does not depend on how this is said. -/
theorem Operation.Grows.addsVariables {o : Operation} {m m' : ModelId} {count count' : Nat} {d : Model.VariableDraft}
    (h : o.Grows m count d) (ha : o.AddsVariables m' count') : m' = m ∧ count' = count := by
  cases o with
  | addVariable => exact ⟨ha.1.symm.trans h.1, ha.2.trans h.2.1.symm⟩
  | addVariables =>
    have hcount : (count' : Int) = count := ha.2.symm.trans h.2.1
    exact ⟨ha.1.symm.trans h.1, Int.ofNat_inj.mp hcount⟩
  | _ => exact h.elim

namespace World

variable {w w' : World} {m : ModelId} {model : Model} {n : Nat} {q : Native.Problem}

/-- In every reached state, an open model owns a problem, and both are in step. -/
theorem Reached.inStep (h : w.Reached) (hm : w.model? m = some model) (hf : model.freed = false) :
    ∃ n q, w.Holds m model.core n q.core ∧ model.engine.Owns w.native n q ∧ model.InStep m q := by
  obtain ⟨n, q, hh, ho⟩ := h.sound.holds_of_model? hm hf
  obtain ⟨os, rfl⟩ := h
  have hnamed := Naming.fits_naming os hh
  -- the invariants of names and of kinds hold of the cores
  have hstep := hnamed.inStep (aligned_nextAll aligned_initial sound_initial os hh)
  refine ⟨n, q, hh, ho, hstep.kinds.trans ?_, hstep.vars.trans ?_, hstep.indices, hstep.names.trans ?_, ?_, ?_⟩
  · exact Native.Problem.columnCount_core q
  · exact Native.Problem.columnCount_core q
  · exact Native.Problem.columnNames_core q
  · exact Native.Problem.columnNames_core q ▸ hstep.distinct
  · exact Native.Problem.columnNames_core q ▸ hstep.nonempty

/-- An operation that adds variables chooses a name for each. -/
theorem chosen_of_performed {o : Operation} {a : Except Fault Answer} {answer : Answer} {count : Nat}
    (hp : Performed w o a w') (ha : a = .ok answer) (ho : o.AddsVariables m count) (hh : w.Holds m model n q) :
    ∃ names model', names.length = count ∧ VariableName.Chosen o.given model.names q.columnCount names ∧
      w'.modelCore? m = some model' ∧ model'.names = model.names ++ names := by
  cases hp with
  | grew hgrows hh₁ hn he _ hc =>
    obtain ⟨rfl, rfl⟩ := hgrows.addsVariables ho
    obtain ⟨rfl, rfl, rfl⟩ := hh₁.unique hh
    exact ⟨_, _, hn, hc, (he.holds hh₁ rfl rfl).found, rfl⟩
  | solved hsolves =>
    cases o with
    | solve | solveWithContext => exact ho.elim
    | _ => exact hsolves.elim
  | refused => cases ha
  | _ => exact ho.elim

/-- An operation that fails leaves an open model open, with the names that it has. -/
theorem Reached.names_of_failed (h : w.Reached) (hh : w.Holds m model n q) {o : Operation} {fault : Fault}
    (ha : (o.run.on w).1 = .error fault) :
    ∃ model', (w.next o).model? m = some model' ∧ model'.freed = false ∧ model'.names = model.names := by
  have hs := h.sound
  have hp := performed hs o
  obtain ⟨os, rfl⟩ := h
  obtain ⟨model', n', q', hh'⟩ := stays_open_of_performed hs hp ha hh
  -- the names that were asked for are the same before and after, since the answer is a fault
  have hbefore := Naming.fits_naming os hh
  have hafter := Naming.fits_of_performed (Naming.fits_naming os) hs hp [] hh'
  rw [ha] at hafter
  obtain ⟨model'', -, hm, hf, -, rfl, -⟩ := hh'.owns
  exact ⟨model'', hm, hf, hafter.reserved.trans hbefore.reserved.symm⟩

/-- A name that is not in use is accepted, if the library can store it and the rest describes a variable. -/
theorem accepts_free_name (h : w.Compliant) (hm : w.model? m = some model) (hf : model.freed = false)
    (ho : model.engine.Owns w.native n q) {name : String} (hname : name ≠ "") (hfree : name ∉ model.names)
    (hstores : model.engine.kind = .glpk → Glpk.checkName name = .ok ()) {kind : Datum}
    {coefficient lower upper : Number} {d : Model.VariableDraft}
    (hd : Model.VariableDraft.read kind coefficient lower upper = .ok d) :
    ((Model.addVariable m name kind coefficient lower upper).on w).1 = .ok ⟨m, q.columnCount⟩ := by
  have hcheck (w : World) : (model.engine.checkName name).on w = (.ok (), w) := by
    unfold Engine.checkName
    cases hk : model.engine.kind with
    | glpk => exact (on_lift _ w).trans (by rw [hstores hk])
    | lpsolve => rfl
  -- a free name is picked as it is given
  have hpick (w : World) :
      (Model.pickNames model.engine model.names (fun _ => name) 1 q.columnCount).on w = (.ok [name], w) := by
    unfold Model.pickNames
    rw [VariableName.pick_of_notMem hname hfree, on_bind_of_ok (on_lift _ w), on_bind_of_ok (hcheck w)]
    rfl
  obtain ⟨-, -, hon⟩ := Model.on_addColumns_of_picked h hm hf ho hpick d
  unfold Model.addVariable
  rw [hd, on_bind_of_ok (on_lift _ w), on_bind_of_ok hon, Model.newVariables_one]
  rfl

/-- **Columns, variables, kinds and names stay in step.** In every state that can be brought about on libraries
without limits, for every open model: its engine owns a problem that is in step with it, and this is what the
model tells. Operations that add variables append names that are as given, or the first candidates that are not
in use. An operation that fails reserves no name, and a name that is not in use can be given to a new variable.
The generation of names always succeeds. -/
theorem names_in_step {us : List Undertaking} (hus : ∀ u ∈ us, u.IsGranted) {m : ModelId} {model : Model}
    (hm : (initial.undertake us).model? m = some model) (hf : model.freed = false) :
    let w := initial.undertake us
    let count := model.kinds.length
    (∃ n q, model.engine.Owns w.native n q ∧ model.InStep m q) ∧
      ((Model.variableCount m).on w).1 = .ok count ∧ ((Model.listVariables m).on w).1 = .ok model.vars ∧
      (∀ (i : Nat) name, model.names[i]? = some name → ((⟨m, i⟩ : Variable).name.on w).1 = .ok name) ∧
      (∀ o k answer, o.AddsVariables m k → (o.run.on w).1 = .ok answer →
        ∃ names model', names.length = k ∧ (w.next o).model? m = some model' ∧
          model'.names = model.names ++ names ∧
          ∀ i name, names[i]? = some name → (o.given (count + i) ≠ "" → name = o.given (count + i)) ∧
            (o.given (count + i) = "" → VariableName.IsFirstFree (model.names ++ names.take i) (count + i) name)) ∧
      (∀ o fault, (o.run.on w).1 = .error fault →
        ∃ model', (w.next o).model? m = some model' ∧ model'.freed = false ∧ model'.names = model.names) ∧
      (∀ name kind coefficient lower upper d, name ≠ "" → name ∉ model.names →
        (model.engine.kind = .glpk → Glpk.checkName name = .ok ()) →
        Model.VariableDraft.read kind coefficient lower upper = .ok d →
        ((Model.addVariable m name kind coefficient lower upper).on w).1 = .ok ⟨m, count⟩) ∧
      ∀ taken index, VariableName.IsFirstFree taken index (VariableName.generate taken index) := by
  intro w count
  have hreached : w.Reached := Reached.undertake hus ⟨[], rfl⟩
  have hw : w.Compliant := hreached.sound.compliant
  obtain ⟨n, q, hh, ho, hstep⟩ := hreached.inStep hm hf
  have hcount : q.columnCount = count := hstep.kinds.symm
  have hopen := on_openModel_of_open hm hf
  -- what the model tells is read off the problem that is in step with it
  refine ⟨⟨n, q, ho, hstep⟩, ?_, ?_, fun i name hi => ?_, fun o k answer hadds hanswer => ?_,
    fun o fault ha => hreached.names_of_failed hh ha, fun name kind c l u d hname hfree hstores hd => ?_,
    VariableName.generate_isFirstFree⟩
  · unfold Model.variableCount
    rw [on_bind_of_ok hopen, Engine.on_columnCount (hw.grants _) ho, hcount]
  · unfold Model.listVariables
    rw [on_bind_of_ok hopen]
    rfl
  · unfold Variable.name
    rw [on_bind_of_ok hopen]
    exact Engine.on_columnName hw ho (hstep.names ▸ hi)
  · obtain ⟨names, model', hlength, hchosen, hm', hnames⟩ :=
      chosen_of_performed (performed hreached.sound o) hanswer hadds hh
    obtain ⟨model'', hm'', rfl⟩ := Option.map_eq_some_iff.mp hm'
    have hindex : q.core.columnCount = count := (Native.Problem.columnCount_core q).trans hcount
    rw [hindex] at hchosen
    exact ⟨names, model'', hlength, hm'', hnames, fun i name hi => hchosen.at_position hi⟩
  · rw [accepts_free_name hw hm hf ho hname hfree hstores hd, hcount]

/-- A session in which given names collide with generated ones, both ways, and a name is given in vain first. -/
def collisions : List Undertaking :=
  [.perform (.create "names" (.text "minimize") []),
    .perform (.addVariable 0 "V1" (.text "continuous") .one .zero .one),
    .perform (.addVariables 0 2 "" (.text "integer") .one .zero .one),
    .perform (.addVariable 0 "V2" (.text "binary") .one .zero .one),
    .perform (.addVariable 0 "x" (.text "continuous") .one (.float Double.nan) .one),
    .perform (.clone 0),
    .perform (.addVariable 1 "x" (.text "continuous") .one .zero .one),
    .perform (.addVariables 1 2 "V" (.text "continuous") .one .zero .one)]

/-- The copy made in that session has six variables, and it would take one more named `V3`. -/
theorem names_after_collisions : ∃ model n q,
    (initial.undertake collisions).model? 1 = some model ∧
      model.names = ["V1", "V1_1", "V2", "x", "V4", "V5"] ∧
      model.engine.Owns (initial.undertake collisions).native n q ∧ model.InStep 1 q ∧
      q.columnNames = ["V1", "V1_1", "V2", "x", "V4", "V5"] ∧
      ((Model.addVariable 1 "V3" (.text "continuous") .one .zero .one).on (initial.undertake collisions)).1 =
        .ok ⟨1, 6⟩ := by
  have hseen : ((initial.undertake collisions).model? 1).map
      (fun model => (model.freed, model.names, model.kinds.length)) =
        some (false, ["V1", "V1_1", "V2", "x", "V4", "V5"], 6) := by decide +kernel
  obtain ⟨model, hm, hmodel⟩ := Option.map_eq_some_iff.mp hseen
  obtain ⟨hfreed, hnames, hkinds⟩ : model.freed = false ∧
      model.names = ["V1", "V1_1", "V2", "x", "V4", "V5"] ∧ model.kinds.length = 6 := by simpa using hmodel
  have hall := @names_in_step collisions (by decide) 1 model hm hfreed
  obtain ⟨⟨n, q, ho, hstep⟩, -, -, -, -, -, htakes, -⟩ := hall
  obtain ⟨d, hd⟩ : ∃ d, Model.VariableDraft.read (.text "continuous") .one .zero .one = .ok d := ⟨_, rfl⟩
  refine ⟨model, n, q, hm, hnames, ho, hstep, hstep.names ▸ hnames, ?_⟩
  -- "V3" is still free: the six names taken do not include it
  have htaken := htakes "V3" (.text "continuous") .one .zero .one d (by decide) (by rw [hnames]; decide)
    (fun _ => rfl) hd
  rw [htaken, hkinds]
  rfl

end World

end LinearProgram
