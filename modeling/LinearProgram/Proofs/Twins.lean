import LinearProgram.Proofs.Alike
import Mathlib.Data.List.Forall2
import Mathlib.Data.Option.Basic

/-!
# Twin states

Two states are *alike*, as far as some of their models go, when these models hold alike records and alike
problems and everything else that an operation can depend on is the same. A `Pairing` says which model of
the one state stands for which model of the other, and which problem for which problem. What only printing
depends on is left out: the printers, the log, and the hook and the verbosity that decide about messages.

`Action.Alike` says that two actions, started in related states, end alike: both answer, with related
answers, or both fail with the same fault, in related states. It holds of compound actions as soon as it
holds of their parts. The relation that is followed is `Twins`: besides being alike, the two states have come
from two earlier ones by calls that differ in nothing but the numbers of paired problems, and neither has
changed a model or a problem that is not paired.
-/

namespace LinearProgram

open LinearProgram.Action

/-- What follows from a relation for the left-hand sides holds of all of them. -/
theorem forall_left {α β : Type} {R : α → β → Prop} {P : α → Prop} {l : List α} {l' : List β}
    (h : List.Forall₂ R l l') (hR : ∀ a b, R a b → P a) : ∀ a ∈ l, P a := by
  induction h with
  | nil => simp
  | cons hr _ ih => exact List.forall_mem_cons.mpr ⟨hR _ _ hr, ih⟩

/-! ## §1 Pairings -/

/-- Which models and which problems of two states stand for each other. `shift` is by how much the count of
changes of a model in the first state is ahead of that of its counterpart. -/
structure Pairing where
  models : ModelId → ModelId → Prop
  problems : Nat → Nat → Prop
  shift : Nat
  models_iff : ∀ {a a' b b'}, models a a' → models b b' → (a = b ↔ a' = b')
  problems_iff : ∀ {n n' k k'}, problems n n' → problems k k' → (n = k ↔ n' = k')

namespace Pairing

/-- One model and its problem stand for another model and its problem. -/
def single (m m' : ModelId) (n n' shift : Nat) : Pairing where
  models a a' := a = m ∧ a' = m'
  problems k k' := k = n ∧ k' = n'
  shift := shift
  models_iff := by
    rintro a a' b b' ⟨rfl, rfl⟩ ⟨rfl, rfl⟩
    exact iff_of_true rfl rfl
  problems_iff := by
    rintro a a' b b' ⟨rfl, rfl⟩ ⟨rfl, rfl⟩
    exact iff_of_true rfl rfl

/-- Each of some models and each of some problems stands for itself. -/
def diagonal (models : ModelId → Prop) (problems : Nat → Prop) : Pairing where
  models a a' := a = a' ∧ models a
  problems n n' := n = n' ∧ problems n
  shift := 0
  models_iff := by
    rintro a a' b b' ⟨rfl, -⟩ ⟨rfl, -⟩
    exact Iff.rfl
  problems_iff := by
    rintro n n' k k' ⟨rfl, -⟩ ⟨rfl, -⟩
    exact Iff.rfl

end Pairing

variable (π : Pairing)

/-- The calls differ in nothing but the numbers of paired problems. -/
structure Native.Call.Alike (c c' : Native.Call) : Prop where
  body : c.rename (fun _ => 0) = c'.rename (fun _ => 0)
  problems : List.Forall₂ π.problems c.problems c'.problems

/-- Engines of one kind with paired problems. -/
structure Engine.Alike (e e' : Engine) : Prop where
  kind : e.kind = e'.kind
  number : π.problems e.number e'.number
  abort : e.abort = e'.abort

/-- Variables of paired models at one position. -/
structure Variable.Alike (v v' : Variable) : Prop where
  model : π.models v.model v'.model
  index : v.index = v'.index

/-- Results of paired models at corresponding counts of changes. -/
structure SolveResult.Alike (r r' : SolveResult) : Prop where
  model : π.models r.model r'.model
  revision : r.revision = r'.revision + π.shift
  status : r.status = r'.status
  method : r.method = r'.method

/-- Models with alike records; the engine of a model that has been freed does not count. -/
structure Model.Alike (x x' : Model) : Prop where
  engine : x.freed = false → x.engine.Alike π x'.engine
  freed : x.freed = x'.freed
  parameters : x.parameters = x'.parameters
  kinds : x.kinds = x'.kinds
  vars : List.Forall₂ (Variable.Alike π) x.vars x'.vars
  names : x.names = x'.names
  entries : x.entries = x'.entries
  constraintCount : x.constraintCount = x'.constraintCount
  revision : x.revision = x'.revision + π.shift

/-- What decides who owns a problem: whether the model has been freed, and the problem of its engine. -/
def Model.owner (x : Model) : Bool × EngineKind × Option Nat := (x.freed, x.engine.kind, x.engine.problem)

namespace World

/-- Paired models and paired problems are alike, and whatever else matters is the same. -/
structure Alike (w w' : World) : Prop where
  clock : w.clock = w'.clock
  contexts : w.contexts = w'.contexts
  script : w.script = w'.script
  surroundings : w.surroundings = w'.surroundings
  allowance : w.allowance = w'.allowance
  registry : w.registry.map Target.outline = w'.registry.map Target.outline
  models : ∀ {a a'}, π.models a a' → Option.Rel (Model.Alike π) (w.model? a) (w'.model? a')
  problems : ∀ {n n'}, π.problems n n' → w.native.muted? n = w'.native.muted? n'

/-- From `v` to `w`, calls were made that name only problems among `problems` and neither make nor delete any,
only models among `models` were changed, and of these not who owns what, and no library was loaded. -/
structure Keeps (models : ModelId → Prop) (problems : Nat → Prop) (v w : World) : Prop where
  calls : ∃ cs : List Native.Call, w.calls = v.calls ++ cs.toArray ∧
    ∀ c ∈ cs, c.isLife = false ∧ ∀ n ∈ c.problems, problems n
  functions : w.allowance.map Prod.fst = v.allowance.map Prod.fst
  library : w.library = v.library
  modelCount : w.models.size = v.models.size
  owner : ∀ k, (w.model? k).map Model.owner = (v.model? k).map Model.owner
  otherModels : ∀ k, ¬ models k → w.model? k = v.model? k
  problemCount : w.native.problems.size = v.native.problems.size
  kind : ∀ n, (w.native.problem? n).map Native.Problem.kind? = (v.native.problem? n).map Native.Problem.kind?
  otherProblems : ∀ n, ¬ problems n → w.native.problem? n = v.native.problem? n

end World

/-- Alike states that have come from `v` and `v'` by alike calls, with nothing changed that is not paired. -/
structure Twins (v v' w w' : World) : Prop where
  alike : w.Alike π w'
  calls : List.Forall₂ (Native.Call.Alike π) (v.callsSince w) (v'.callsSince w')
  left : v.Keeps (fun a => ∃ a', π.models a a') (fun n => ∃ n', π.problems n n') w
  right : v'.Keeps (fun a' => ∃ a, π.models a a') (fun n' => ∃ n, π.problems n n') w'

/-! ## §2 Steps from twins to twins -/

variable {π}

namespace Native.Call.Alike

variable {c c' : Native.Call}

theorem function (h : c.Alike π c') : c.function = c'.function := by
  rw [← function_rename (fun _ => 0) c, h.body, function_rename]

theorem isLife (h : c.Alike π c') : c.isLife = c'.isLife := by
  rw [← isLife_rename (fun _ => 0) c, h.body, isLife_rename]

theorem apply (h : c.Alike π c') (q : Problem) : q.apply c = q.apply c' := by
  rw [← apply_rename (fun _ => 0) c, h.body, apply_rename]

/-- Such a call names a problem exactly if the other one names its counterpart. -/
theorem mem_iff (h : c.Alike π c') (hlife : c.isLife = false) {n n' : Nat} (hn : π.problems n n') :
    n ∈ c.problems ↔ n' ∈ c'.problems := by
  have hpaired := h.problems
  -- a call that neither makes nor deletes names one problem or none
  rcases problems_of_isLife_eq_false hlife with ⟨k, hk⟩ | hk
  · rw [hk] at hpaired
    obtain ⟨k', t, hk', ht, hcons⟩ := List.forall₂_cons_left_iff.mp hpaired
    rw [List.forall₂_nil_left_iff] at ht
    rw [hk, hcons, ht, List.mem_singleton, List.mem_singleton]
    exact π.problems_iff hn hk'
  · rw [hk, List.forall₂_nil_left_iff] at hpaired
    rw [hk, hpaired]
    simp

end Native.Call.Alike

namespace World.Keeps

variable {models : ModelId → Prop} {problems : Nat → Prop} {u v w : World}

theorem extends_ (h : v.Keeps models problems w) : v.Extends w := by
  obtain ⟨cs, hcs, -⟩ := h.calls
  exact Extends.of_calls cs hcs

/-- Nothing but surroundings and records may differ. -/
theorem of_same (hcalls : w.calls = v.calls) (hallowance : w.allowance = v.allowance)
    (hlibrary : w.library = v.library) (hmodels : w.models = v.models) (hnative : w.native = v.native) :
    v.Keeps models problems w where
  calls := ⟨[], by simp [hcalls], by simp⟩
  functions := by rw [hallowance]
  library := hlibrary
  modelCount := by rw [hmodels]
  owner k := by rw [model?, hmodels]; rfl
  otherModels k _ := by rw [model?, hmodels]; rfl
  problemCount := by rw [hnative]
  kind n := by rw [hnative]
  otherProblems n _ := by rw [hnative]

protected theorem refl (w : World) : w.Keeps models problems w := of_same rfl rfl rfl rfl rfl

/-- What two steps keep, both together keep. -/
protected theorem trans (h₁ : u.Keeps models problems v) (h₂ : v.Keeps models problems w) :
    u.Keeps models problems w where
  calls := by
    obtain ⟨cs, hcs, hmem⟩ := h₁.calls
    obtain ⟨ds, hds, hmem'⟩ := h₂.calls
    refine ⟨cs ++ ds, by simp [hds, hcs], fun c hc => ?_⟩
    rcases List.mem_append.mp hc with hc | hc
    · exact hmem c hc
    · exact hmem' c hc
  functions := h₂.functions.trans h₁.functions
  library := h₂.library.trans h₁.library
  modelCount := h₂.modelCount.trans h₁.modelCount
  owner k := (h₂.owner k).trans (h₁.owner k)
  otherModels k hk := (h₂.otherModels k hk).trans (h₁.otherModels k hk)
  problemCount := h₂.problemCount.trans h₁.problemCount
  kind n := (h₂.kind n).trans (h₁.kind n)
  otherProblems n hn := (h₂.otherProblems n hn).trans (h₁.otherProblems n hn)

/-- More models and problems may be changed. -/
protected theorem mono {models' : ModelId → Prop} {problems' : Nat → Prop} (h : v.Keeps models problems w)
    (hmodels : ∀ k, models k → models' k) (hproblems : ∀ n, problems n → problems' n) :
    v.Keeps models' problems' w where
  calls := by
    obtain ⟨cs, hcs, hmem⟩ := h.calls
    exact ⟨cs, hcs, fun c hc => ⟨(hmem c hc).1, fun n hn => hproblems n ((hmem c hc).2 n hn)⟩⟩
  functions := h.functions
  library := h.library
  modelCount := h.modelCount
  owner := h.owner
  otherModels k hk := h.otherModels k fun hk' => hk (hmodels k hk')
  problemCount := h.problemCount
  kind := h.kind
  otherProblems n hn := h.otherProblems n fun hn' => hn (hproblems n hn')

/-- Counting a call against its allowance does not change which functions have one. -/
theorem functions_of_spend {function : String} {allowance allowance' : List (String × Nat)}
    (h : spend function allowance = some allowance') : allowance'.map Prod.fst = allowance.map Prod.fst := by
  induction allowance generalizing allowance' with
  | nil => cases h; rfl
  | cons e rest ih =>
    obtain ⟨f, k⟩ := e
    unfold spend at h
    -- spending lowers a count and drops no function from the list
    split at h
    · cases k with
      | zero => cases h
      | succ k => cases h; rfl
    · obtain ⟨rest', hrest, rfl⟩ := Option.map_eq_some_iff.mp h
      simp [ih hrest]

/-- Who owns what has been so from the start. -/
theorem open_iff (h : v.Keeps models problems w) (m : ModelId) : w.Open m ↔ v.Open m := by
  have howner := congrArg (Option.map Prod.fst) (h.owner m)
  rw [Option.map_map, Option.map_map] at howner
  rw [World.open_iff, World.open_iff]
  exact iff_of_eq (congrArg (· = some false) howner)

/-- A call that was carried out. -/
theorem of_call {c : Native.Call} (hlife : c.isLife = false) (hc : ∀ n ∈ c.problems, problems n)
    {allowance : List (String × Nat)} (hspend : spend c.function w.allowance = some allowance) :
    w.Keeps models problems { w.after c with allowance := allowance } where
  calls := ⟨[c], by simp [after], by simpa using ⟨hlife, hc⟩⟩
  functions := functions_of_spend hspend
  library := rfl
  modelCount := rfl
  owner _ := rfl
  otherModels _ _ := rfl
  problemCount := Native.Store.size_apply_of_isLife_eq_false hlife w.native
  kind n := by
    show ((w.native.apply c).problem? n).map _ = _
    rw [Native.Store.problem?_apply_of_isLife_eq_false hlife]
    split
    · cases w.native.problem? n <;> simp
    · rfl
  otherProblems n hn := by
    show (w.native.apply c).problem? n = _
    rw [Native.Store.problem?_apply_of_isLife_eq_false hlife, if_neg fun hmem => hn (hc n hmem)]

/-- A change of one model that keeps who owns what. -/
theorem of_modifyModel {m : ModelId} {f : Model → Model} (hm : models m)
    (hf : ∀ x, w.model? m = some x → (f x).owner = x.owner) :
    w.Keeps models problems (w.modifyModel m f) where
  calls := ⟨[], by simp [modifyModel], by simp⟩
  functions := rfl
  library := rfl
  modelCount := by simp [modifyModel]
  owner k := by
    unfold modifyModel model?
    rw [Array.getElem?_modify]
    -- the owner of the model is the same by `hf`
    split
    · next hk =>
      subst hk
      cases hx : w.models[m]? with
      | none => rfl
      | some x => exact congrArg some (hf x hx)
    · rfl
  otherModels k hk := by
    unfold modifyModel model?
    rw [Array.getElem?_modify, if_neg fun h => hk (by rwa [← h])]
  problemCount := rfl
  kind _ := rfl
  otherProblems _ _ := rfl

/-- A change of one problem that keeps its kind. -/
theorem of_modify {n : Nat} {f : Native.Problem → Native.Problem} (hn : problems n)
    (hf : ∀ q, (f q).kind? = q.kind?) :
    w.Keeps models problems { w with native := w.native.modify n f } where
  calls := ⟨[], by simp, by simp⟩
  functions := rfl
  library := rfl
  modelCount := rfl
  owner _ := rfl
  otherModels _ _ := rfl
  problemCount := Native.Store.size_modify _ _ _
  kind k := by
    show ((w.native.modify n f).problem? k).map _ = _
    rw [Native.Store.problem?_modify]
    split
    · next hk =>
      subst hk
      cases w.native.problem? k with
      | none => rfl
      | some q => exact congrArg some (hf q)
    · rfl
  otherProblems k hk := by
    show (w.native.modify n f).problem? k = _
    rw [Native.Store.problem?_modify, if_neg fun h => hk (by rwa [h])]

end World.Keeps

namespace Twins

variable {v v' w w' u u' : World}

/-- Where the way begins. -/
theorem start (h : w.Alike π w') : Twins π w w' w w' where
  alike := h
  calls := by simp
  left := .refl w
  right := .refl w'

/-- Twin steps may be looked at one after the other. -/
theorem trans (h₁ : Twins π v v' w w') (h₂ : Twins π w w' u u') : Twins π v v' u u' where
  alike := h₂.alike
  calls := by
    rw [World.callsSince_trans h₁.left.extends_ h₂.left.extends_,
      World.callsSince_trans h₁.right.extends_ h₂.right.extends_]
    exact List.rel_append h₁.calls h₂.calls
  left := h₁.left.trans h₂.left
  right := h₁.right.trans h₂.right

/-- Surroundings and records change on both sides. -/
theorem of_same (h : u.Alike π u') (hcalls : u.calls = w.calls) (hallowance : u.allowance = w.allowance)
    (hlibrary : u.library = w.library) (hmodels : u.models = w.models) (hnative : u.native = w.native)
    (hcalls' : u'.calls = w'.calls) (hallowance' : u'.allowance = w'.allowance)
    (hlibrary' : u'.library = w'.library) (hmodels' : u'.models = w'.models) (hnative' : u'.native = w'.native) :
    Twins π w w' u u' where
  alike := h
  calls := by
    rw [World.callsSince_of_calls [] (by simp [hcalls]), World.callsSince_of_calls [] (by simp [hcalls'])]
    exact List.Forall₂.nil
  left := .of_same hcalls hallowance hlibrary hmodels hnative
  right := .of_same hcalls' hallowance' hlibrary' hmodels' hnative'

/-- The number of a problem stands for no other one. -/
private theorem muted?_modify {s s' : Native.Store} {n n' : Nat} {f f' : Native.Problem → Native.Problem}
    (hn : π.problems n n') (hf : ∀ {q q' : Native.Problem}, q.muted = q'.muted → (f q).muted = (f' q').muted)
    (h : ∀ {k k'}, π.problems k k' → s.muted? k = s'.muted? k') {k k' : Nat} (hk : π.problems k k') :
    (s.modify n f).muted? k = (s'.modify n' f').muted? k' := by
  have hsame := h hk
  unfold Native.Store.muted? at hsame ⊢
  rw [Native.Store.problem?_modify, Native.Store.problem?_modify]
  -- paired numbers are changed together or not at all
  by_cases heq : k = n
  · have heq' := (π.problems_iff hk hn).mp heq
    subst heq heq'
    rw [if_pos rfl, if_pos rfl]
    rcases hq : s.problem? k with _ | q <;> rcases hq' : s'.problem? k' with _ | q' <;>
      rw [hq, hq'] at hsame
    · rfl
    · cases hsame
    · cases hsame
    · exact congrArg some (hf (Option.some.inj hsame))
  · rw [if_neg heq, if_neg fun h' => heq ((π.problems_iff hk hn).mpr h'), hsame]

/-- The same change of counterparts. -/
theorem of_modify (h : w.Alike π w') {n n' : Nat} {f f' : Native.Problem → Native.Problem}
    (hn : π.problems n n') (hkind : ∀ q, (f q).kind? = q.kind?) (hkind' : ∀ q, (f' q).kind? = q.kind?)
    (hf : ∀ {q q' : Native.Problem}, q.muted = q'.muted → (f q).muted = (f' q').muted) :
    Twins π w w' { w with native := w.native.modify n f } { w' with native := w'.native.modify n' f' } where
  alike := { h with problems := fun hk => muted?_modify hn hf h.problems hk }
  calls := by
    rw [World.callsSince_of_calls [] (by simp), World.callsSince_of_calls [] (by simp)]
    exact List.Forall₂.nil
  left := .of_modify ⟨n', hn⟩ hkind
  right := .of_modify ⟨n, hn⟩ hkind'

/-- Alike changes of counterparts among the models. -/
theorem of_modifyModel (h : w.Alike π w') {m m' : ModelId} (hm : π.models m m') {f f' : Model → Model}
    (howner : ∀ x, w.model? m = some x → (f x).owner = x.owner)
    (howner' : ∀ x, w'.model? m' = some x → (f' x).owner = x.owner)
    (hf : ∀ x x', w.model? m = some x → w'.model? m' = some x' → x.Alike π x' → (f x).Alike π (f' x')) :
    Twins π w w' (w.modifyModel m f) (w'.modifyModel m' f') where
  alike := {
    h with
    models := fun {a a'} ha => by
      have hsame := h.models ha
      unfold World.modifyModel World.model? at *
      rw [Array.getElem?_modify, Array.getElem?_modify]
      by_cases heq : m = a
      · have heq' := (π.models_iff hm ha).mp heq
        subst heq heq'
        rw [if_pos rfl, if_pos rfl]
        rcases hx : w.models[m]? with _ | x <;> rcases hx' : w'.models[m']? with _ | x' <;>
          rw [hx, hx'] at hsame
        · exact .none
        · cases hsame
        · cases hsame
        · cases hsame with
          | some halike => exact .some (hf x x' hx hx' halike)
      · rw [if_neg heq, if_neg fun h' => heq ((π.models_iff hm ha).mpr h')]
        exact hsame }
  calls := by
    rw [World.callsSince_of_calls [] (by simp [World.modifyModel]),
      World.callsSince_of_calls [] (by simp [World.modifyModel])]
    exact List.Forall₂.nil
  left := .of_modifyModel ⟨m', hm⟩ howner
  right := .of_modifyModel ⟨m, hm⟩ howner'

/-- Alike calls that were carried out. -/
theorem of_call (h : w.Alike π w') {c c' : Native.Call} (hc : c.Alike π c') (hlife : c.isLife = false)
    {allowance : List (String × Nat)} (hspend : spend c.function w.allowance = some allowance) :
    Twins π w w' { w.after c with allowance := allowance } { w'.after c' with allowance := allowance } where
  alike := {
    h with
    allowance := rfl
    problems := fun {k k'} hk => by
      have hsame := h.problems hk
      unfold Native.Store.muted? at hsame ⊢
      show ((w.native.apply c).problem? k).map _ = ((w'.native.apply c').problem? k').map _
      rw [Native.Store.problem?_apply_of_isLife_eq_false hlife,
        Native.Store.problem?_apply_of_isLife_eq_false (hc.isLife ▸ hlife)]
      by_cases hmem : k ∈ c.problems
      · rw [if_pos hmem, if_pos ((hc.mem_iff hlife hk).mp hmem)]
        rcases hq : w.native.problem? k with _ | q <;> rcases hq' : w'.native.problem? k' with _ | q' <;>
          rw [hq, hq'] at hsame
        · rfl
        · cases hsame
        · cases hsame
        · have hmuted := Native.Problem.muted_apply_congr (Option.some.inj hsame) c
          rw [Option.map_some, Option.map_some, Option.map_some, Option.map_some, hmuted, hc.apply q']
      · rw [if_neg hmem, if_neg fun h' => hmem ((hc.mem_iff hlife hk).mpr h')]
        exact hsame }
  calls := by
    rw [World.callsSince_of_calls [c] (by simp [World.after]),
      World.callsSince_of_calls [c'] (by simp [World.after])]
    exact List.Forall₂.cons hc List.Forall₂.nil
  left := .of_call hlife (forall_left hc.problems fun _ n' hn => ⟨n', hn⟩) hspend
  right := .of_call (hc.isLife ▸ hlife) (forall_left hc.problems.flip fun _ n hn => ⟨n, hn⟩)
    (by rw [← hc.function, ← h.allowance, hspend])

end Twins

/-! ## §3 Alike actions -/

/-- Related answers, or the same fault. -/
inductive Agree {α β : Type} (Q : α → β → Prop) : Except Fault α → Except Fault β → Prop
  | ok {x : α} {y : β} (h : Q x y) : Agree Q (.ok x) (.ok y)
  | error (fault : Fault) : Agree Q (.error fault) (.error fault)

namespace Action

variable {α β γ δ : Type}

/-- From related states the actions lead to related states, with related answers or the same fault. -/
def Alike (R : World → World → Prop) (Q : α → β → Prop) (a : Action α) (b : Action β) : Prop :=
  ∀ w w', R w w' → Agree Q (a.on w).1 (b.on w').1 ∧ R (a.on w).2 (b.on w').2

namespace Alike

variable {R : World → World → Prop} {Q : α → β → Prop} {S : γ → δ → Prop}

theorem pure {x : α} {y : β} (h : Q x y) : Alike R Q (Pure.pure x) (Pure.pure y) := fun _ _ hr => ⟨.ok h, hr⟩

theorem fail (fault : Fault) : Alike R Q (Action.fail fault) (Action.fail fault) :=
  fun _ _ hr => ⟨.error fault, hr⟩

theorem lift (r : Except Fault α) : Alike R Eq (Action.lift r) (Action.lift r) := by
  intro w w' hr
  rw [on_lift, on_lift]
  cases r with
  | error fault => exact ⟨.error fault, hr⟩
  | ok x => exact ⟨.ok rfl, hr⟩

/-- Sequences are alike if their first parts are, and what follows is for answers that go together. -/
theorem bind {a : Action α} {b : Action β} {f : α → Action γ} {g : β → Action δ} (h : Alike R Q a b)
    (hf : ∀ x y, Q x y → Alike R S (f x) (g y)) : Alike R S (a >>= f) (b >>= g) := by
  intro w w' hr
  obtain ⟨hagree, hr'⟩ := h w w' hr
  rw [on_bind, on_bind]
  rcases ha : a.on w with ⟨fault | x, u⟩ <;> rcases hb : b.on w' with ⟨fault' | y, u'⟩ <;>
    rw [ha, hb] at hagree hr'
  · -- one side cannot fail and the other answer
    cases hagree
    exact ⟨.error fault, hr'⟩
  · cases hagree
  · cases hagree
  · cases hagree with
    | ok hxy => exact hf x y hxy u u' hr'

/-- The first steps give the same answer. -/
theorem step {a b : Action α} {f : α → Action γ} {g : α → Action δ} (h : Alike R Eq a b)
    (hf : ∀ x, Alike R S (f x) (g x)) : Alike R S (a >>= f) (b >>= g) :=
  h.bind fun x _ hxy => hxy ▸ hf x

/-- Both look at the state. -/
theorem look {f : World → Action γ} {g : World → Action δ}
    (hf : ∀ w w', R w w' → Alike R S (f w) (g w')) :
    Alike R S (MonadState.get >>= f) (MonadState.get >>= g) := by
  intro w w' hr
  rw [on_bind_of_ok (on_get w), on_bind_of_ok (on_get w')]
  exact hf w w' hr w w' hr

theorem change {f g : World → World} (h : ∀ w w', R w w' → R (f w) (g w')) :
    Alike R Eq (modify f : Action PUnit) (modify g) := fun w w' hr => ⟨.ok rfl, h w w' hr⟩

theorem map {a : Action α} {b : Action β} {f : α → γ} {g : β → δ} (h : Alike R Q a b)
    (hf : ∀ x y, Q x y → S (f x) (g y)) : Alike R S (f <$> a) (g <$> b) := by
  intro w w' hr
  obtain ⟨hagree, hr'⟩ := h w w' hr
  rw [on_map, on_map]
  rcases ha : a.on w with ⟨fault | x, u⟩ <;> rcases hb : b.on w' with ⟨fault' | y, u'⟩ <;>
    rw [ha, hb] at hagree hr'
  · cases hagree
    exact ⟨.error fault, hr'⟩
  · cases hagree
  · cases hagree
  · cases hagree with
    | ok hxy => exact ⟨.ok (hf x y hxy), hr'⟩

/-- What each tells does not matter. -/
theorem tell (x x' : World → Moment) : Alike R Eq (Action.tell x) (Action.tell x') :=
  fun _ _ hr => ⟨.ok rfl, hr⟩

/-- Bodies that are alike, with cleanups that are alike, are alike. -/
theorem ensuring {body : Action α} {body' : Action β} {cleanup cleanup' : Action Unit}
    (hb : Alike R Q body body') (hc : Alike R Eq cleanup cleanup') :
    Alike R Q (Action.ensuring body cleanup) (Action.ensuring body' cleanup') := by
  intro w w' hr
  obtain ⟨hagree, hr'⟩ := hb w w' hr
  obtain ⟨hagree', hr''⟩ := hc _ _ hr'
  rw [on_ensuring, on_ensuring]
  rcases ha : cleanup.on (body.on w).2 with ⟨fault | x, u⟩ <;>
    rcases hb : cleanup'.on (body'.on w').2 with ⟨fault' | y, u'⟩ <;> rw [ha, hb] at hagree' hr''
  · cases hagree'
    exact ⟨.error fault, hr''⟩
  · cases hagree'
  · cases hagree'
  · -- both clean-ups are done, so the answers are those of the bodies
    exact ⟨hagree, hr''⟩

/-- Handlers are compared for the same fault, as bodies that are alike have no other. -/
theorem recovering {body : Action α} {body' : Action β} {handler : Fault → Action α}
    {handler' : Fault → Action β} (hb : Alike R Q body body')
    (hh : ∀ fault, Alike R Q (handler fault) (handler' fault)) :
    Alike R Q (Action.recovering body handler) (Action.recovering body' handler') := by
  intro w w' hr
  obtain ⟨hagree, hr'⟩ := hb w w' hr
  rw [on_recovering, on_recovering]
  rcases ha : body.on w with ⟨fault | x, u⟩ <;> rcases hb : body'.on w' with ⟨fault' | y, u'⟩ <;>
    rw [ha, hb] at hagree hr'
  · cases hagree
    -- both bodies fail with one fault, which goes to both handlers
    exact hh fault u u' hr'
  · cases hagree
  · cases hagree
  · exact ⟨hagree, hr'⟩

end Alike

/-! ## §4 Single steps -/

variable {v v' : World}

/-- What only writes does not matter. -/
theorem alike_notes {a b : Action Unit} (ha : ∀ w, ∃ l, a.on w = (.ok (), { w with writings := l }))
    (hb : ∀ w, ∃ l, b.on w = (.ok (), { w with writings := l })) : Alike (Twins π v v') Eq a b := by
  intro w w' hr
  obtain ⟨l, hl⟩ := ha w
  obtain ⟨l', hl'⟩ := hb w'
  rw [hl, hl']
  exact ⟨.ok rfl, hr.trans (.of_same { hr.alike with } rfl rfl rfl rfl rfl rfl rfl rfl rfl rfl)⟩

theorem alike_debug (source source' text text' : String) :
    Alike (Twins π v v') Eq (debug source text) (debug source' text') :=
  alike_notes (fun _ => ⟨_, rfl⟩) fun _ => ⟨_, rfl⟩

theorem alike_logError (source source' text text' : String) :
    Alike (Twins π v v') Eq (logError source text) (logError source' text') :=
  alike_notes (fun _ => ⟨_, rfl⟩) fun _ => ⟨_, rfl⟩

/-- Calls that are alike and neither make nor delete a problem may be made on both sides. -/
theorem alike_call {c c' : Native.Call} (hc : c.Alike π c') (hlife : c.isLife = false) :
    Alike (Twins π v v') Eq (call c) (call c') := by
  intro w w' hr
  rw [on_call, on_call, ← hc.function, ← hr.alike.allowance]
  cases hspend : spend c.function w.allowance with
  | none => exact ⟨.ok rfl, hr⟩
  | some allowance => exact ⟨.ok rfl, hr.trans (.of_call hr.alike hc hlife hspend)⟩

theorem alike_contextError (c : ContextId) : Alike (Twins π v v') Eq (contextError c) (contextError c) := by
  intro w w' hr
  rw [on_contextError, on_contextError, hr.alike.clock, hr.alike.contexts]
  exact ⟨.ok rfl,
    hr.trans (.of_same { hr.alike with clock := rfl, contexts := rfl } rfl rfl rfl rfl rfl rfl rfl rfl rfl rfl)⟩

/-- Paired models are found alike. -/
theorem alike_model {m m' : ModelId} (hm : π.models m m') :
    Alike (Twins π v v') (Model.Alike π) (model m) (model m') := by
  intro w w' hr
  have hsame := hr.alike.models hm
  rw [on_model, on_model]
  rcases hx : w.model? m with _ | x <;> rcases hx' : w'.model? m' with _ | x' <;> rw [hx, hx'] at hsame
  · exact ⟨.error .closed, hr⟩
  · cases hsame
  · cases hsame
  · cases hsame with
    | some h => exact ⟨.ok h, hr⟩

/-- What open models were found to be: alike, and open from the start. -/
structure OpenAlike (π : Pairing) (v v' : World) (m m' : ModelId) (x x' : Model) : Prop where
  alike : x.Alike π x'
  engine : x.engine.Alike π x'.engine
  left : v.Open m
  right : v'.Open m'

/-- Both sides find models that are alike, or none. -/
theorem alike_openModel {m m' : ModelId} (hm : π.models m m') :
    Alike (Twins π v v') (OpenAlike π v v' m m') (openModel m) (openModel m') := by
  intro w w' hr
  have hsame := hr.alike.models hm
  rw [on_openModel, on_openModel]
  rcases hx : w.model? m with _ | x <;> rcases hx' : w'.model? m' with _ | x' <;> rw [hx, hx'] at hsame
  · exact ⟨.error .closed, hr⟩
  · cases hsame
  · cases hsame
  · cases hsame with
    | some h =>
      -- open or freed alike, by `Model.Alike`
      cases hf : x.freed with
      | true =>
        simp only [hf, ← h.freed, if_true]
        exact ⟨.error .closed, hr⟩
      | false =>
        simp only [hf, ← h.freed, Bool.false_eq_true, if_false]
        refine ⟨.ok ⟨h, h.engine hf, ?_, ?_⟩, hr⟩
        · exact (hr.left.open_iff m).mp ⟨x, hx, hf⟩
        · exact (hr.right.open_iff m').mp ⟨x', hx', h.freed ▸ hf⟩

/-- Models that are alike may be changed in like ways, if nothing of who owns what is touched. -/
theorem alike_updateModel {m m' : ModelId} (hm : π.models m m') {f f' : Model → Model}
    (howner : ∀ x, (f x).owner = x.owner) (howner' : ∀ x, (f' x).owner = x.owner)
    (hf : ∀ x x', x.Alike π x' → (f x).Alike π (f' x')) :
    Alike (Twins π v v') Eq (updateModel m f) (updateModel m' f') := by
  intro w w' hr
  rw [on_updateModel, on_updateModel]
  exact ⟨.ok rfl, hr.trans (.of_modifyModel hr.alike hm (fun x _ => howner x) (fun x _ => howner' x)
    fun x x' _ _ => hf x x')⟩

/-- Registering alike objects gives the same handle. -/
theorem alike_registered {α β : Type} {Q : α → β → Prop} {t t' : Target} (ht : t.outline = t'.outline)
    {body : Handle → Action α} {body' : Handle → Action β}
    (hbody : ∀ h, Alike (Twins π v v') Q (body h) (body' h)) :
    Alike (Twins π v v') Q (registered t body) (registered t' body') := by
  unfold registered
  refine Alike.look fun w w' hr => ?_
  -- the registries agree but for which model or context is behind a handle
  have hregister : (w.registry.register t).map (fun made => (made.1, made.2.map Target.outline)) =
      (w'.registry.register t').map fun made => (made.1, made.2.map Target.outline) := by
    rw [← Registry.register_map, ← Registry.register_map, ht, hr.alike.registry]
  rcases hmade : w.registry.register t with fault | ⟨h, r⟩ <;>
    rcases hmade' : w'.registry.register t' with fault' | ⟨h', r'⟩ <;> rw [hmade, hmade'] at hregister
  · cases hregister
    exact Alike.fail fault
  · cases hregister
  · cases hregister
  · obtain ⟨rfl, hmap⟩ : h = h' ∧ r.map Target.outline = r'.map Target.outline := by
      simpa [Except.map] using hregister
    refine Alike.bind (Q := fun made made' => made = (h, r) ∧ made' = (h, r')) (fun u u' hu => ?_) ?_
    · exact ⟨.ok ⟨rfl, rfl⟩, hu⟩
    · rintro _ _ ⟨rfl, rfl⟩
      refine Alike.step (Alike.change fun u u' hu => ?_) fun _ => Alike.ensuring (hbody h) ?_
      · exact hu.trans (.of_same { hu.alike with registry := hmap } rfl rfl rfl rfl rfl rfl rfl rfl rfl rfl)
      · refine (Alike.tell _ _).step fun _ => Alike.look fun u u' hu => ?_
        have hunregister : (u.registry.unregister h).map (Registry.map Target.outline) =
            (u'.registry.unregister h).map (Registry.map Target.outline) := by
          rw [← Registry.unregister_map, ← Registry.unregister_map, hu.alike.registry]
        rcases hgone : u.registry.unregister h with fault | s <;>
          rcases hgone' : u'.registry.unregister h with fault' | s' <;> rw [hgone, hgone'] at hunregister
        · cases hunregister
          exact Alike.fail fault
        · cases hunregister
        · cases hunregister
        · intro u₁ u₁' hu₁
          refine ⟨.ok rfl, hu₁.trans (.of_same { hu₁.alike with registry := ?_ }
            rfl rfl rfl rfl rfl rfl rfl rfl rfl rfl)⟩
          exact Except.ok.inj hunregister

end Action

end LinearProgram
