import LinearProgram.Proofs.Clone

/-!
# States of which one is ahead

Of two states, the first is ahead of the second when one model has been changed once more in it, by a change that
left nothing behind but the higher count. Seen from that model, the states are twins with a shift of one; seen from
any other model, they are twins without a shift. An operation looks from one model only, or it names variables of
another model by mistake and is refused in both states. So the two states stay apart by that one count, and all
that can be seen of it is that the results of the model are dated one change later.
-/

namespace LinearProgram

open LinearProgram.Action

/-! ## §1 Results that are dated later -/

/-- The result as it is when its model, if that is `m`, has been changed once more before the solve. -/
def SolveResult.redated (m : ModelId) (r : SolveResult) : SolveResult :=
  if r.model = m then { r with revision := r.revision + 1 } else r

/-- The same question about the later result. -/
def Inquiry.redated (m : ModelId) : Inquiry → Inquiry
  | resultValid r => resultValid (r.redated m)
  | value r x => value (r.redated m) x
  | reducedCost r x => reducedCost (r.redated m) x
  | objective r => objective (r.redated m)
  | values r => values (r.redated m)
  | solution r => solution (r.redated m)
  | resultText r => resultText (r.redated m)
  | report r => report (r.redated m)
  | i => i

def Operation.redated (m : ModelId) : Operation → Operation
  | inquire i => inquire (i.redated m)
  | o => o

def Response.redated (m : ModelId) : Response → Response
  | answer (.result r) => answer (.result (r.redated m))
  | a => a

/-- What stands in the list of variables of an operation. -/
def Operation.arguments : Operation → List VariableArgument
  | addConstraint _ _ _ arguments _ => arguments
  | setObjective _ _ arguments => arguments
  | inquire (.value _ x) => [x]
  | inquire (.reducedCost _ x) => [x]
  | _ => []

/-! ## §2 The view from one model -/

/-- What model `k` sees when `m` with the problem `n` is ahead by one change: `m` sees itself, at a shift of one,
and the others see each other. -/
def Pairing.beside (m : ModelId) (n : Nat) (k : ModelId) : Pairing :=
  if k = m then .single m m n n 1 else .diagonal (· ≠ m) (· ≠ n)

section

variable {m k : ModelId} {n : Nat}

theorem Pairing.beside_congr {j : ModelId} (h : j = m ↔ k = m) : beside m n j = beside m n k := by
  unfold beside
  simp only [h]

/-- Models are paired with themselves, and the cloned one only where the pairing is meant for it. -/
theorem Pairing.models_beside {a a' : ModelId} : (beside m n k).models a a' ↔ a = a' ∧ (a = m ↔ k = m) := by
  unfold beside
  split
  · -- the pair is the one problem set aside
    next hk =>
    show a = m ∧ a' = m ↔ _
    grind
  · next hk =>
    show a = a' ∧ a ≠ m ↔ _
    grind

theorem Pairing.problems_beside {i i' : Nat} : (beside m n k).problems i i' ↔ i = i' ∧ (i = n ↔ k = m) := by
  unfold beside
  split
  · next hk =>
    show i = n ∧ i' = n ↔ _
    grind
  · next hk =>
    show i = i' ∧ i ≠ n ↔ _
    grind

theorem Pairing.shift_beside : (beside m n k).shift = if k = m then 1 else 0 := by
  unfold beside
  split <;> rfl

theorem Pairing.models_beside_self : (beside m n k).models k k := models_beside.mpr ⟨rfl, Iff.rfl⟩

/-- A variable is seen from a model on its side. -/
theorem Variable.alike_beside {x : Variable} (h : x.model = m ↔ k = m) : x.Alike (.beside m n k) x :=
  ⟨Pairing.models_beside.mpr ⟨rfl, h⟩, rfl⟩

theorem SolveResult.model_redated (r : SolveResult) : (r.redated m).model = r.model := by
  unfold redated
  split <;> rfl

/-- The later result stands for the result. -/
theorem SolveResult.redated_alike (r : SolveResult) : (r.redated m).Alike (.beside m n r.model) r where
  model := by
    rw [model_redated]
    exact Pairing.models_beside_self
  revision := by
    rw [Pairing.shift_beside]
    unfold redated
    split <;> rfl
  status := by
    unfold redated
    split <;> rfl
  method := by
    unfold redated
    split <;> rfl

/-- Results that are alike are the same, but for the date of the result beside. -/
theorem SolveResult.Alike.eq_redated {r r' : SolveResult} (h : r.Alike (.beside m n k) r') :
    r = r'.redated m := by
  obtain ⟨hmodel, hk⟩ := Pairing.models_beside.mp h.model
  have hrevision := h.revision
  rw [Pairing.shift_beside] at hrevision
  obtain ⟨a, i, status, method⟩ := r
  obtain ⟨a', i', status', method'⟩ := r'
  obtain rfl : a = a' := hmodel
  obtain rfl : status = status' := h.status
  obtain rfl : method = method' := h.method
  unfold redated
  -- only a result of the model itself carries a shifted revision
  by_cases ha : a = m
  · simp_all
  · simp_all

/-- Variables are paired with themselves. -/
theorem Variable.Alike.eq_beside {x x' : Variable} (h : x.Alike (.beside m n k) x') : x = x' := by
  obtain ⟨a, i⟩ := x
  obtain ⟨a', i'⟩ := x'
  obtain rfl : a = a' := (Pairing.models_beside.mp h.model).1
  obtain rfl : i = i' := h.index
  rfl

/-- Variables are what they are on either side. -/
private theorem eq_of_alike {vars vars' : List Variable}
    (h : List.Forall₂ (Variable.Alike (.beside m n k)) vars vars') : vars = vars' := by
  induction h with
  | nil => rfl
  | cons hx _ ih => rw [hx.eq_beside, ih]

/-- Alike responses differ in the date of a result, if they name no model. -/
theorem Response.Alike.eq_redated {a a' : Response} (h : a.Alike (.beside m n k) a') :
    a = a'.redated m ∨ ∃ i i', a = .answer (.model i) ∧ a' = .answer (.model i') := by
  cases h with
  | answer h =>
    cases h with
    | done => exact .inl rfl
    | model i i' => exact .inr ⟨i, i', rfl, rfl⟩
    | «variables» h => exact .inl (by rw [eq_of_alike h]; rfl)
    | result h => exact .inl (by rw [h.eq_redated]; rfl)
  | @reply r r' h =>
    refine .inl ?_
    -- two replies that answer alike are equal, lists of variables apart
    cases r <;> cases r' <;> first | exact congrArg Response.reply h | skip
    case «variables».«variables» vs vs' => exact congrArg (fun vs => Response.reply (.variables vs)) (eq_of_alike h)

end

/-! ## §3 Being ahead -/

/-- The calls of an operation that neither makes nor frees models are equal on a side. -/
private theorem eq_of_calls {m k : ModelId} {n : Nat} {cs cs' : List Native.Call}
    (h : List.Forall₂ (Native.Call.Alike (.beside m n k)) cs cs') (hlife : ∀ c ∈ cs, c.isLife = false) :
    cs = cs' := by
  induction h with
  | nil => rfl
  | @cons c c' _ _ hc _ ih =>
    have hproblems : c.problems = c'.problems := by
      refine List.forall₂_eq_eq_eq ▸ hc.problems.imp fun _ _ h => (Pairing.problems_beside.mp h).1
    have hbody (i : Nat) : c.rename (fun _ => i) = c'.rename fun _ => i := by
      have hzero := congrArg (Native.Call.rename fun _ => i) hc.body
      rwa [Native.Call.rename_rename, Native.Call.rename_rename] at hzero
    obtain ⟨i, hi⟩ : ∃ i, ∀ j ∈ c.problems, i = j := by
      rcases Native.Call.problems_of_isLife_eq_false (hlife c (List.mem_cons_self ..)) with ⟨i, hi⟩ | hnone
      · exact ⟨i, by simp [hi]⟩
      · exact ⟨0, by simp [hnone]⟩
    -- a call names one problem at most, so it is determined by that problem and the rest of it
    have hsame : c = c' :=
      calc c = c.rename fun _ => i := (Native.Call.rename_eq_self hi).symm
        _ = c'.rename fun _ => i := hbody i
        _ = c' := Native.Call.rename_eq_self (hproblems ▸ hi)
    rw [hsame, ih fun d hd => hlife d (List.mem_cons_of_mem _ hd)]

/-- The same problems, but for what decides about messages. -/
structure Native.Store.Matches (s s' : Store) : Prop where
  size : s.problems.size = s'.problems.size
  muted : ∀ i, s.muted? i = s'.muted? i

/-- In `w` the model `m`, with the problem `n`, is ahead by one change of where it is in `w'`, and nothing else
is different, but for records and what decides about messages. -/
structure World.Leads (m : ModelId) (n : Nat) (w w' : World) : Prop where
  clock : w.clock = w'.clock
  contexts : w.contexts = w'.contexts
  script : w.script = w'.script
  surroundings : w.surroundings = w'.surroundings
  library : w.library = w'.library
  allowance : w.allowance = w'.allowance
  registry : w.registry.map Target.outline = w'.registry.map Target.outline
  models : ∀ a, Option.Rel (Model.Alike (.beside m n a)) (w.model? a) (w'.model? a)
  owners : ∀ a, (w.model? a).map Model.owner = (w'.model? a).map Model.owner
  modelCount : w.models.size = w'.models.size
  problems : w.native.Matches w'.native
  modelThere : m < w.models.size
  problemThere : n ≤ w.native.problems.size
  number : n ≠ 0

/-- `w` and `w'` have come from `v` and `v'` by the same calls, and in `w` the model `m` is ahead. -/
structure Ahead (m : ModelId) (n : Nat) (v v' w w' : World) : Prop where
  leads : w.Leads m n w'
  calls : v.callsSince w = v'.callsSince w'
  left : v.Extends w
  right : v'.Extends w'

variable {m k : ModelId} {n : Nat} {v v' w w' u u' : World}

/-- Seen from one model, the states are twins. -/
theorem World.Leads.alike (h : w.Leads m n w') (k : ModelId) : w.Alike (.beside m n k) w' where
  clock := h.clock
  contexts := h.contexts
  script := h.script
  surroundings := h.surroundings
  allowance := h.allowance
  registry := h.registry
  models := by
    intro a a' ha
    -- the pairing at `k` and the one at `a` agree on models of the same side
    obtain ⟨rfl, hside⟩ := Pairing.models_beside.mp ha
    rw [← Pairing.beside_congr hside]
    exact h.models a
  problems := by
    intro i i' hi
    obtain ⟨rfl, -⟩ := Pairing.problems_beside.mp hi
    exact h.problems.muted i

/-- What is done on one side is done, and the other side has been left alone. -/
theorem World.Leads.of_twins (h : w.Leads m n w') (ht : Twins (.beside m n k) w w' u u') : u.Leads m n u' where
  clock := ht.alike.clock
  contexts := ht.alike.contexts
  script := ht.alike.script
  surroundings := ht.alike.surroundings
  library := ht.left.library.trans (h.library.trans ht.right.library.symm)
  allowance := ht.alike.allowance
  registry := ht.alike.registry
  owners a := (ht.left.owner a).trans ((h.owners a).trans (ht.right.owner a).symm)
  models a := by
    -- on the side of `k` the twins say it, and on the other side nothing was changed
    by_cases ha : a = m ↔ k = m
    · rw [Pairing.beside_congr ha]
      exact ht.alike.models (Pairing.models_beside.mpr ⟨rfl, ha⟩)
    · rw [ht.left.otherModels a fun ⟨_, hb⟩ => ha (Pairing.models_beside.mp hb).2,
        ht.right.otherModels a fun ⟨_, hb⟩ => ha ((Pairing.models_beside.mp hb).1 ▸ (Pairing.models_beside.mp hb).2)]
      exact h.models a
  modelCount := by rw [ht.left.modelCount, ht.right.modelCount, h.modelCount]
  problems :=
    { size := by rw [ht.left.problemCount, ht.right.problemCount, h.problems.size]
      muted := fun i => by
        by_cases hi : i = n ↔ k = m
        · exact ht.alike.problems (Pairing.problems_beside.mpr ⟨rfl, hi⟩)
        · have hsame := h.problems.muted i
          unfold Native.Store.muted? at hsame ⊢
          rw [ht.left.otherProblems i fun ⟨_, hb⟩ => hi (Pairing.problems_beside.mp hb).2,
            ht.right.otherProblems i fun ⟨_, hb⟩ =>
              hi ((Pairing.problems_beside.mp hb).1 ▸ (Pairing.problems_beside.mp hb).2)]
          exact hsame }
  modelThere := by
    rw [ht.left.modelCount]
    exact h.modelThere
  problemThere := by
    rw [ht.left.problemCount]
    exact h.problemThere
  number := h.number

/-- The next problem is of the same number in both states, and is not the problem `n`. -/
theorem World.Leads.next (h : w.Leads m n w') : w.native.next = w'.native.next ∧ w.native.next ≠ n :=
  ⟨congrArg (· + 1) h.problems.size, Nat.ne_of_gt (Nat.lt_succ_of_le h.problemThere)⟩

namespace Ahead

/-- What two twin steps reach is as far apart as before, where the calls are the same. -/
theorem of_twins (h : Ahead m n v v' w w') (ht : Twins (.beside m n k) w w' u u') : Ahead m n v v' u u' where
  leads := h.leads.of_twins ht
  calls := by
    -- what the left run added is among the problems paired, so the right run added the same calls
    obtain ⟨cs, hcs, hlife⟩ := ht.left.calls
    have hsince := World.callsSince_of_calls cs hcs
    rw [World.callsSince_trans h.left ht.left.extends_, World.callsSince_trans h.right ht.right.extends_, h.calls,
      eq_of_calls ht.calls fun c hc => (hlife c (hsince ▸ hc)).1]
  left := h.left.trans ht.left.extends_
  right := h.right.trans ht.right.extends_

/-- Where the way begins. -/
theorem start (h : w.Leads m n w') : Ahead m n w w' w w' where
  leads := h
  calls := by simp
  left := .refl w
  right := .refl w'

end Ahead

/-- Answers that agree closely agree more loosely. -/
theorem Agree.imp {α β : Type} {Q Q' : α → β → Prop} {a : Except Fault α} {b : Except Fault β} (h : Agree Q a b)
    (hQ : ∀ x y, Q x y → Q' x y) : Agree Q' a b := by
  cases h with
  | ok hxy => exact .ok (hQ _ _ hxy)
  | error fault => exact .error fault

namespace Action.Alike

variable {α β : Type} {Q Q' : α → β → Prop} {a : Action α} {b : Action β}

/-- Actions that are alike on a side keep a state ahead. -/
theorem ahead (h : ∀ u u', Action.Alike (Twins (.beside m n k) u u') Q a b) :
    Action.Alike (Ahead m n v v') Q a b := by
  intro w w' hw
  obtain ⟨hagree, htwins⟩ := h w w' w w' (Twins.start (hw.leads.alike k))
  exact ⟨hagree, hw.of_twins htwins⟩

theorem weaken {R : World → World → Prop} (h : Action.Alike R Q a b) (hQ : ∀ x y, Q x y → Q' x y) :
    Action.Alike R Q' a b := fun w w' hr => ⟨(h w w' hr).1.imp hQ, (h w w' hr).2⟩

end Action.Alike

/-! ## §4 Operations on one side -/

private theorem alike_beside {x : VariableArgument} (h : ∀ y, x = .variable y → (y.model = m ↔ k = m)) :
    x.Alike (.beside m n k) x := by
  match x with
  | .plain d => exact .plain d
  | .variable y => exact .variable (Variable.alike_beside (h y rfl))

/-- A question about a model, with variables of its side. -/
theorem Inquiry.redated_matches {i : Inquiry}
    (h : ∀ x, .variable x ∈ (Operation.inquire i).arguments → (x.model = m ↔ i.subject = m)) :
    (i.redated m).Matches (.beside m n i.subject) i := by
  cases i <;> constructor <;>
    first
      | exact Pairing.models_beside_self
      | exact Variable.alike_beside Iff.rfl
      | exact SolveResult.redated_alike _
      | exact alike_beside fun x hx => h x (List.mem_singleton.mpr hx.symm)

/-- An operation on a model, with variables of its side. -/
theorem Operation.redated_matches {o : Operation} (hk : o.about? = some k)
    (h : ∀ x, .variable x ∈ o.arguments → (x.model = m ↔ k = m)) :
    (o.redated m).Matches (.beside m n k) o := by
  have all {arguments : List VariableArgument}
      (hall : ∀ x, .variable x ∈ arguments → (x.model = m ↔ k = m)) :
      List.Forall₂ (VariableArgument.Alike (.beside m n k)) arguments arguments :=
    List.forall₂_same.mpr fun x hx => alike_beside fun y hy => hall y (hy ▸ hx)
  cases o with
  | create | meanwhile => cases hk
  | inquire i =>
    cases hk
    exact .inquire (Inquiry.redated_matches h)
  | addConstraint a l u arguments cs =>
    cases hk
    exact .addConstraint Pairing.models_beside_self l u (all h) cs
  | setObjective a cs arguments =>
    cases hk
    exact .setObjective Pairing.models_beside_self cs (all h)
  | setKind x kind =>
    cases hk
    exact .setKind (Variable.alike_beside Iff.rfl) kind
  | setBounds x l u =>
    cases hk
    exact .setBounds (Variable.alike_beside Iff.rfl) l u
  | setCoefficient x c =>
    cases hk
    exact .setCoefficient (Variable.alike_beside Iff.rfl) c
  -- what is left names its model and takes no variables
  | _ =>
    cases hk
    constructor
    exact Pairing.models_beside_self

/-! ## §5 Operations that mix the sides -/

/-- A list with a variable of another model is refused, wherever that variable stands. -/
theorem Model.alike_checkVariables_of_foreign {a : ModelId} (count : Nat) {arguments : List VariableArgument}
    (h : ∃ x, .variable x ∈ arguments ∧ x.model ≠ a) :
    Action.Alike (Ahead m n v v') (fun _ _ => False) (checkVariables a count arguments)
      (checkVariables a count arguments) := by
  -- variables before the foreign one pass, or are refused in both states
  induction arguments with
  | nil => simp at h
  | cons argument rest ih =>
    match argument with
    | .plain d => exact .fail _
    | .variable x =>
      unfold checkVariables
      by_cases hown : x.model = a ∧ 0 ≤ x.index ∧ x.index < count
      · rw [if_pos hown]
        refine Alike.bind (ih ?_) fun _ _ hno => hno.elim
        obtain ⟨y, hy, hne⟩ := h
        rcases List.mem_cons.mp hy with heq | hy
        · cases heq
          exact absurd hown.1 hne
        · exact ⟨y, hy, hne⟩
      · rw [if_neg hown]
        exact Alike.step (.ahead fun _ _ => (Variable.alike_beside (k := x.model) Iff.rfl).display) fun _ => .fail _

/-- Open models have the same kinds. -/
private theorem alike_kinds (a : ModelId) :
    Action.Alike (Ahead m n v v') (fun x x' => x.kinds = x'.kinds) (openModel a) (openModel a) :=
  .ahead fun _ _ => (alike_openModel Pairing.models_beside_self).weaken fun _ _ ho => ho.alike.kinds

/-- A constraint with a variable of another model is refused on both sides. -/
private theorem alike_addConstraint_of_foreign {a : ModelId} {arguments : List VariableArgument}
    (h : ∃ x, .variable x ∈ arguments ∧ x.model ≠ a) (l u : Number) (cs : List Number) :
    Action.Alike (Ahead m n v v') (fun _ _ => False) (Model.addConstraint a l u arguments cs)
      (Model.addConstraint a l u arguments cs) := by
  unfold Model.addConstraint
  refine (Alike.lift _).step fun _ => (Alike.lift _).step fun _ => (Alike.lift _).step fun _ =>
    (alike_kinds a).bind fun x x' hkinds => ?_
  -- the kinds agree, so both runs reach the check of the variables, which refuses them
  rw [hkinds]
  exact (Model.alike_checkVariables_of_foreign _ h).bind fun _ _ hno => hno.elim

/-- An objective with a variable of another model is refused on both sides. -/
private theorem alike_setObjective_of_foreign {a : ModelId} {arguments : List VariableArgument}
    (h : ∃ x, .variable x ∈ arguments ∧ x.model ≠ a) (cs : List Number) :
    Action.Alike (Ahead m n v v') (fun _ _ => False) (Model.setObjective a cs arguments)
      (Model.setObjective a cs arguments) := by
  unfold Model.setObjective
  refine (Alike.lift _).step fun _ => (Alike.lift _).step fun _ => (alike_kinds a).bind fun x x' hkinds => ?_
  rw [hkinds]
  exact (Model.alike_checkVariables_of_foreign _ h).bind fun _ _ hno => hno.elim

/-- A result has no column for a variable of another model. -/
private theorem alike_column_of_foreign {r : SolveResult} {x : Variable} (h : x.model ≠ r.model) :
    Action.Alike (Ahead m n v v') (fun _ _ => False) ((r.redated m).column (.variable x))
      (r.column (.variable x)) := by
  unfold SolveResult.column
  dsimp only
  rw [SolveResult.model_redated, if_neg h]
  exact Alike.step (.ahead fun _ _ => (Variable.alike_beside (k := x.model) Iff.rfl).display) fun _ => .fail _

/-- A result is asked in vain for a variable of another model, on both sides. -/
private theorem alike_primal_of_foreign {r : SolveResult} {x : Variable} (h : x.model ≠ r.model) :
    Action.Alike (Ahead m n v v') (fun _ _ => False) ((r.redated m).primal (.variable x))
      (r.primal (.variable x)) :=
  Alike.bind (.ahead fun _ _ => r.redated_alike.engine) fun _ _ _ =>
    (alike_column_of_foreign h).bind fun _ _ hno => hno.elim

private theorem alike_dual_of_foreign {r : SolveResult} {x : Variable} (h : x.model ≠ r.model) :
    Action.Alike (Ahead m n v v') (fun _ _ => False) ((r.redated m).dual (.variable x)) (r.dual (.variable x)) :=
  Alike.bind (.ahead fun _ _ => r.redated_alike.engine) fun _ _ _ =>
    (alike_column_of_foreign h).bind fun _ _ hno => hno.elim

/-- An operation that is given a variable of another model is refused in both states, with one fault. -/
theorem Operation.alike_of_foreign {o : Operation} {a : ModelId} (hk : o.about? = some a)
    (h : ∃ x, .variable x ∈ o.arguments ∧ x.model ≠ a) {Q : Response → Response → Prop} :
    Action.Alike (Ahead m n v v') Q (o.redated m).respond o.respond := by
  have refused {α β : Type} {f : α → β} {g : β → Response} {b b' : Action α}
      (hb : Action.Alike (Ahead m n v v') (fun _ _ => False) b b') :
      Action.Alike (Ahead m n v v') Q (g <$> f <$> b) (g <$> f <$> b') :=
    (Alike.map (S := fun _ _ => False) hb fun _ _ hno => hno).map fun _ _ hno => hno.elim
  cases o with
  | addConstraint a l u arguments cs =>
    cases hk
    exact refused (alike_addConstraint_of_foreign h l u cs)
  | setObjective a cs arguments =>
    cases hk
    exact refused (alike_setObjective_of_foreign h cs)
  | inquire i =>
    cases hk
    cases i with
    | value r y =>
      obtain ⟨x, hx, hne⟩ := h
      obtain rfl := List.mem_singleton.mp hx
      exact refused (alike_primal_of_foreign hne)
    | reducedCost r y =>
      obtain ⟨x, hx, hne⟩ := h
      obtain rfl := List.mem_singleton.mp hx
      exact refused (alike_dual_of_foreign hne)
    -- no other question takes variables
    | _ => simp [arguments] at h
  -- nor does another operation
  | _ => simp [arguments] at h

/-! ## §6 Single steps -/

namespace Native.Store.Matches

variable {s s' : Store}

theorem glpk? (h : s.Matches s') (i : Nat) : s.glpk? i = s'.glpk? i := glpk?_of_muted? (h.muted i)

/-- Maps that respect what decides about messages can be applied on both sides. -/
private theorem muted_map {p p' : Option Problem} {f f' : Problem → Problem}
    (hf : ∀ {q q' : Problem}, q.muted = q'.muted → (f q).muted = (f' q').muted)
    (h : p.map Problem.muted = p'.map Problem.muted) :
    (p.map f).map Problem.muted = (p'.map f').map Problem.muted := by
  cases p with
  | none =>
    cases p' with
    | none => rfl
    -- one side has the problem and the other has not
    | some q' => cases h
  | some q =>
    cases p' with
    | none => cases h
    | some q' => exact congrArg some (hf (Option.some.inj h))

/-- The same change of what stands at a number. -/
theorem modify (h : s.Matches s') {f f' : Problem → Problem}
    (hf : ∀ {q q' : Problem}, q.muted = q'.muted → (f q).muted = (f' q').muted) (j : Nat) :
    (s.modify j f).Matches (s'.modify j f') where
  size := by rw [size_modify, size_modify, h.size]
  muted i := by
    unfold muted?
    rw [problem?_modify, problem?_modify]
    split
    · exact muted_map hf (h.muted j)
    · exact h.muted i

/-- The same new problem. -/
theorem push (h : s.Matches s') {q q' : Problem} (hq : q.muted = q'.muted) :
    ({ s with problems := s.problems.push q } : Store).Matches
      { s' with problems := s'.problems.push q' } where
  size := by rw [Array.size_push, Array.size_push, h.size]
  muted i := by
    unfold muted?
    rw [problem?_push, problem?_push]
    have hnext : s.next = s'.next := congrArg (· + 1) h.size
    rw [hnext]
    -- the new problem takes the next number, the older ones keep theirs
    split
    · exact congrArg some hq
    · exact h.muted i

/-- A call does the same to both. -/
theorem apply (h : s.Matches s') (c : Call) : (s.apply c).Matches (s'.apply c) := by
  by_cases hlife : c.isLife = false
  · -- most calls edit the one problem that they name
    refine ⟨?_, fun i => ?_⟩
    · rw [size_apply_of_isLife_eq_false hlife, size_apply_of_isLife_eq_false hlife, h.size]
    · unfold muted?
      rw [problem?_apply_of_isLife_eq_false hlife, problem?_apply_of_isLife_eq_false hlife]
      split
      · exact muted_map (fun hq => Problem.muted_apply_congr hq c) (h.muted i)
      · exact h.muted i
  · rcases c with c | c <;> cases c <;> first | exact absurd rfl hlife | skip
    case glpk.create => exact h.push rfl
    case glpk.delete => exact h.modify (fun _ => rfl) _
    case glpk.copy target source _ =>
      simp only [Store.apply, applyGlpk]
      rw [h.glpk? source]
      cases s'.glpk? source with
      | none => exact h
      | some p => exact h.modify (fun {q q'} hq => by cases q <;> cases q' <;> simp_all [Problem.muted]) _
    case lpsolve.create => exact h.push rfl
    case lpsolve.delete => exact h.modify (fun _ => rfl) _
    case lpsolve.copy source =>
      have hsame := lpsolve?_of_muted? (h.muted source)
      simp only [Store.apply, applyLpSolve]
      rcases hq : s.lpsolve? source with _ | q <;> rcases hq' : s'.lpsolve? source with _ | q' <;>
        rw [hq, hq'] at hsame
      · exact h
      · cases hsame
      · cases hsame
      · -- a copy has neither verbosity nor callbacks from its source, so the copies are equal
        refine h.push ?_
        have hduplicate : q.duplicate = q'.duplicate :=
          congrArg (fun r : LpSolve.Problem => { r with abortHook := none }) (Option.some.inj hsame)
        rw [hduplicate]

end Native.Store.Matches

namespace Ahead

/-- One state stays ahead by the same new calls. -/
private theorem of_calls (h : Ahead m n v v' w w') (hleads : u.Leads m n u') (cs : List Native.Call)
    (hcalls : u.calls = w.calls ++ cs.toArray) (hcalls' : u'.calls = w'.calls ++ cs.toArray) :
    Ahead m n v v' u u' where
  leads := hleads
  calls := by
    rw [World.callsSince_trans h.left (.of_calls cs hcalls), World.callsSince_trans h.right (.of_calls cs hcalls'),
      h.calls, World.callsSince_of_calls cs hcalls, World.callsSince_of_calls cs hcalls']
  left := h.left.trans (.of_calls cs hcalls)
  right := h.right.trans (.of_calls cs hcalls')

/-- No call at all. -/
private theorem of_same (h : Ahead m n v v' w w') (hleads : u.Leads m n u') (hcalls : u.calls = w.calls)
    (hcalls' : u'.calls = w'.calls) : Ahead m n v v' u u' :=
  h.of_calls hleads [] (by simp [hcalls]) (by simp [hcalls'])

/-- One call, whatever it makes or deletes. -/
theorem alike_call (c : Native.Call) : Action.Alike (Ahead m n v v') Eq (call c) (call c) := by
  intro w w' h
  rw [on_call, on_call, ← h.leads.allowance]
  -- both calls find memory, or neither does
  cases spend c.function w.allowance with
  | none => exact ⟨.ok rfl, h⟩
  | some allowance =>
    have hleads : World.Leads m n { w.after c with allowance := allowance }
        { w'.after c with allowance := allowance } :=
      { h.leads with
        allowance := rfl
        problems := h.leads.problems.apply c
        problemThere := Nat.le_trans h.leads.problemThere (w.native.size_le_apply c) }
    exact ⟨.ok rfl, h.of_calls hleads [c] (by simp [World.after]) (by simp [World.after])⟩

theorem alike_glpkTell (c : Glpk.Call) : Action.Alike (Ahead m n v v') Eq (Glpk.tell c) (Glpk.tell c) :=
  (alike_call _).step fun _ => .pure rfl

theorem alike_lpSolveTell (c : LpSolve.Call) : Action.Alike (Ahead m n v v') Eq (LpSolve.tell c) (LpSolve.tell c) :=
  (alike_call _).step fun _ => .pure rfl

theorem alike_note (source text text' : String) :
    Action.Alike (Ahead m n v v') Eq (debug source text) (debug source text') :=
  .ahead (k := m) fun _ _ => alike_debug source source text text'

/-- What the two states know of one model: alike records, with one owner of one problem. -/
theorem alike_model (a : ModelId) :
    Action.Alike (Ahead m n v v') (fun x x' => x.Alike (.beside m n a) x' ∧ x.owner = x'.owner) (model a)
      (model a) := by
  intro w w' h
  have hmodels := h.leads.models a
  have howners := h.leads.owners a
  rw [on_model, on_model]
  rcases hx : w.model? a with _ | x <;> rcases hx' : w'.model? a with _ | x' <;> rw [hx, hx'] at hmodels howners
  · exact ⟨.error .closed, h⟩
  · -- a model that only one of the worlds has is excluded by `Leads`
    cases hmodels
  · cases hmodels
  · cases hmodels with
    | some halike => exact ⟨.ok ⟨halike, Option.some.inj howners⟩, h⟩

/-- Both sides find the model open, or neither does. -/
theorem alike_openModel (a : ModelId) :
    Action.Alike (Ahead m n v v') (fun x x' => x.Alike (.beside m n a) x' ∧ x.owner = x'.owner) (openModel a)
      (openModel a) := by
  unfold openModel
  refine (alike_model a).bind fun x x' hx => ?_
  rw [hx.1.freed]
  split
  · exact .fail _
  · exact .pure hx

/-- Alike changes of one model. -/
theorem alike_updateModel (a : ModelId) {f f' : Model → Model}
    (hf : ∀ x x', x.Alike (.beside m n a) x' → (f x).Alike (.beside m n a) (f' x') ∧ (f x).owner = (f' x').owner) :
    Action.Alike (Ahead m n v v') Eq (updateModel a f) (updateModel a f') := by
  intro w w' h
  -- the models are compared one by one, since only model `a` changes
  have hchanged (b : ModelId) :
      Option.Rel (Model.Alike (.beside m n b)) ((w.modifyModel a f).model? b) ((w'.modifyModel a f').model? b) ∧
        ((w.modifyModel a f).model? b).map Model.owner = ((w'.modifyModel a f').model? b).map Model.owner := by
    have hmodels := h.leads.models b
    have howners := h.leads.owners b
    unfold World.modifyModel World.model? at *
    rw [Array.getElem?_modify, Array.getElem?_modify]
    split
    · next hb =>
      subst hb
      generalize w.models[a]? = p at hmodels ⊢
      generalize w'.models[a]? = p' at hmodels ⊢
      cases hmodels with
      | none => exact ⟨.none, rfl⟩
      | some halike => exact ⟨.some (hf _ _ halike).1, congrArg some (hf _ _ halike).2⟩
    · exact ⟨hmodels, howners⟩
  have hleads : World.Leads m n (w.modifyModel a f) (w'.modifyModel a f') :=
    { h.leads with
      models := fun b => (hchanged b).1
      owners := fun b => (hchanged b).2
      modelCount := by simp [World.modifyModel, h.leads.modelCount]
      modelThere := by simpa [World.modifyModel] using h.leads.modelThere }
  rw [on_updateModel, on_updateModel]
  exact ⟨.ok rfl, h.of_same hleads rfl rfl⟩

/-- A new model each; it is not the model `m`. -/
theorem add (h : Ahead m n v v' w w') {x x' : Model}
    (hx : w.models.size ≠ m → x.Alike (.beside m n w.models.size) x') (howner : x.owner = x'.owner) :
    Agree Eq ((Model.add x).on w).1 ((Model.add x').on w').1 ∧
      Ahead m n v v' ((Model.add x).on w).2 ((Model.add x').on w').2 := by
  -- the added model is the last of both worlds; every earlier one is looked up as before
  have hadded (b : ModelId) : Option.Rel (Model.Alike (.beside m n b)) ((w.models.push x)[b]?)
        ((w'.models.push x')[b]?) ∧
      ((w.models.push x)[b]?).map Model.owner = ((w'.models.push x')[b]?).map Model.owner := by
    rw [Array.getElem?_push, Array.getElem?_push, ← h.leads.modelCount]
    split
    · next hb =>
      rw [hb]
      exact ⟨.some (hx (Nat.ne_of_gt h.leads.modelThere)), congrArg some howner⟩
    · exact ⟨h.leads.models b, h.leads.owners b⟩
  have hleads : World.Leads m n { w with models := w.models.push x } { w' with models := w'.models.push x' } :=
    { h.leads with
      models := fun b => (hadded b).1
      owners := fun b => (hadded b).2
      modelCount := by rw [Array.size_push, Array.size_push, h.leads.modelCount]
      modelThere := by
        rw [Array.size_push]
        exact Nat.lt_succ_of_lt h.leads.modelThere }
  rw [Model.on_add, Model.on_add, h.leads.modelCount]
  exact ⟨.ok rfl, h.of_same hleads rfl rfl⟩

/-! ## §7 Engines -/

/-- A problem that is made is not the problem `n`. -/
theorem alike_glpkCreate :
    Action.Alike (Ahead m n v v') (fun p p' => p = p' ∧ p ≠ n) Glpk.create Glpk.create := by
  unfold Glpk.create
  refine .look fun w w' h => ?_
  obtain ⟨hnext, hne⟩ := h.leads.next
  rw [← hnext]
  refine (alike_call _).step fun carried => ?_
  split
  · exact .pure ⟨rfl, hne⟩
  · -- without a problem GLPK answers 0, which is not `n` either
    exact .pure ⟨rfl, h.leads.number.symm⟩

/-- Both sides get the same number for a copy, and it is not that of the problem beside. -/
theorem alike_glpkCopy (p : Nat) :
    Action.Alike (Ahead m n v v') (fun t t' => t = t' ∧ t ≠ n) (Glpk.copy p) (Glpk.copy p) := by
  refine alike_glpkCreate.bind fun t t' ht => ?_
  obtain ⟨rfl, hne⟩ := ht
  exact (alike_glpkTell _).step fun _ => .pure ⟨rfl, hne⟩

/-- How lp_solve makes and copies problems: one call with the next number, and then no output. -/
private theorem alike_lpSolveNew (c : Nat → LpSolve.Call) (fault : Fault) :
    let make : Action Nat := do
      let p := (← get).native.next
      if ← call (.lpsolve (c p)) then
        LpSolve.silence p
        pure p
      else Action.fail fault
    Action.Alike (Ahead m n v v') (fun p p' => p = p' ∧ p ≠ n) make make := by
  refine .look fun w w' h => ?_
  obtain ⟨hnext, hne⟩ := h.leads.next
  rw [← hnext]
  refine (alike_call _).step fun carried => ?_
  -- the pointer decides: a problem is set up, or nothing was allocated
  split
  · exact ((alike_lpSolveTell _).step fun _ => alike_lpSolveTell _).step fun _ => .pure ⟨rfl, hne⟩
  · exact .fail _

theorem alike_engineCreate (kind : EngineKind) :
    Action.Alike (Ahead m n v v') (fun e e' => e = e' ∧ e.number ≠ n) (Engine.create kind) (Engine.create kind) := by
  cases kind with
  | glpk => exact alike_glpkCreate.bind fun p p' hp => .pure ⟨by rw [hp.1], hp.2⟩
  | lpsolve => exact (alike_lpSolveNew .create _).bind fun p p' hp => .pure ⟨by rw [hp.1], hp.2⟩

/-- Engines of one kind with one problem. -/
theorem alike_engineCopy {e e' : Engine} (hkind : e.kind = e'.kind) (hproblem : e.problem = e'.problem) :
    Action.Alike (Ahead m n v v') (fun d d' => d = d' ∧ d.number ≠ n) e.copy e'.copy := by
  unfold Engine.copy
  rw [hkind, hproblem]
  cases e'.problem with
  | none => exact .fail _
  | some p =>
    cases e'.kind with
    | glpk => exact (alike_glpkCopy p).bind fun t t' ht => .pure ⟨by rw [ht.1], ht.2⟩
    | lpsolve => exact (alike_lpSolveNew (.copy · p) _).bind fun t t' ht => .pure ⟨by rw [ht.1], ht.2⟩

/-- A problem is destroyed on both sides. -/
theorem alike_engineDestroy {e e' : Engine} (hkind : e.kind = e'.kind) (hproblem : e.problem = e'.problem) :
    Action.Alike (Ahead m n v v') (fun d d' => d.kind = d'.kind ∧ d.problem = d'.problem) e.destroy e'.destroy := by
  unfold Engine.destroy
  rw [hkind, hproblem]
  cases hp : e'.problem with
  | none => exact .pure ⟨hkind, hproblem⟩
  | some p =>
    cases hk : e'.kind with
    | glpk => exact (alike_glpkTell _).step fun _ => .pure ⟨rfl, rfl⟩
    | lpsolve => exact (alike_lpSolveTell _).step fun _ => .pure ⟨rfl, rfl⟩

theorem alike_setName (e : Engine) (name : String) :
    Action.Alike (Ahead m n v v') Eq (e.setName name) (e.setName name) := by
  unfold Engine.setName Engine.checkName
  cases e.kind with
  | glpk => exact (Alike.lift _).step fun _ => alike_glpkTell _
  | lpsolve => exact Alike.step (.pure rfl) fun _ => alike_lpSolveTell _

theorem alike_setDirection (e : Engine) (d : Direction) :
    Action.Alike (Ahead m n v v') Eq (e.setDirection d) (e.setDirection d) := by
  unfold Engine.setDirection
  cases e.kind with
  | glpk => exact alike_glpkTell _
  | lpsolve => exact alike_lpSolveTell _

/-! ## §8 Loading libraries -/

theorem library_withLibrary (w : World) (kind other : EngineKind) (l : Library) :
    (w.withLibrary kind l).library other = if other = kind then l else w.library other := by
  cases kind <;> cases other <;> rfl

/-- The same libraries in the same surroundings are loaded in the same way. -/
theorem alike_attemptLoad (kind : EngineKind) :
    Action.Alike (Ahead m n v v') Eq (attemptLoad kind) (attemptLoad kind) := by
  unfold attemptLoad
  refine .look fun w w' h => ?_
  rw [← h.leads.library, ← h.leads.surroundings]
  have hleads (l : Library) : World.Leads m n (w.withLibrary kind l) (w'.withLibrary kind l) := by
    have hlibrary : (w.withLibrary kind l).library = (w'.withLibrary kind l).library := by
      funext other
      rw [library_withLibrary, library_withLibrary, h.leads.library]
    cases kind <;> exact { h.leads with library := hlibrary }
  -- the library is put back into the states that were looked at
  refine Alike.step (fun u u' hu => ⟨.ok rfl, h.of_same (hleads _) (by cases kind <;> rfl) (by cases kind <;> rfl)⟩)
    fun _ => ?_
  split
  · exact Alike.step (.ahead (k := m) fun _ _ => alike_notes (fun _ => ⟨_, rfl⟩) fun _ => ⟨_, rfl⟩) fun _ => .pure rfl
  · exact .pure rfl

theorem alike_select (choice : EngineChoice) :
    Action.Alike (Ahead m n v v') Eq (select choice) (select choice) := by
  unfold select
  cases choice with
  | unusable => exact .fail _
  | named d =>
    dsimp only
    split
    · exact .fail _
    · exact ((alike_attemptLoad _).step fun _ => (Alike.lift _).step fun _ => .pure rfl).step fun _ => .pure rfl

theorem alike_firstAvailable (kinds : List EngineKind) :
    Action.Alike (Ahead m n v v') Eq (firstAvailable kinds) (firstAvailable kinds) := by
  -- the candidates are tried in order, each only after the one before it was found missing
  induction kinds with
  | nil => exact .fail _
  | cons kind rest ih =>
    unfold firstAvailable
    refine ((alike_attemptLoad kind).step fun _ => Alike.lift _).step fun available => ?_
    split
    · exact (alike_note _ _ _).step fun _ => .pure rfl
    · exact ih

/-- Both sides take the same engine by default. -/
theorem alike_selectDefault : Action.Alike (Ahead m n v v') Eq selectDefault selectDefault := by
  unfold selectDefault
  refine .look fun w w' h => ?_
  rw [h.leads.surroundings]
  split
  · exact (alike_note _ _ _).step fun _ => alike_select _
  · exact alike_firstAvailable _

theorem alike_applyAll (d : ModelDraft) (options : List ModelOption) :
    Action.Alike (Ahead m n v v') Eq (d.applyAll options) (d.applyAll options) := by
  have one (d : ModelDraft) (o : ModelOption) : Action.Alike (Ahead m n v v') Eq (d.apply o) (d.apply o) := by
    cases o with
    | verbose | presolve | printer => exact .pure rfl
    | parameters p => exact (Alike.lift _).step fun _ => .pure rfl
    | notParameters | notPrinter => exact .fail _
    | engine choice => exact (alike_select _).step fun _ => .pure rfl
  induction options generalizing d with
  | nil => exact .pure rfl
  | cons o rest ih => exact ((one d o).recovering fun _ => .fail _).step fun d => ih d

/-! ## §9 Making, copying and freeing -/

/-- Both sides free the same model. -/
theorem alike_free (a : ModelId) : Action.Alike (Ahead m n v v') Eq (Model.free a) (Model.free a) := by
  unfold Model.free
  refine (alike_model a).bind fun x x' hx => ?_
  obtain ⟨halike, howner⟩ := hx
  obtain ⟨-, hkind, hproblem⟩ : x.freed = x'.freed ∧ x.engine.kind = x'.engine.kind ∧
      x.engine.problem = x'.engine.problem := by simpa [Model.owner] using howner
  rw [halike.freed]
  split
  · refine (alike_engineDestroy hkind hproblem).bind fun e e' he => ?_
    refine Alike.step (alike_updateModel a fun y y' hy => ?_) fun _ => alike_note _ _ _
    -- once freed, the models need not agree about their engines
    exact ⟨{ hy with engine := fun hf => Bool.noConfusion hf, freed := rfl },
      by rw [Model.owner, Model.owner, he.1, he.2]⟩
  · exact .pure rfl

/-- Once the engine is chosen, everything is about a model and a problem that neither state had. -/
theorem alike_make (name : String) (direction : Direction) (draft : ModelDraft) (kind : EngineKind) :
    Action.Alike (Ahead m n v v') Eq (Model.make name direction draft kind)
      (Model.make name direction draft kind) := by
  refine (alike_engineCreate kind).bind fun e e' he => ?_
  obtain ⟨rfl, hne⟩ := he
  refine Alike.step (fun w w' h => h.add (fun hsize => ?_) rfl) fun k => ?_
  · exact ⟨fun _ => ⟨rfl, Pairing.problems_beside.mpr ⟨rfl, iff_of_false hne hsize⟩, rfl⟩, rfl, rfl, rfl, .nil,
      rfl, rfl, rfl, by rw [Pairing.shift_beside, if_neg hsize]; rfl⟩
  · -- after the model is recorded only its name and its sense may still raise
    refine Alike.step ?_ fun _ => (alike_model k).bind fun _ _ _ => (alike_note _ _ _).step fun _ => .pure rfl
    refine Alike.recovering ?_ fun _ => (alike_free k).step fun _ => .fail _
    refine Alike.step ?_ fun _ => (alike_setName e name).step fun _ => alike_setDirection e direction
    unfold Engine.checkName
    cases e.kind with
    | glpk => exact Alike.lift _
    | lpsolve => exact .pure rfl

/-- **Making a model** has the same answer on both sides. -/
theorem alike_create (name : String) (direction : Datum) (options : List ModelOption) :
    Action.Alike (Ahead m n v v') Eq (Model.create name direction options)
      (Model.create name direction options) := by
  unfold Model.create
  refine (Alike.lift _).step fun direction => (alike_applyAll _ _).step fun draft => ?_
  cases draft.engine with
  | some kind => exact alike_make name direction draft kind
  | none => exact alike_selectDefault.step (alike_make name direction draft)

/-- **Copying a model** has the same answer on both sides. -/
theorem alike_clone (a : ModelId) : Action.Alike (Ahead m n v v') Eq (Model.clone a) (Model.clone a) := by
  unfold Model.clone
  refine (alike_openModel a).bind fun x x' hx => ?_
  obtain ⟨halike, howner⟩ := hx
  obtain ⟨hfreed, hkind, hproblem⟩ : x.freed = x'.freed ∧ x.engine.kind = x'.engine.kind ∧
      x.engine.problem = x'.engine.problem := by simpa [Model.owner] using howner
  rw [halike.parameters]
  refine (Alike.lift _).step fun parameters => (alike_engineCopy hkind hproblem).bind fun e e' he => ?_
  obtain ⟨rfl, hne⟩ := he
  -- the number of the copy is read off the state to which it is added
  intro w w' h
  rw [on_bind_of_ok (on_get w), on_bind_of_ok (on_get w'), ← h.leads.modelCount]
  refine h.add (fun hsize => ?_) (by rw [Model.owner, Model.owner, hfreed])
  exact
    { engine := fun _ => ⟨rfl, Pairing.problems_beside.mpr ⟨rfl, iff_of_false hne hsize⟩, rfl⟩
      freed := halike.freed
      parameters := rfl
      kinds := halike.kinds
      vars := by
        rw [← halike.kinds, List.forall₂_map_left_iff, List.forall₂_map_right_iff]
        exact List.forall₂_same.mpr fun _ _ => ⟨Pairing.models_beside_self, rfl⟩
      names := halike.names
      entries := halike.entries
      constraintCount := halike.constraintCount
      revision := by rw [Pairing.shift_beside, if_neg hsize] }

end Ahead

/-! ## §10 Operations -/

/-- What neither makes nor frees a model names none in its answer. -/
private theorem respond_ne_model {o : Operation} (hlife : o.isLife = false) (w : World) (i : ModelId) :
    (o.respond.on w).1 ≠ .ok (.answer (.model i)) := by
  intro h
  -- the answer comes out of the operation as `run` shapes it
  have shaped {α : Type} {a : Action α} {f : α → Answer}
      (ha : ((Response.answer <$> f <$> a).on w).1 = .ok (.answer (.model i))) : ∃ x, f x = .model i := by
    rw [on_map, on_map] at ha
    cases hx : (a.on w).1 with
    | error fault =>
      rw [hx] at ha
      cases ha
    | ok x =>
      rw [hx] at ha
      exact ⟨x, by simpa [Except.map] using ha⟩
  cases o with
  | create | clone | free => cases hlife
  | inquire q =>
    have hreply : ((Response.reply <$> q.reply).on w).1 = .ok (.answer (.model i)) := h
    rw [on_map] at hreply
    cases hx : (q.reply.on w).1 with
    | error fault =>
      rw [hx] at hreply
      cases hreply
    | ok x =>
      rw [hx] at hreply
      cases hreply
  | _ =>
    obtain ⟨x, hx⟩ := shaped h
    cases hx

/-- **An operation in both states**: one response, but for the date of a result, and one state stays ahead. -/
theorem Operation.alike_redated (o : Operation) :
    Action.Alike (Ahead m n v v') (fun r r' => r = r'.redated m) (o.redated m).respond o.respond := by
  -- nothing is read off an answer that could be different
  have fixed {α : Type} {f : α → Answer} {a : Action α} (ha : Action.Alike (Ahead m n v v') Eq a a)
      (hf : ∀ x, Response.answer (f x) = (Response.answer (f x)).redated m) :
      Action.Alike (Ahead m n v v') (fun r r' => r = r'.redated m) (Response.answer <$> f <$> a)
        (Response.answer <$> f <$> a) :=
    (ha.map (S := fun y y' => y = y' ∧ Response.answer y = (Response.answer y).redated m)
      fun x _ hx => ⟨congrArg f hx, hf x⟩).map fun _ _ hy => hy.1 ▸ hy.2
  -- on one side, with alike responses
  have matched {k : ModelId} (hlife : (o.redated m).isLife = false)
      (hmatches : (o.redated m).Matches (.beside m n k) o) :
      Action.Alike (Ahead m n v v') (fun r r' => r = r'.redated m) (o.redated m).respond o.respond := by
    intro w w' h
    obtain ⟨hagree, hahead⟩ := Alike.ahead (fun _ _ => hmatches.alike hlife) w w' h
    refine ⟨?_, hahead⟩
    have hno := respond_ne_model hlife w
    generalize ((o.redated m).respond.on w).1 = x at hagree hno ⊢
    generalize (o.respond.on w').1 = x' at hagree ⊢
    cases hagree with
    | error fault => exact .error fault
    | ok halike =>
      rcases halike.eq_redated with heq | ⟨i, -, rfl, -⟩
      · exact .ok heq
      · exact absurd rfl (hno i)
  cases hlife : (o.redated m).isLife with
  | true =>
    cases o with
    | create name direction options => exact fixed (Ahead.alike_create _ _ _) fun _ => rfl
    | clone a => exact fixed (Ahead.alike_clone a) fun _ => rfl
    | free a => exact fixed (Ahead.alike_free a) fun _ => rfl
    | _ => cases hlife
  | false =>
    cases hk : o.about? with
    | none =>
      cases o with
      | meanwhile i => exact matched (k := m) rfl (.meanwhile i)
      | create => cases hlife
      | _ => cases hk
    | some k =>
      -- without a side of its own the operation names a variable of another model
      by_cases hside : ∀ x, .variable x ∈ o.arguments → (x.model = m ↔ k = m)
      · exact matched hlife (Operation.redated_matches hk hside)
      · obtain ⟨x, hx⟩ := not_forall.mp hside
        obtain ⟨hmem, hother⟩ := Classical.not_imp.mp hx
        exact Operation.alike_of_foreign hk ⟨x, hmem, fun heq => hother (by rw [heq])⟩

def redatedExchange (m : ModelId) (e : Except Fault Response × List Native.Call) :
    Except Fault Response × List Native.Call := (e.1.map (·.redated m), e.2)

/-- **Sequences of operations in both states**: they give back the same and make the same calls, but for the dates
of the results. -/
theorem World.Leads.exchanges (h : w.Leads m n w') (os : List Operation) :
    w.exchanges (os.map (·.redated m)) = (w'.exchanges os).map (redatedExchange m) := by
  -- on the operations; the step below turns one exchange into the dated one
  induction os generalizing w w' with
  | nil => rfl
  | cons o rest ih =>
    obtain ⟨hagree, hahead⟩ := o.alike_redated w w' (Ahead.start h)
    rw [Operation.on_respond_snd, Operation.on_respond_snd] at hahead
    have hfirst : w.exchange (o.redated m) = redatedExchange m (w'.exchange o) := by
      unfold exchange redatedExchange
      rw [hahead.calls]
      -- the two answers are compared as they are, whatever the operation was
      generalize ((o.redated m).respond.on w).1 = x at hagree ⊢
      generalize (o.respond.on w').1 = x' at hagree ⊢
      cases hagree with
      | error fault => rfl
      | ok heq => rw [heq]; rfl
    rw [List.map_cons, exchanges, exchanges, List.map_cons, hfirst, ih hahead.leads]

end LinearProgram
