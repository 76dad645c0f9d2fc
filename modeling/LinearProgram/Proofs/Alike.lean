import LinearProgram.Proofs.Validity

/-!
# What is the same up to names

Numbers of problems and of models are names: an operation does not depend on which numbers it works with. This
module says of the parts of a state what is left of them when such names do not count. `Registry.map` changes
the values that are registered, and all operations of a registry go along with it; `Call.rename` changes the
problems that a call names, and its effect on a problem stays what it was. `Problem.muted` leaves out what only
decides about the messages of a solver.
-/

namespace LinearProgram

/-! ## §1 Registries up to their values -/

namespace Registry

variable {α β : Type}

/-- The registry with every value replaced by its image. -/
def map (f : α → β) (r : Registry α) : Registry β :=
  { slots := r.slots.map fun slot => ⟨slot.generation, slot.value.map f⟩
    unused := r.unused
    count := r.count }

/-- A handle is found in a mapped registry where it is found in the registry. -/
theorem find?_map (f : α → β) (r : Registry α) (h : Handle) :
    (r.map f).find? h = (r.find? h).map fun found => (found.1, f found.2) := by
  unfold find?
  split
  · rfl
  · simp only [map, Array.getElem?_map]
    cases r.slots[(indexOf h).toNat]? with
    | none => rfl
    | some slot =>
      -- a vacant slot holds no value to map
      rcases slot with ⟨generation, _ | value⟩
      · rfl
      · simp only [Option.map_some]
        split <;> rfl

theorem resolve_map (f : α → β) (r : Registry α) (h : Handle) :
    (r.map f).resolve h = (r.resolve h).map f := by
  rw [resolve, find?_map, resolve, Option.map_map, Option.map_map]
  rfl

/-- A slot is taken by the mapped value. -/
theorem occupy_map (f : α → β) (r : Registry α) (index : Nat) (value : α) :
    (r.map f).occupy index (f value) = (r.occupy index value).map f := by
  unfold occupy map
  congr 1
  -- the generations do not change, and only the occupied slot gets a value
  apply Array.ext
  · simp
  · intro i h₁ h₂
    simp only [Array.getElem_modify, Array.getElem_map]
    split <;> rfl

/-- A mapped registry gives out the same handles. -/
theorem register_map (f : α → β) (r : Registry α) (value : α) :
    (r.map f).register (f value) = (r.register value).map fun made => (made.1, made.2.map f) := by
  unfold register
  cases hunused : r.unused with
  -- a freed slot is taken again, at its present generation
  | cons index rest =>
    have hgeneration : (r.map f).slots[index]?.map (·.generation) = r.slots[index]?.map (·.generation) := by
      simp only [map, Array.getElem?_map, Option.map_map]
      rfl
    simp only [map, hunused] at hgeneration ⊢
    rw [hgeneration]
    exact congrArg (fun made => Except.ok (_, made)) (occupy_map f { r with unused := rest } index value)
  -- no slot is free: a new one is pushed, unless the slots are exhausted
  | nil =>
    have hpush := occupy_map f ⟨r.slots.push ⟨0, none⟩, [], r.count⟩ r.slots.size value
    simp only [map, hunused, Array.map_push, Array.size_map, Option.map_none] at hpush ⊢
    split
    · rfl
    · exact congrArg (fun made => Except.ok (_, made)) hpush

/-- A mapped registry gives up the same handles. -/
theorem unregister_map (f : α → β) (r : Registry α) (h : Handle) :
    (r.map f).unregister h = (r.unregister h).map (map f) := by
  unfold unregister
  rw [find?_map]
  cases r.find? h with
  | none => rfl
  | some found =>
    simp only [Option.map_some, Except.map]
    congr 1
    unfold map
    congr 1
    -- slot by slot: only the released one changes, and it has no value left
    apply Array.ext
    · simp
    · intro i h₁ h₂
      simp only [Array.getElem_modify, Array.getElem_map]
      split <;> rfl

end Registry

/-- The target as far as callbacks of the solvers can tell, printing apart: which model it is does not
matter. -/
def Target.outline : Target → Target
  | .model _ => .model 0
  | target => target

/-! ## §2 Calls up to the problems they name -/

namespace Glpk.Call

def rename (f : Nat → Nat) : Call → Call
  | create p => create (f p)
  | delete p => delete (f p)
  | copy target source names => copy (f target) (f source) names
  | setName p name => setName (f p) name
  | setDirection p code => setDirection (f p) code
  | addRows p count => addRows (f p) count
  | addColumns p count => addColumns (f p) count
  | setColumnName p j name => setColumnName (f p) j name
  | setColumnKind p j code => setColumnKind (f p) j code
  | setColumnBounds p j code lower upper => setColumnBounds (f p) j code lower upper
  | setRowBounds p i code lower upper => setRowBounds (f p) i code lower upper
  | setObjective p j coefficient => setObjective (f p) j coefficient
  | loadMatrix p matrix => loadMatrix (f p) matrix
  | simplex p messageLevel presolve => simplex (f p) messageLevel presolve
  | integerSearch p messageLevel presolve callback => integerSearch (f p) messageLevel presolve callback
  | stopSearch => stopSearch
  | terminalHook handle => terminalHook handle
  | read p query => read (f p) query

end Glpk.Call

namespace LpSolve.Call

def rename (f : Nat → Nat) : Call → Call
  | create p => create (f p)
  | delete p => delete (f p)
  | copy p source => copy (f p) (f source)
  | setName p name => setName (f p) name
  | setMaximize p flag => setMaximize (f p) flag
  | addColumn p => addColumn (f p)
  | addRow p type side => addRow (f p) type side
  | setColumnName p j name => setColumnName (f p) j name
  | setInteger p j flag => setInteger (f p) j flag
  | setBinary p j flag => setBinary (f p) j flag
  | setUnbounded p j => setUnbounded (f p) j
  | setBounds p j lower upper => setBounds (f p) j lower upper
  | setObjective p j coefficient => setObjective (f p) j coefficient
  | setEntry p i j value => setEntry (f p) i j value
  | setRowType p i type => setRowType (f p) i type
  | setRowSide p i side => setRowSide (f p) i side
  | setVerbosity p level => setVerbosity (f p) level
  | setOutput p path => setOutput (f p) path
  | logHook p handle => logHook (f p) handle
  | abortHook p handle => abortHook (f p) handle
  | solve p => solve (f p)
  | read p query => read (f p) query

end LpSolve.Call

namespace Native.Call

def rename (f : Nat → Nat) : Call → Call
  | glpk c => glpk (c.rename f)
  | lpsolve c => lpsolve (c.rename f)

variable (f g : Nat → Nat) (c : Call)

@[simp] theorem function_rename : (c.rename f).function = c.function := by
  rcases c with c | c <;> cases c <;> rfl

@[simp] theorem isLife_rename : (c.rename f).isLife = c.isLife := by
  rcases c with c | c <;> cases c <;> rfl

@[simp] theorem rename_rename : (c.rename f).rename g = c.rename (g ∘ f) := by
  rcases c with c | c <;> cases c <;> rfl

/-- The effect on a problem does not depend on its number. -/
@[simp] theorem apply_rename (q : Problem) : q.apply (c.rename f) = q.apply c := by
  rcases c with c | c <;> cases c <;> cases q <;> rfl

variable {f g c}

/-- A renaming matters only on the problems that the call names. -/
theorem rename_congr (h : ∀ n ∈ c.problems, f n = g n) : c.rename f = c.rename g := by
  rcases c with c | c <;> cases c <;>
    simp_all [rename, Glpk.Call.rename, LpSolve.Call.rename, problems, Glpk.Call.problems,
      LpSolve.Call.problems]

theorem rename_eq_self (h : ∀ n ∈ c.problems, f n = n) : c.rename f = c := by
  rw [rename_congr (g := id) h]
  rcases c with c | c <;> cases c <;> rfl

/-- A call that neither makes nor deletes problems names at most one. -/
theorem problems_of_isLife_eq_false (h : c.isLife = false) :
    (∃ n, c.problems = [n]) ∨ c.problems = [] := by
  rcases c with c | c <;> cases c <;>
    first
      | exact Or.inl ⟨_, rfl⟩
      | exact Or.inr rfl
      | cases h

end Native.Call

namespace Native

/-- Such a call changes the problem that it names, if it names one, and no other. -/
theorem Store.problem?_apply_of_isLife_eq_false {c : Call} (h : c.isLife = false) (s : Store) (k : Nat) :
    (s.apply c).problem? k = if k ∈ c.problems then (s.problem? k).map (·.apply c) else s.problem? k := by
  rcases Call.problems_of_isLife_eq_false h with ⟨n, hn⟩ | hn
  · rw [Store.problem?_apply ⟨h, hn⟩, hn]
    by_cases hk : k = n
    · rw [if_pos hk, if_pos (List.mem_singleton.mpr hk), hk]
    · rw [if_neg hk, if_neg (fun hmem => hk (List.mem_singleton.mp hmem))]
  · -- the call concerns no problem at all
    rw [hn, if_neg (by simp)]
    rcases c with c | c <;> cases c <;> first | rfl | cases hn

/-- Only calls that make problems add to them. -/
theorem Store.size_apply_of_isLife_eq_false {c : Call} (h : c.isLife = false) (s : Store) :
    (s.apply c).problems.size = s.problems.size := by
  rcases Call.problems_of_isLife_eq_false h with ⟨n, hn⟩ | hn
  · rw [Store.apply_of_isAbout ⟨h, hn⟩, Store.size_modify]
  · rcases c with c | c <;> cases c <;> first | rfl | cases hn

end Native

/-! ## §3 Problems up to their messages -/

/-- The problem without what decides about the messages of a run. -/
def LpSolve.Problem.muted (q : LpSolve.Problem) : LpSolve.Problem := { q with verbosity := 0, logHook := none }

namespace Native

namespace Problem

/-- The problem without what decides about the messages of a run; only lp_solve keeps that in the problem. -/
def muted : Problem → Problem
  | .lpsolve q => .lpsolve q.muted
  | other => other

/-- What decides about messages has no part in what a call does to the rest of a problem. -/
theorem muted_apply (q : Problem) (c : Call) : (q.apply c).muted = (q.muted.apply c).muted := by
  cases q <;> rcases c with c | c <;> cases c <;>
    simp only [apply, muted, LpSolve.Problem.muted, LpSolve.Problem.apply,
      LpSolve.Problem.modifyColumn, LpSolve.Problem.modifyRow] <;>
    split <;> rfl

theorem muted_apply_congr {q q' : Problem} (h : q.muted = q'.muted) (c : Call) :
    (q.apply c).muted = (q'.apply c).muted := by
  rw [muted_apply, h, ← muted_apply]

end Problem

/-- What stands at a number, without what decides about messages. -/
def Store.muted? (s : Store) (n : Nat) : Option Problem := (s.problem? n).map Problem.muted

theorem Store.glpk?_of_muted? {s s' : Store} {n n' : Nat} (h : s.muted? n = s'.muted? n') :
    s.glpk? n = s'.glpk? n' := by
  unfold muted? at h
  unfold glpk?
  rcases hs : s.problem? n with _ | q | q | _ <;> rcases hs' : s'.problem? n' with _ | q' | q' | _ <;>
    simp_all [Problem.muted]

/-- Two problems of lp_solve that differ in their messages only, or none at either number. -/
theorem Store.lpsolve?_of_muted? {s s' : Store} {n n' : Nat} (h : s.muted? n = s'.muted? n') :
    (s.lpsolve? n).map LpSolve.Problem.muted = (s'.lpsolve? n').map LpSolve.Problem.muted := by
  unfold muted? at h
  unfold lpsolve?
  rcases hs : s.problem? n with _ | q | q | _ <;> rcases hs' : s'.problem? n' with _ | q' | q' | _ <;>
    simp_all [Problem.muted]

end Native

end LinearProgram
