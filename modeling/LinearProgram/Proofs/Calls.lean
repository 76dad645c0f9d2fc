import LinearProgram.Proofs.Action

/-!
# Calls and what they do to the problems

An engine works by calls, and what a call does is `Store.apply`. This module says what a list of calls
does: `World.afterAll` is the state after it, and `Store.problem?_applyAll` says that calls about one
problem change that problem, as `Problem.applyAll` says, and no other.

Two groups of calls matter later. The *quiet* ones leave the mathematical problem alone: they read, set
hooks or verbosity, or run a solver. `Problem.core` is a problem without what only runs and hooks change,
and quiet calls keep it. Among them, the *entries* start a solver.
-/

namespace LinearProgram

/-! ## §1 Carrying calls out -/

/-- Whether a call adds one column or one row to a problem of lp_solve. -/
def Native.Call.isAddition : Native.Call → Bool
  | lpsolve (.addColumn _) | lpsolve (.addRow ..) => true
  | _ => false

namespace World

/-- The state after a call that the library carried out. -/
def after (w : World) (c : Native.Call) : World :=
  { w with calls := w.calls.push c, native := w.native.apply c }

/-- The state after calls that the library carried out, in order. -/
def afterAll (w : World) (cs : List Native.Call) : World := cs.foldl after w

/-- The state after calls that change nothing. -/
def reading (w : World) (cs : List Native.Call) : World := { w with calls := w.calls ++ cs.toArray }

theorem reading_nil (w : World) : w.reading [] = w := by simp [reading]

/-- A call that reads is recorded, and that is all. -/
theorem after_eq_reading (w : World) {c : Native.Call} (hc : c.isRead = true) : w.after c = w.reading [c] := by
  have hnative : w.native.apply c = w.native := by
    rcases c with c | c <;> cases c <;> first | rfl | cases hc
  unfold after reading
  rw [hnative]
  simp

/-- The library never refuses a function. -/
def Grants (w : World) (function : String) : Prop := w.allowance.lookup function = none

/-- The libraries refuse nothing. -/
def Compliant (w : World) : Prop := w.allowance = []

theorem Compliant.grants {w : World} (h : w.Compliant) (function : String) : w.Grants function := by
  unfold Compliant at h
  simp [Grants, h]

/-- The libraries refuse at most to add columns or rows one by one. -/
def Lenient (w : World) : Prop := ∀ c : Native.Call, c.isAddition = false → w.Grants c.function

theorem Compliant.lenient {w : World} (h : w.Compliant) : w.Lenient := fun _ _ => h.grants _

theorem Lenient.glpk {w : World} (h : w.Lenient) {c : Glpk.Call} : w.Grants c.function :=
  h (.glpk c) rfl

theorem Lenient.lpsolve {w : World} (h : w.Lenient) {c : LpSolve.Call}
    (hc : (Native.Call.lpsolve c).isAddition = false) : w.Grants c.function := h (.lpsolve c) hc

/-- Only the allowances matter. -/
theorem Lenient.of_allowance {w w' : World} (h : w.Lenient) (ha : w'.allowance = w.allowance) :
    w'.Lenient := by
  intro c hc
  rw [Grants, ha]
  exact h c hc

@[simp] theorem afterAll_nil (w : World) : w.afterAll [] = w := rfl

@[simp] theorem afterAll_cons (w : World) (c : Native.Call) (cs : List Native.Call) :
    w.afterAll (c :: cs) = (w.after c).afterAll cs := rfl

@[simp] theorem afterAll_append (w : World) (cs ds : List Native.Call) :
    w.afterAll (cs ++ ds) = (w.afterAll cs).afterAll ds := by
  simp [afterAll, List.foldl_append]

/-- Calls change the problems and the record of calls, and nothing else. -/
theorem afterAll_eq (w : World) (cs : List Native.Call) :
    w.afterAll cs =
      { w with calls := w.calls ++ cs.toArray, native := cs.foldl Native.Store.apply w.native } := by
  induction cs generalizing w with
  | nil => simp
  | cons c cs ih => simp [ih, after]

@[simp] theorem afterAll_models (w : World) (cs : List Native.Call) :
    (w.afterAll cs).models = w.models := by rw [afterAll_eq]

@[simp] theorem afterAll_model? (w : World) (cs : List Native.Call) (m : ModelId) :
    (w.afterAll cs).model? m = w.model? m := by rw [model?, afterAll_models]; rfl

@[simp] theorem afterAll_allowance (w : World) (cs : List Native.Call) :
    (w.afterAll cs).allowance = w.allowance := by rw [afterAll_eq]

@[simp] theorem afterAll_registry (w : World) (cs : List Native.Call) :
    (w.afterAll cs).registry = w.registry := by rw [afterAll_eq]

@[simp] theorem afterAll_script (w : World) (cs : List Native.Call) :
    (w.afterAll cs).script = w.script := by rw [afterAll_eq]

@[simp] theorem afterAll_clock (w : World) (cs : List Native.Call) :
    (w.afterAll cs).clock = w.clock := by rw [afterAll_eq]

@[simp] theorem afterAll_native (w : World) (cs : List Native.Call) :
    (w.afterAll cs).native = cs.foldl Native.Store.apply w.native := by rw [afterAll_eq]

@[simp] theorem afterAll_calls (w : World) (cs : List Native.Call) :
    (w.afterAll cs).calls = w.calls ++ cs.toArray := by rw [afterAll_eq]

theorem Compliant.afterAll {w : World} (h : w.Compliant) (cs : List Native.Call) :
    (w.afterAll cs).Compliant := by
  rw [Compliant, afterAll_allowance]
  exact h

theorem Compliant.after {w : World} (h : w.Compliant) (c : Native.Call) :
    (w.after c).Compliant := h

theorem Lenient.after {w : World} (h : w.Lenient) (c : Native.Call) : (w.after c).Lenient := h

theorem Lenient.afterAll {w : World} (h : w.Lenient) (cs : List Native.Call) :
    (w.afterAll cs).Lenient := h.of_allowance (afterAll_allowance w cs)

def callsSince (w w' : World) : List Native.Call := w'.calls.toList.drop w.calls.size

/-- The record of calls has only grown. -/
def Extends (w w' : World) : Prop := w'.calls = w.calls ++ (w.callsSince w').toArray

theorem callsSince_of_calls {w w' : World} (cs : List Native.Call)
    (h : w'.calls = w.calls ++ cs.toArray) : w.callsSince w' = cs := by
  simp [callsSince, h]

theorem Extends.of_calls {w w' : World} (cs : List Native.Call)
    (h : w'.calls = w.calls ++ cs.toArray) : w.Extends w' := by
  rw [Extends, callsSince_of_calls cs h, h]

@[simp] theorem callsSince_self (w : World) : w.callsSince w = [] := by simp [callsSince]

@[simp] theorem callsSince_after (w : World) (c : Native.Call) : w.callsSince (w.after c) = [c] :=
  callsSince_of_calls [c] (by simp [after])

@[simp] theorem callsSince_afterAll (w : World) (cs : List Native.Call) :
    w.callsSince (w.afterAll cs) = cs := callsSince_of_calls cs (afterAll_calls w cs)

protected theorem Extends.refl (w : World) : w.Extends w := Extends.of_calls [] (by simp)

theorem Extends.after (w : World) (c : Native.Call) : w.Extends (w.after c) :=
  Extends.of_calls [c] (by simp [World.after])

theorem Extends.afterAll (w : World) (cs : List Native.Call) : w.Extends (w.afterAll cs) :=
  Extends.of_calls cs (afterAll_calls w cs)

/-- The calls since a state are those up to a state in between, and then those since that one. -/
theorem Extends.calls_eq {w w₁ w₂ : World} (h₁ : w.Extends w₁) (h₂ : w₁.Extends w₂) :
    w₂.calls = w.calls ++ (w.callsSince w₁ ++ w₁.callsSince w₂).toArray := by
  rw [Extends] at h₁ h₂
  rw [h₂, h₁, Array.append_assoc, List.append_toArray]
  simp [callsSince]

protected theorem Extends.trans {w w₁ w₂ : World} (h₁ : w.Extends w₁) (h₂ : w₁.Extends w₂) :
    w.Extends w₂ := Extends.of_calls _ (h₁.calls_eq h₂)

/-- The calls over a way are those of its parts. -/
theorem callsSince_trans {w w₁ w₂ : World} (h₁ : w.Extends w₁) (h₂ : w₁.Extends w₂) :
    w.callsSince w₂ = w.callsSince w₁ ++ w₁.callsSince w₂ := callsSince_of_calls _ (h₁.calls_eq h₂)

end World

namespace Action

/-- A function without an allowance of its own is not counted. -/
theorem spend_of_lookup_eq_none {function : String} {allowance : List (String × Nat)}
    (h : allowance.lookup function = none) : spend function allowance = some allowance := by
  induction allowance with
  | nil => rfl
  | cons e rest ih =>
    obtain ⟨f, n⟩ := e
    -- an entry of the function itself would have been found
    by_cases hf : f = function
    · subst hf
      simp at h
    · have hne : (function == f) = false := beq_eq_false_iff_ne.mpr (Ne.symm hf)
      rw [List.lookup_cons, hne] at h
      simp [spend, hf, ih h]

/-- A call is answered by no, and not made, when its function may not be called any more. -/
theorem on_call (c : Native.Call) (w : World) :
    (call c).on w =
      match spend c.function w.allowance with
      | none => (.ok false, w)
      | some allowance => (.ok true, { w.after c with allowance := allowance }) := by
  unfold call
  rw [on_bind, on_get]
  dsimp only
  cases spend c.function w.allowance <;> rfl

/-- What the library never refuses is carried out. -/
theorem on_call_of_grants {c : Native.Call} {w : World} (h : w.Grants c.function) :
    (call c).on w = (.ok true, w.after c) := by
  rw [on_call, spend_of_lookup_eq_none h]
  rfl

theorem on_call_of_compliant {c : Native.Call} {w : World} (h : w.Compliant) :
    (call c).on w = (.ok true, w.after c) := on_call_of_grants (h.grants _)

end Action

/-! ## §2 Calls about one problem -/

namespace Native

namespace Call

/-- Whether a call makes, copies or deletes a problem. -/
def isLife : Call → Bool
  | glpk (.create _) | glpk (.copy ..) | glpk (.delete _) => true
  | lpsolve (.create _) | lpsolve (.copy ..) | lpsolve (.delete _) => true
  | _ => false

/-- The call works on problem `n` and on no other. -/
def IsAbout (n : Nat) (c : Call) : Prop := c.isLife = false ∧ c.problems = [n]

instance (n : Nat) (c : Call) : Decidable (c.IsAbout n) := inferInstanceAs (Decidable (_ ∧ _))

end Call

namespace Problem

def apply (p : Problem) (c : Call) : Problem :=
  match p, c with
  | .glpk q, .glpk c => .glpk (q.apply c)
  | .lpsolve q, .lpsolve c => .lpsolve (q.apply c)
  | p, _ => p

def applyAll (p : Problem) (cs : List Call) : Problem := cs.foldl apply p

@[simp] theorem applyAll_nil (p : Problem) : p.applyAll [] = p := rfl

@[simp] theorem applyAll_cons (p : Problem) (c : Call) (cs : List Call) :
    p.applyAll (c :: cs) = (p.apply c).applyAll cs := rfl

theorem applyAll_append (p : Problem) (cs ds : List Call) :
    p.applyAll (cs ++ ds) = (p.applyAll cs).applyAll ds := by
  simp [applyAll, List.foldl_append]

end Problem

namespace Store

/-- A change to one problem leaves the others as they are. -/
theorem problem?_modify (s : Store) (n k : Nat) (f : Problem → Problem) :
    (s.modify n f).problem? k = if k = n then (s.problem? n).map f else s.problem? k := by
  unfold modify problem?
  -- number 0 is the null pointer: it names no problem and is never modified
  by_cases hn : n = 0
  · subst hn
    by_cases hk : k = 0 <;> simp [hk]
  · by_cases hk : k = 0
    · have hkn : ¬ k = n := fun h => hn (h ▸ hk)
      simp [hk, Ne.symm hn]
    · by_cases hkn : k = n
      · subst hkn
        simp [hk, Array.getElem?_modify]
      · have hne : ¬ n - 1 = k - 1 := by omega
        simp [hn, hk, hkn, Array.getElem?_modify, hne]

theorem modify_congr {s : Store} {n : Nat} {f g : Problem → Problem} (h : ∀ p, f p = g p) :
    s.modify n f = s.modify n g := by
  rw [funext h]

theorem modify_id (s : Store) (n : Nat) : s.modify n (fun p => p) = s := by
  unfold modify
  split
  · rfl
  · congr 1
    apply Array.ext
    · simp
    · intro i h₁ h₂
      simp [Array.getElem_modify]

/-- Two changes to one problem are one change. -/
theorem modify_modify (s : Store) (n : Nat) (f g : Problem → Problem) :
    (s.modify n f).modify n g = s.modify n (g ∘ f) := by
  unfold modify
  by_cases hn : n = 0
  · simp only [hn, if_true]
  · simp only [hn, if_false]
    congr 1
    -- place by place, as both modifications fall on the same one
    apply Array.ext_getElem?
    intro i
    simp only [Array.getElem?_modify]
    split <;> simp

/-- Only the change of the problem that is there matters. -/
theorem modify_congr_of_problem? {s : Store} {n : Nat} {q : Problem} (hq : s.problem? n = some q)
    {f g : Problem → Problem} (hfg : f q = g q) : s.modify n f = s.modify n g := by
  unfold modify
  unfold problem? at hq
  split
  · rfl
  · next hn =>
    rw [if_neg hn] at hq
    congr 1
    apply Array.ext_getElem?
    intro i
    rw [Array.getElem?_modify, Array.getElem?_modify]
    -- problems are numbered from one and stored from zero
    by_cases hi : n - 1 = i
    · rw [if_pos hi, if_pos hi, ← hi, hq]
      exact congrArg some hfg
    · rw [if_neg hi, if_neg hi]

/-- A call about one problem is a change of that problem. -/
theorem apply_of_isAbout {c : Call} {n : Nat} (h : c.IsAbout n) (s : Store) :
    s.apply c = s.modify n fun p => p.apply c := by
  obtain ⟨hlife, hproblems⟩ := h
  rcases c with c | c <;> cases c <;>
    simp_all [Call.isLife, Call.problems, Glpk.Call.problems, LpSolve.Call.problems, apply,
      applyGlpk, applyLpSolve]
  -- queries leave the problem alone, the other calls change it by `Problem.apply`
  all_goals
    first
      | exact (modify_id s n).symm.trans (modify_congr fun p => by cases p <;> rfl)
      | exact modify_congr fun p => by cases p <;> rfl

/-- Calls about one problem are one change of that problem. -/
theorem foldl_apply_of_isAbout {cs : List Call} {n : Nat} (h : ∀ c ∈ cs, c.IsAbout n) (s : Store) :
    cs.foldl apply s = s.modify n fun q => q.applyAll cs := by
  induction cs generalizing s with
  | nil => exact (modify_id s n).symm
  | cons c cs ih =>
    obtain ⟨hc, hcs⟩ := List.forall_mem_cons.mp h
    rw [List.foldl_cons, ih hcs, apply_of_isAbout hc, modify_modify]
    rfl

theorem problem?_apply {c : Call} {n : Nat} (h : c.IsAbout n) (s : Store) (k : Nat) :
    (s.apply c).problem? k = if k = n then (s.problem? n).map (·.apply c) else s.problem? k := by
  rw [apply_of_isAbout h, problem?_modify]

/-- Calls about one problem change that problem, and no other. -/
theorem problem?_applyAll {cs : List Call} {n : Nat} (h : ∀ c ∈ cs, c.IsAbout n) (s : Store)
    (k : Nat) :
    (cs.foldl apply s).problem? k =
      if k = n then (s.problem? n).map (·.applyAll cs) else s.problem? k := by
  -- call by call; the store after the first stands for the initial one in the rest
  induction cs generalizing s with
  | nil =>
    by_cases hk : k = n
    · subst hk
      simp
    · simp [hk]
  | cons c cs ih =>
    have hc : c.IsAbout n := h c (List.mem_cons_self ..)
    rw [List.foldl_cons, ih (fun d hd => h d (List.mem_cons_of_mem _ hd))]
    by_cases hk : k = n
    · subst hk
      rw [if_pos rfl, if_pos rfl, problem?_apply hc, if_pos rfl, Option.map_map]
      rfl
    · rw [if_neg hk, if_neg hk, problem?_apply hc, if_neg hk]

theorem size_modify (s : Store) (n : Nat) (f : Problem → Problem) :
    (s.modify n f).problems.size = s.problems.size := by
  unfold modify
  split <;> simp

/-- Calls about one problem make no problem. -/
theorem size_applyAll {cs : List Call} {n : Nat} (h : ∀ c ∈ cs, c.IsAbout n) (s : Store) :
    (cs.foldl apply s).problems.size = s.problems.size := by
  induction cs generalizing s with
  | nil => rfl
  | cons c cs ih =>
    rw [List.foldl_cons, ih (fun d hd => h d (List.mem_cons_of_mem _ hd)),
      apply_of_isAbout (h c (List.mem_cons_self ..)), size_modify]

theorem problem?_eq_none_of_size_lt {s : Store} {n : Nat} (h : s.problems.size < n) :
    s.problem? n = none := by
  unfold problem?
  split
  · rfl
  · exact Array.getElem?_eq_none (by omega)

/-- A problem has a number that was given out. -/
theorem le_size_of_problem?_eq_some {s : Store} {n : Nat} {p : Problem} (h : s.problem? n = some p) :
    n ≤ s.problems.size := by
  refine Nat.le_of_not_lt fun hlt => ?_
  rw [problem?_eq_none_of_size_lt hlt] at h
  cases h

end Store

/-! ## §3 Quiet calls -/

namespace Call

def isEntry : Call → Bool
  | glpk (.simplex ..) | glpk (.integerSearch ..) | lpsolve (.solve _) => true
  | _ => false

/-- Whether a call leaves every mathematical problem alone: it reads, sets hooks or verbosity, or runs a
solver. -/
def isQuiet : Call → Bool
  | glpk (.simplex ..) | glpk (.integerSearch ..) | glpk .stopSearch | glpk (.terminalHook _)
  | glpk (.read ..) => true
  | lpsolve (.setVerbosity ..) | lpsolve (.logHook ..) | lpsolve (.abortHook ..) | lpsolve (.solve _)
  | lpsolve (.read ..) => true
  | _ => false

end Call

namespace Problem

/-- The problem without what only runs and hooks change. -/
def core : Problem → Problem
  | .glpk q => .glpk { q with status := 1, integerStatus := 1, values := .none }
  | .lpsolve q =>
    .lpsolve { q with verbosity := 0, logHook := none, abortHook := none, values := .none }
  | .deleted => .deleted

@[simp] theorem core_core (p : Problem) : p.core.core = p.core := by cases p <;> rfl

/-- The core of the outcome of a call depends on the core only. -/
theorem core_apply (p : Problem) (c : Call) : (p.apply c).core = (p.core.apply c).core := by
  cases p <;> rcases c with c | c <;> cases c <;>
    simp only [apply, core, Glpk.Problem.apply, LpSolve.Problem.apply, Glpk.Problem.modifyColumn,
      Glpk.Problem.modifyRow, LpSolve.Problem.modifyColumn, LpSolve.Problem.modifyRow] <;>
    split <;> rfl

/-- What the core of a problem becomes depends on its core alone. -/
theorem core_applyAll (p : Problem) (cs : List Call) :
    (p.applyAll cs).core = (p.core.applyAll cs).core := by
  induction cs generalizing p with
  | nil => simp
  | cons c cs ih => rw [applyAll_cons, applyAll_cons, ih, core_apply, ← ih]

end Problem

namespace Store

def core? (s : Store) (n : Nat) : Option Problem := (s.problem? n).map Problem.core

theorem core?_of_problem? {s : Store} {n : Nat} {p : Problem} (h : s.problem? n = some p) :
    s.core? n = some p.core := by
  rw [core?, h]
  rfl

/-- Changes that keep every core keep the cores of a store. -/
theorem core?_modify_of_core {f : Problem → Problem} (h : ∀ p, (f p).core = p.core) (s : Store)
    (n k : Nat) : (s.modify n f).core? k = s.core? k := by
  unfold core?
  rw [problem?_modify]
  -- only problem `n` is touched, and its core does not see it
  by_cases hk : k = n
  · subst hk
    rw [if_pos rfl]
    cases s.problem? k with
    | none => rfl
    | some p => simp [h p]
  · rw [if_neg hk]

/-- A quiet call keeps the cores of all problems. -/
theorem core?_apply_of_isQuiet {c : Call} (h : c.isQuiet = true) (s : Store) (k : Nat) :
    (s.apply c).core? k = s.core? k := by
  rcases c with c | c <;> cases c <;> simp only [Call.isQuiet, Bool.false_eq_true] at h <;>
    first
      | rfl
      | exact core?_modify_of_core (fun p => by cases p <;> rfl) s _ k

/-- Quiet calls make no problem. -/
theorem size_apply_of_isQuiet {c : Call} (h : c.isQuiet = true) (s : Store) :
    (s.apply c).problems.size = s.problems.size := by
  rcases c with c | c <;> cases c <;> simp only [Call.isQuiet, Bool.false_eq_true] at h <;>
    first
      | rfl
      | exact size_modify _ _ _

/-- Quiet calls leave the cores of all problems as they are. -/
theorem core?_applyAll_of_isQuiet {cs : List Call} (h : ∀ c ∈ cs, c.isQuiet = true) (s : Store)
    (k : Nat) : (cs.foldl apply s).core? k = s.core? k := by
  induction cs generalizing s with
  | nil => rfl
  | cons c cs ih =>
    rw [List.foldl_cons, ih (fun d hd => h d (List.mem_cons_of_mem _ hd)),
      core?_apply_of_isQuiet (h c (List.mem_cons_self ..))]

end Store

end Native

end LinearProgram
