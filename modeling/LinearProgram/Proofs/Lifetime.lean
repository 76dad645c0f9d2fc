import LinearProgram.Model.Arrays
import LinearProgram.Proofs.Twins.Session

/-!
# The lifetime of problems

The libraries keep a problem until it is deleted, and a call that names one which has been deleted is an error
that nobody notices. So the layer has to see to it itself: a problem is deleted once, nothing names it after
that, and every problem that is there belongs to exactly one model that has not been freed. This is
`World.Orderly`. It holds however the libraries refuse to make problems, columns or rows, and however an
operation ends.

What neither makes nor frees models keeps the invariant, since the calls that it makes name the problems of open
models only (`World.Keeps`). The three ways in which problems come and go have a lemma each.
-/

namespace LinearProgram

open LinearProgram.Action

/-! ## §1 Making and deleting -/

namespace Native.Call

def made? : Call → Option Nat
  | glpk (.create p) | lpsolve (.create p) | lpsolve (.copy p _) => some p
  | _ => none

def deleted? : Call → Option Nat
  | glpk (.delete p) | lpsolve (.delete p) => some p
  | _ => none

variable {c : Call}

theorem made?_of_isLife_eq_false (h : c.isLife = false) : c.made? = none := by
  rcases c with c | c <;> cases c <;> first | rfl | cases h

theorem deleted?_of_isLife_eq_false (h : c.isLife = false) : c.deleted? = none := by
  rcases c with c | c <;> cases c <;> first | rfl | cases h

/-- What is deleted is named. -/
theorem mem_problems_of_deleted? {n : Nat} (h : c.deleted? = some n) : n ∈ c.problems := by
  rcases c with c | c <;> cases c <;> cases h <;> exact List.mem_singleton_self _

end Native.Call

/-- A call that neither makes nor deletes a problem leaves every number with a problem of the same library. -/
theorem Native.Store.kind?_apply {c : Call} (hmade : c.made? = none) (hdeleted : c.deleted? = none) (s : Store)
    (k : Nat) : ((s.apply c).problem? k).map Problem.kind? = (s.problem? k).map Problem.kind? ∧
      (s.apply c).problems.size = s.problems.size := by
  by_cases hlife : c.isLife = false
  · rw [problem?_apply_of_isLife_eq_false hlife, size_apply_of_isLife_eq_false hlife]
    refine ⟨?_, rfl⟩
    split
    · cases s.problem? k <;> simp
    · rfl
  · -- copying into a problem of GLPK is left
    obtain ⟨target, source, names, rfl⟩ : ∃ target source names, c = .glpk (.copy target source names) := by
      rcases c with c | c <;> cases c <;>
        first
          | exact absurd rfl hlife
          | exact absurd hmade (Option.some_ne_none _)
          | exact absurd hdeleted (Option.some_ne_none _)
          | exact ⟨_, _, _, rfl⟩
    have hcopy : s.apply (.glpk (.copy target source names)) = s ∨
        ∃ q, s.apply (.glpk (.copy target source names)) = s.modifyGlpk target fun _ => q := by
      unfold apply applyGlpk
      dsimp only
      cases s.glpk? source with
      | none => exact .inl rfl
      | some q => exact .inr ⟨q, rfl⟩
    rcases hcopy with hcopy | ⟨q, hcopy⟩
    · rw [hcopy]
      exact ⟨rfl, rfl⟩
    · rw [hcopy, modifyGlpk, problem?_modify]
      refine ⟨?_, size_modify _ _ _⟩
      split
      · next hk =>
        subst hk
        cases s.problem? k with
        | none => rfl
        | some p => cases p <;> rfl
      · rfl

namespace Model

variable {e : Engine}

theorem made?_deleteCall : (deleteCall e).made? = none := by
  unfold deleteCall
  cases e.kind <;> rfl

theorem deleted?_deleteCall : (deleteCall e).deleted? = some e.number := by
  unfold deleteCall
  cases e.kind <;> rfl

theorem problems_deleteCall : (deleteCall e).problems = [e.number] := by
  unfold deleteCall
  cases e.kind <;> rfl

end Model

namespace World

def made (w : World) : List Nat := w.calls.toList.filterMap (·.made?)

def deleted (w : World) : List Nat := w.calls.toList.filterMap (·.deleted?)

/-- The model `m` has not been freed, and `n` is the number of its problem in the library `kind`. -/
def HoldsProblem (w : World) (m : ModelId) (kind : EngineKind) (n : Nat) : Prop :=
  (w.model? m).map Model.owner = some (false, kind, some n)

/-- Some open model holds the problem. -/
def Held (w : World) (n : Nat) : Prop := ∃ m kind, w.HoldsProblem m kind n

variable {w w' : World}

theorem made_of_calls {cs : List Native.Call} (h : w'.calls = w.calls ++ cs.toArray) :
    w'.made = w.made ++ cs.filterMap (·.made?) := by
  simp [made, h]

theorem deleted_of_calls {cs : List Native.Call} (h : w'.calls = w.calls ++ cs.toArray) :
    w'.deleted = w.deleted ++ cs.filterMap (·.deleted?) := by
  simp [deleted, h]

theorem holdsProblem_of_model? {m : ModelId} {model : Model} {n : Nat} (hm : w.model? m = some model)
    (hf : model.freed = false) (hn : model.engine.problem = some n) :
    w.HoldsProblem m model.engine.kind n := by
  rw [HoldsProblem, hm, Option.map_some, Model.owner, hf, hn]

/-- A model holds no two problems. -/
theorem HoldsProblem.unique {m : ModelId} {kind kind' : EngineKind} {n n' : Nat} (h : w.HoldsProblem m kind n)
    (h' : w.HoldsProblem m kind' n') : n = n' := by
  have heq := h.symm.trans h'
  simp at heq
  exact heq.2

/-- Whether a function is refused at all depends on which functions have an allowance. -/
theorem grants_congr {function : String} (h : w'.allowance.map Prod.fst = w.allowance.map Prod.fst) :
    w'.Grants function ↔ w.Grants function := by
  -- only the functions listed matter, not how often each may still be called
  have hlookup (l : List (String × Nat)) : l.lookup function = none ↔ function ∉ l.map Prod.fst := by
    induction l with
    | nil => simp
    | cons e rest ih =>
      obtain ⟨f, k⟩ := e
      by_cases hf : function = f
      · simp [hf]
      · have hne : (function == f) = false := beq_eq_false_iff_ne.mpr hf
        simp [List.lookup_cons, hne, ih, hf]
  rw [Grants, Grants, hlookup, hlookup, h]

theorem made_afterFree {m : ModelId} {model : Model} : (Model.afterFree w m model).made = w.made := by
  rw [made_of_calls (Model.calls_afterFree ..)]
  simp [Model.made?_deleteCall]

theorem deleted_afterFree {m : ModelId} {model : Model} :
    (Model.afterFree w m model).deleted = w.deleted ++ [model.engine.number] := by
  rw [deleted_of_calls (Model.calls_afterFree ..)]
  simp [Model.deleted?_deleteCall]

/-- When a model has been freed, the others hold what they held. -/
theorem holdsProblem_afterFree {m k : ModelId} {model : Model} {kind : EngineKind} {n : Nat}
    (hm : w.model? m = some model) :
    (Model.afterFree w m model).HoldsProblem k kind n ↔ k ≠ m ∧ w.HoldsProblem k kind n := by
  show ((w.models.modify m _)[k]?).map Model.owner = _ ↔ _
  rw [Array.getElem?_modify]
  -- the freed model owns nothing any more
  by_cases hk : m = k
  · subst hk
    have hm : w.models[m]? = some model := hm
    simp [hm, Model.owner]
  · rw [if_neg hk]
    exact ⟨fun h => ⟨Ne.symm hk, h⟩, fun h => h.2⟩

/-- Nothing names the number 0 after further calls that do not. -/
theorem zero_notMem_problems_after {cs : List Native.Call} (hcalls : w'.calls = w.calls ++ cs.toArray)
    (hold : ∀ c ∈ w.calls.toList, 0 ∉ c.problems) (hcs : ∀ c ∈ cs, 0 ∉ c.problems) :
    ∀ c ∈ w'.calls.toList, 0 ∉ c.problems := by
  intro c hc
  rw [hcalls, Array.toList_append] at hc
  rcases List.mem_append.mp hc with hc | hc
  · exact hold c hc
  · exact hcs c hc

/-! ## §2 The invariant -/

/-- Every problem of a library that is there belongs to one open model, and none has been named after it was
deleted. The number 0 stands for the problem that GLPK did not make; if `whole`, it has always made one, and
nothing names that number. -/
structure Orderly (whole : Prop) (w : World) : Prop where
  deletes : w.Grants "glp_delete_prob" ∧ w.Grants "delete_lp"
  holds : ∀ {m model}, w.model? m = some model → model.freed = false → ∃ n, model.engine.problem = some n
  once : ∀ {m m' kind kind' n}, n ≠ 0 → w.HoldsProblem m kind n → w.HoldsProblem m' kind' n → m = m'
  stored : ∀ {m kind n}, w.HoldsProblem m kind n →
    (w.native.problem? n).map Native.Problem.kind? = some (some kind) ∨ n = 0 ∧ kind = .glpk
  alive : ∀ n, (n ∈ w.made ∧ n ∉ w.deleted) ↔ n ≠ 0 ∧ w.Held n
  counted : ∀ n, n ∈ w.made ∨ n ∈ w.deleted → n ≤ w.native.problems.size
  silent : w.calls.toList.Pairwise fun c c' => ∀ n, n ≠ 0 → c.deleted? = some n → n ∉ c'.problems
  numbered : whole → w.Grants "glp_create_prob" ∧ (∀ c ∈ w.calls.toList, 0 ∉ c.problems) ∧ ¬ w.Held 0

namespace Orderly

variable {whole : Prop}

/-- In the beginning nothing is made, and nothing is owed. -/
theorem initial : World.initial.Orderly whole where
  deletes := ⟨rfl, rfl⟩
  holds h := by simp [World.initial, World.model?] at h
  once _ h := by simp [World.initial, World.model?, HoldsProblem] at h
  stored h := by simp [World.initial, World.model?, HoldsProblem] at h
  alive n := by simp [World.initial, World.model?, HoldsProblem, Held, made]
  counted n h := by simp [World.initial, made, deleted] at h
  silent := by simp [World.initial]
  numbered _ := ⟨rfl, by simp [World.initial], by simp [World.initial, World.model?, HoldsProblem, Held]⟩

theorem holdsProblem (h : w.Orderly whole) {m : ModelId} (hm : w.Open m) : ∃ kind n, w.HoldsProblem m kind n := by
  obtain ⟨model, hmodel, hf⟩ := hm
  obtain ⟨n, hn⟩ := h.holds hmodel hf
  exact ⟨_, n, holdsProblem_of_model? hmodel hf hn⟩

/-- What is held has not been deleted. -/
theorem not_mem_deleted (h : w.Orderly whole) {n : Nat} (hn : n ≠ 0) (hheld : w.Held n) : n ∉ w.deleted :=
  ((h.alive n).mpr ⟨hn, hheld⟩).2

/-- What is held has been counted. -/
theorem le_size_of_held (h : w.Orderly whole) {n : Nat} (hheld : w.Held n) : n ≤ w.native.problems.size := by
  obtain ⟨m, kind, hm⟩ := hheld
  rcases h.stored hm with hstored | ⟨rfl, -⟩
  · obtain ⟨q, hq, -⟩ := Option.map_eq_some_iff.mp hstored
    exact Native.Store.le_size_of_problem?_eq_some hq
  · exact Nat.zero_le _

/-- More calls are silent about what has been deleted if they name what is held, or what is new. -/
theorem silent_after (h : w.Orderly whole) {cs : List Native.Call} (hcalls : w'.calls = w.calls ++ cs.toArray)
    (hcs : ∀ c ∈ cs, ∀ n ∈ c.problems, n ≠ 0 → w.Held n ∨ w.native.problems.size < n)
    (hpairs : cs.Pairwise fun c c' => ∀ n, n ≠ 0 → c.deleted? = some n → n ∉ c'.problems) :
    w'.calls.toList.Pairwise fun c c' => ∀ n, n ≠ 0 → c.deleted? = some n → n ∉ c'.problems := by
  rw [hcalls, Array.toList_append]
  refine List.pairwise_append.mpr ⟨h.silent, hpairs, fun c hc c' hc' n hn hdeleted hnamed => ?_⟩
  have hmem : n ∈ w.deleted := List.mem_filterMap.mpr ⟨c, hc, hdeleted⟩
  -- a later call names problems that are held, and a deleted one is not
  rcases hcs c' hc' n hnamed hn with hheld | hnew
  · exact h.not_mem_deleted hn hheld hmem
  · exact absurd (h.counted n (.inr hmem)) (Nat.not_le.mpr hnew)

/-! ## §3 What keeps the invariant -/

/-- Whatever works on the problems of open models keeps the invariant. -/
theorem of_keeps (h : w.Orderly whole) {models : ModelId → Prop} (hk : w.Keeps models w.Held w') :
    w'.Orderly whole := by
  obtain ⟨cs, hcalls, hcs⟩ := hk.calls
  have hholds (m kind n) : w'.HoldsProblem m kind n ↔ w.HoldsProblem m kind n := by
    rw [HoldsProblem, HoldsProblem, hk.owner]
  have hheld (n) : w'.Held n ↔ w.Held n := exists_congr fun m => exists_congr fun kind => hholds m kind n
  -- none of the calls makes or deletes a problem
  have hmade : w'.made = w.made := by
    have hnone : cs.filterMap (·.made?) = [] :=
      List.filterMap_eq_nil_iff.mpr fun c hc => Native.Call.made?_of_isLife_eq_false (hcs c hc).1
    rw [made_of_calls hcalls, hnone, List.append_nil]
  have hnone : ∀ c ∈ cs, c.deleted? = none := fun c hc => Native.Call.deleted?_of_isLife_eq_false (hcs c hc).1
  have hdeleted : w'.deleted = w.deleted := by
    rw [deleted_of_calls hcalls, List.filterMap_eq_nil_iff.mpr hnone, List.append_nil]
  exact
    { deletes := ⟨(grants_congr hk.functions).mpr h.deletes.1, (grants_congr hk.functions).mpr h.deletes.2⟩
      holds := by
        intro m model hm hf
        obtain ⟨old, hold, howner⟩ := Option.map_eq_some_iff.mp
          ((hk.owner m).symm.trans (congrArg (Option.map Model.owner) hm))
        obtain ⟨hfreed, -, hproblem⟩ : old.freed = model.freed ∧ old.engine.kind = model.engine.kind ∧
            old.engine.problem = model.engine.problem := by simpa [Model.owner] using howner
        obtain ⟨n, hn⟩ := h.holds hold (hfreed.trans hf)
        exact ⟨n, hproblem.symm.trans hn⟩
      once := fun hn h₁ h₂ => h.once hn ((hholds _ _ _).mp h₁) ((hholds _ _ _).mp h₂)
      stored := fun h₁ => by
        rw [hk.kind]
        exact h.stored ((hholds _ _ _).mp h₁)
      alive := fun n => by rw [hmade, hdeleted, hheld]; exact h.alive n
      counted := fun n hn => by
        rw [hmade, hdeleted] at hn
        rw [hk.problemCount]
        exact h.counted n hn
      silent := by
        refine h.silent_after hcalls (fun c hc n hn _ => .inl ((hcs c hc).2 n hn)) ?_
        exact List.pairwise_of_forall_mem_list fun c hc c' _ n _ hdel => by simp [hnone c hc] at hdel
      numbered := fun hwhole => by
        obtain ⟨hgrants, hcalls₀, hnot⟩ := h.numbered hwhole
        refine ⟨(grants_congr hk.functions).mpr hgrants, ?_, fun h₀ => hnot ((hheld 0).mp h₀)⟩
        exact zero_notMem_problems_after hcalls hcalls₀ fun c hc hzero => hnot ((hcs c hc).2 0 hzero) }

/-- Records and libraries do not matter. -/
instance : LoadClosed (Orderly whole) where
  writings {w l} h :=
    have hkeeps : w.Keeps (fun _ => True) w.Held { w with writings := l } := .of_same rfl rfl rfl rfl rfl
    h.of_keeps hkeeps
  library {w kind l} h := by
    cases kind <;>
      exact ⟨h.deletes, h.holds, h.once, h.stored, h.alive, h.counted, h.silent, h.numbered⟩

/-- Freeing an open model keeps the invariant. -/
theorem afterFree (h : w.Orderly whole) {m : ModelId} {model : Model} (hm : w.model? m = some model)
    (hf : model.freed = false) : (Model.afterFree w m model).Orderly whole := by
  obtain ⟨n, hn⟩ := h.holds hm hf
  have hholds := holdsProblem_of_model? hm hf hn
  have hnumber : model.engine.number = n := by simp [Engine.number, hn]
  have hnative : (Model.afterFree w m model).native = w.native.modify n fun _ => .deleted :=
    hnumber ▸ Model.native_afterFree w m model
  have hnamed : ∀ k ∈ (Model.deleteCall model.engine).problems, k = n := by
    simp [Model.problems_deleteCall, hnumber]
  -- nobody else has the problem, so its number is free to be deleted
  have hother {k kind} (hk : k ≠ m) (hn₀ : n ≠ 0) : ¬ w.HoldsProblem k kind n :=
    fun h' => hk (h.once hn₀ h' hholds)
  exact
    { deletes := h.deletes
      holds := by
        intro k model' hk hf'
        have hk' : (w.models.modify m _)[k]? = some model' := hk
        rw [Array.getElem?_modify] at hk'
        split at hk'
        · obtain ⟨old, -, rfl⟩ := Option.map_eq_some_iff.mp hk'
          cases hf'
        · exact h.holds hk' hf'
      once := fun hn₀ h₁ h₂ =>
        h.once hn₀ ((holdsProblem_afterFree hm).mp h₁).2 ((holdsProblem_afterFree hm).mp h₂).2
      stored := by
        intro k kind n' hk
        obtain ⟨hne, hk⟩ := (holdsProblem_afterFree hm).mp hk
        refine (h.stored hk).imp_left fun hstored => ?_
        have hn' : n' ≠ n := by
          rintro rfl
          refine hother hne (fun h₀ => ?_) hk
          subst h₀
          cases hstored
        rw [hnative, Native.Store.problem?_modify, if_neg hn', hstored]
      alive := by
        intro n'
        rw [made_afterFree, deleted_afterFree, hnumber, List.mem_append, List.mem_singleton, not_or, ← and_assoc,
          h.alive n']
        constructor
        · rintro ⟨⟨h₀, k, kind, hk⟩, hn'⟩
          refine ⟨h₀, k, kind, (holdsProblem_afterFree hm).mpr ⟨?_, hk⟩⟩
          rintro rfl
          exact hn' (hk.unique hholds)
        · rintro ⟨h₀, k, kind, hk⟩
          obtain ⟨hne, hk⟩ := (holdsProblem_afterFree hm).mp hk
          refine ⟨⟨h₀, k, kind, hk⟩, ?_⟩
          rintro rfl
          exact hother hne h₀ hk
      counted := by
        intro n' hn'
        rw [hnative, Native.Store.size_modify]
        rw [made_afterFree, deleted_afterFree, hnumber, List.mem_append, List.mem_singleton, ← or_assoc] at hn'
        rcases hn' with hn' | rfl
        · exact h.counted n' hn'
        · exact h.le_size_of_held ⟨m, _, hholds⟩
      silent := by
        refine h.silent_after (Model.calls_afterFree ..) (fun c hc k hk _ => .inl ?_) (List.pairwise_singleton _ _)
        obtain rfl := List.mem_singleton.mp hc
        exact hnamed k hk ▸ ⟨m, _, hholds⟩
      numbered := by
        intro hwhole
        obtain ⟨hgrants, hcalls₀, hnot⟩ := h.numbered hwhole
        refine ⟨hgrants, zero_notMem_problems_after (Model.calls_afterFree ..) hcalls₀ fun c hc hzero => ?_, ?_⟩
        · obtain rfl := List.mem_singleton.mp hc
          exact hnot (hnamed 0 hzero ▸ ⟨m, _, hholds⟩)
        · rintro ⟨k, kind, hk⟩
          exact hnot ⟨k, kind, ((holdsProblem_afterFree hm).mp hk).2⟩ }

/-- A problem can always be deleted. -/
theorem grants_deleteCall (h : w.Orderly whole) (e : Engine) : w.Grants (Model.deleteCall e).function := by
  unfold Model.deleteCall
  cases e.kind
  · exact h.deletes.1
  · exact h.deletes.2

/-- Freeing a model keeps order. -/
theorem free (m : ModelId) : Preserves (Orderly whole) (Model.free m) := by
  intro w h
  rcases w.closed_or_open m with hclosed | ⟨model, hm, hf⟩
  · rw [Model.on_free_of_closed hclosed]
    exact h
  · obtain ⟨n, hn⟩ := h.holds hm hf
    rw [Model.on_free (h.grants_deleteCall _) hm hf hn]
    exact h.afterFree hm hf

end Orderly

/-! ## §4 New problems -/

/-- From `w` to `w'`, the library `kind` made the problem `n`, which no model holds yet; or GLPK made none, and
`n` is 0. Besides, the problems that models hold were named. -/
structure Acquires (w : World) (kind : EngineKind) (n : Nat) (w' : World) : Prop where
  functions : w'.allowance.map Prod.fst = w.allowance.map Prod.fst
  models : w'.models = w.models
  calls : ∃ cs : List Native.Call, w'.calls = w.calls ++ cs.toArray ∧
    cs.filterMap (·.made?) = (if n = 0 then [] else [n]) ∧
    ∀ c ∈ cs, c.deleted? = none ∧ ∀ k ∈ c.problems, k = n ∨ w.Held k
  number : n = w.native.next ∨ n = 0 ∧ kind = .glpk ∧ ¬ w.Grants "glp_create_prob"
  kinds : ∀ k, (w'.native.problem? k).map Native.Problem.kind? =
    if k = n ∧ n ≠ 0 then some (some kind) else (w.native.problem? k).map Native.Problem.kind?
  size : w'.native.problems.size = if n = 0 then w.native.problems.size else w.native.problems.size + 1

namespace Acquires

variable {kind : EngineKind} {n : Nat}

/-- The call that makes the problem. -/
theorem of_call {c : Native.Call} {q : Native.Problem} {allowance : List (String × Nat)}
    (hspend : spend c.function w.allowance = some allowance) (hmade : c.made? = some w.native.next)
    (hproblems : ∀ k ∈ c.problems, k = w.native.next ∨ w.Held k)
    (hnative : w.native.apply c = { w.native with problems := w.native.problems.push q })
    (hkind : q.kind? = some kind) :
    w.Acquires kind w.native.next { w.after c with allowance := allowance } where
  functions := Keeps.functions_of_spend hspend
  models := rfl
  calls := by
    have hdeleted : c.deleted? = none := by
      rcases c with c | c <;> cases c <;> first | rfl | exact absurd hmade (Option.some_ne_none _).symm
    refine ⟨[c], by simp [World.after], by simp [hmade, Native.Store.next], fun c' hc' => ?_⟩
    rw [List.mem_singleton.mp hc']
    exact ⟨hdeleted, hproblems⟩
  number := .inl rfl
  kinds k := by
    show ((w.native.apply c).problem? k).map _ = _
    rw [hnative, Native.Store.problem?_push]
    -- only the new number has another kind than before
    by_cases hk : k = w.native.next
    · rw [if_pos hk, if_pos ⟨hk, Nat.succ_ne_zero _⟩, Option.map_some, hkind]
    · rw [if_neg hk, if_neg fun h => hk h.1]
  size := by
    show (w.native.apply c).problems.size = _
    rw [hnative, if_neg (show w.native.next ≠ 0 from Nat.succ_ne_zero _)]
    exact Array.size_push q

/-- GLPK makes no problem. -/
theorem none (h : ¬ w.Grants "glp_create_prob") : w.Acquires .glpk 0 w where
  functions := rfl
  models := rfl
  calls := ⟨[], by simp, by simp, by simp⟩
  number := .inr ⟨rfl, rfl, h⟩
  kinds k := by rw [if_neg fun h => h.2 rfl]
  size := by rw [if_pos rfl]

/-- Further calls about the new problem, whether they are carried out or not. -/
theorem call {c : Native.Call} (hmade : c.made? = .none) (hdeleted : c.deleted? = .none)
    (hproblems : ∀ k ∈ c.problems, k = n ∨ w.Held k) : Preserves (w.Acquires kind n) (Action.call c) := by
  intro w' h
  rw [on_call]
  cases hspend : spend c.function w'.allowance with
  -- the call was refused and left no trace
  | none => exact h
  | some allowance =>
    obtain ⟨cs, hcalls, hcs, hnames⟩ := h.calls
    exact
      { functions := (Keeps.functions_of_spend hspend).trans h.functions
        models := h.models
        calls := by
          refine ⟨cs ++ [c], by simp [World.after, hcalls], by simp [hcs, hmade], fun c' hc' => ?_⟩
          -- the earlier calls, and this one
          rcases List.mem_append.mp hc' with hc' | hc'
          · exact hnames c' hc'
          · rw [List.mem_singleton.mp hc']
            exact ⟨hdeleted, hproblems⟩
        number := h.number
        kinds := fun k => ((Native.Store.kind?_apply hmade hdeleted _ k).1).trans (h.kinds k)
        size := ((Native.Store.kind?_apply hmade hdeleted w'.native 0).2).trans h.size }

theorem tell_glpk {c : Glpk.Call} (hmade : (Native.Call.glpk c).made? = .none)
    (hdeleted : (Native.Call.glpk c).deleted? = .none)
    (hproblems : ∀ k ∈ c.problems, k = n ∨ w.Held k) : Preserves (w.Acquires kind n) (Glpk.tell c) :=
  Preserves.bind (call hmade hdeleted hproblems) fun _ => Preserves.pure _

theorem silence : Preserves (w.Acquires kind n) (LpSolve.silence n) := by
  have tell {c : LpSolve.Call} (hmade : (Native.Call.lpsolve c).made? = .none)
      (hdeleted : (Native.Call.lpsolve c).deleted? = .none) (hproblems : c.problems = [n]) :
      Preserves (w.Acquires kind n) (LpSolve.tell c) :=
    Preserves.bind (call hmade hdeleted fun k hk => .inl (List.mem_singleton.mp (hproblems ▸ hk))) fun _ =>
      Preserves.pure _
  exact Preserves.bind (tell rfl rfl rfl) fun _ => tell rfl rfl rfl

end Acquires

/-- How the making of a problem ends: refused without a trace, or there is a new problem. -/
def Acquisition (w : World) (kind : EngineKind) (outcome : Except Fault Engine × World) : Prop :=
  (∃ fault, outcome = (.error fault, w)) ∨
    ∃ n w', outcome = (.ok ⟨kind, some n, none⟩, w') ∧ w.Acquires kind n w'

/-- GLPK always makes the problem that it is asked for. -/
theorem on_glpkCreate (w : World) : ∃ n w', Glpk.create.on w = (.ok n, w') ∧ w.Acquires .glpk n w' := by
  unfold Glpk.create
  rw [on_bind_of_ok (on_get w)]
  dsimp only
  rw [on_bind, on_call]
  cases hspend : spend (Native.Call.glpk (.create w.native.next)).function w.allowance with
  -- nothing allocated: the null pointer is what GLPK gives
  | none =>
    refine ⟨0, w, rfl, .none fun hgrants => ?_⟩
    have hgranted := spend_of_lookup_eq_none hgrants
    exact Option.some_ne_none _ (hgranted.symm.trans hspend)
  | some allowance =>
    have hnames : ∀ k ∈ [w.native.next], k = w.native.next ∨ w.Held k :=
      fun k hk => .inl (List.mem_singleton.mp hk)
    exact ⟨_, _, rfl, .of_call hspend rfl hnames rfl rfl⟩

/-- Keeping a new problem from printing always comes to an end. -/
theorem Acquires.silenced {kind : EngineKind} {n : Nat} {w₁ : World} (h : w.Acquires kind n w₁) :
    ∃ w', (LpSolve.silence n).on w₁ = (.ok (), w') ∧ w.Acquires kind n w' := by
  have hkept := silence w₁ h
  -- a call that is refused is passed over, so neither step can raise
  have tell (c : LpSolve.Call) (u : World) : ∃ u', (LpSolve.tell c).on u = (.ok (), u') := by
    unfold LpSolve.tell
    rw [on_bind, on_call]
    cases spend (Native.Call.lpsolve c).function u.allowance <;> exact ⟨_, rfl⟩
  obtain ⟨u, hu⟩ := tell (.setOutput n "") w₁
  obtain ⟨u', hu'⟩ := tell (.setVerbosity n 0) u
  have hon : (LpSolve.silence n).on w₁ = (.ok (), u') := by
    unfold LpSolve.silence
    rw [on_bind_of_ok hu, hu']
  rw [hon] at hkept
  exact ⟨u', hon, hkept⟩

/-- Making a problem. -/
theorem acquisition_create (kind : EngineKind) (w : World) : w.Acquisition kind ((Engine.create kind).on w) := by
  cases kind with
  | glpk =>
    obtain ⟨n, w', hon, h⟩ := on_glpkCreate w
    exact .inr ⟨n, w', by unfold Engine.create; rw [on_bind_of_ok hon]; rfl, h⟩
  | lpsolve =>
    unfold Engine.create LpSolve.create
    rw [on_bind, on_bind_of_ok (on_get w)]
    dsimp only
    rw [on_bind, on_call]
    cases hspend : spend (Native.Call.lpsolve (.create w.native.next)).function w.allowance with
    -- lp_solve answers the null pointer, which raises
    | none => exact .inl ⟨_, rfl⟩
    | some allowance =>
      have hnames : ∀ k ∈ [w.native.next], k = w.native.next ∨ w.Held k :=
        fun k hk => .inl (List.mem_singleton.mp hk)
      have hmade : w.Acquires .lpsolve w.native.next _ := .of_call hspend rfl hnames rfl rfl
      -- the new problem is silenced before anyone sees it
      obtain ⟨w', hon, h⟩ := hmade.silenced
      refine .inr ⟨w.native.next, w', ?_, h⟩
      dsimp only
      rw [if_pos rfl, on_bind_of_ok hon]
      rfl

private theorem eq_or_held {n p k : Nat} (hp : w.Held p) (hk : k ∈ [n, p]) : k = n ∨ w.Held k := by
  rcases List.mem_cons.mp hk with rfl | hk
  · exact .inl rfl
  · exact .inr (List.mem_singleton.mp hk ▸ hp)

/-- Copying the problem of a model. -/
theorem Orderly.acquisition_copy {whole : Prop} (h : w.Orderly whole) {m : ModelId} {e : Engine} {p : Nat}
    (hp : e.problem = some p) (hheld : w.HoldsProblem m e.kind p) :
    w.Acquisition e.kind (e.copy.on w) := by
  unfold Engine.copy
  rw [hp]
  cases hk : e.kind with
  | glpk =>
    obtain ⟨n, w₁, hcreate, hacquires⟩ := on_glpkCreate w
    have hcopied := Acquires.tell_glpk (c := .copy n p 1) rfl rfl (fun k => eq_or_held ⟨m, _, hheld⟩) w₁ hacquires
    refine .inr ⟨n, _, ?_, hcopied⟩
    dsimp only
    unfold Glpk.copy
    rw [on_bind, on_bind_of_ok hcreate]
    unfold Glpk.tell
    rw [on_bind, on_bind, on_call]
    cases spend (Native.Call.glpk (.copy n p 1)).function w₁.allowance <;> rfl
  | lpsolve =>
    unfold LpSolve.copy
    rw [on_bind, on_bind_of_ok (on_get w)]
    dsimp only
    rw [on_bind, on_call]
    cases hspend : spend (Native.Call.lpsolve (.copy w.native.next p)).function w.allowance with
    | none => exact .inl ⟨_, rfl⟩
    | some allowance =>
      -- what stands at the number of a held problem is there to be copied
      obtain ⟨q, hq⟩ : ∃ q, w.native.lpsolve? p = some q := by
        rw [hk] at hheld
        rcases h.stored hheld with hstored | ⟨-, hglpk⟩
        · obtain ⟨q, hq, hkind⟩ := Option.map_eq_some_iff.mp hstored
          obtain ⟨q', rfl⟩ := Native.Problem.eq_lpsolve_of_kind? hkind
          exact ⟨q', by rw [Native.Store.lpsolve?, hq]⟩
        · cases hglpk
      have hmade : w.Acquires .lpsolve w.native.next _ :=
        .of_call hspend rfl (fun k => eq_or_held ⟨m, _, hheld⟩) (Engine.apply_lpsolveCopy hq _) rfl
      obtain ⟨w', hon, hacquires⟩ := hmade.silenced
      refine .inr ⟨w.native.next, w', ?_, hacquires⟩
      dsimp only
      rw [if_pos rfl, on_bind_of_ok hon]
      rfl

namespace Acquires

variable {kind : EngineKind} {n : Nat} {model : Model}

/-- A problem that was made has a new number. -/
theorem size_lt (ha : w.Acquires kind n w') (hn : n ≠ 0) : w.native.problems.size < n := by
  rcases ha.number with rfl | ⟨rfl, -⟩
  · exact Nat.lt_succ_self _
  · exact absurd rfl hn

theorem made_eq (ha : w.Acquires kind n w') : w'.made = w.made ++ if n = 0 then [] else [n] := by
  obtain ⟨cs, hcalls, hmade, -⟩ := ha.calls
  rw [made_of_calls hcalls, hmade]

theorem deleted_eq (ha : w.Acquires kind n w') : w'.deleted = w.deleted := by
  obtain ⟨cs, hcalls, -, hnames⟩ := ha.calls
  rw [deleted_of_calls hcalls, List.filterMap_eq_nil_iff.mpr fun c hc => (hnames c hc).1, List.append_nil]

/-- After an acquisition, the problem that was acquired is the only one that has been made in addition. -/
theorem mem_made (ha : w.Acquires kind n w') (k : Nat) : k ∈ w'.made ↔ k ∈ w.made ∨ k ≠ 0 ∧ k = n := by
  rw [ha.made_eq, List.mem_append]
  refine or_congr_right ?_
  split
  · next hn => simp [hn]
  · next hn =>
    rw [List.mem_singleton]
    exact ⟨fun hk => ⟨hk ▸ hn, hk⟩, fun hk => hk.2⟩

/-- Besides the problems that were held, the model added holds the new one. -/
theorem holdsProblem_push (ha : w.Acquires kind n w') (howner : model.owner = (false, kind, some n)) {m : ModelId}
    {kind' : EngineKind} {k : Nat} : ({ w' with models := w'.models.push model } : World).HoldsProblem m kind' k ↔
      w.HoldsProblem m kind' k ∨ m = w.models.size ∧ kind' = kind ∧ k = n := by
  show ((w'.models.push model)[m]?).map Model.owner = _ ↔ (w.models[m]?).map Model.owner = _ ∨ _
  rw [ha.models, Array.getElem?_push]
  -- the last model is the new one
  by_cases hm : m = w.models.size
  · subst hm
    simp [howner, eq_comm]
  · simp [hm]

/-- With the model that was made for it, a problem that was acquired is held. -/
theorem held_push (ha : w.Acquires kind n w') (howner : model.owner = (false, kind, some n)) {k : Nat} :
    ({ w' with models := w'.models.push model } : World).Held k ↔ w.Held k ∨ k = n := by
  constructor
  · rintro ⟨m, kind', hm⟩
    rcases (ha.holdsProblem_push howner).mp hm with hm | ⟨-, -, rfl⟩
    · exact .inl ⟨m, kind', hm⟩
    · exact .inr rfl
  · rintro (⟨m, kind', hm⟩ | rfl)
    · exact ⟨m, kind', (ha.holdsProblem_push howner).mpr (.inl hm)⟩
    · exact ⟨_, _, (ha.holdsProblem_push howner).mpr (.inr ⟨rfl, rfl, rfl⟩)⟩

end Acquires

/-- A new problem gets an open model. -/
theorem Orderly.add {whole : Prop} (h : w.Orderly whole) {kind : EngineKind} {n : Nat}
    (ha : w.Acquires kind n w') (model : Model) (howner : model.owner = (false, kind, some n)) :
    ({ w' with models := w'.models.push model } : World).Orderly whole ∧
      ({ w' with models := w'.models.push model } : World).HoldsProblem w.models.size kind n := by
  obtain ⟨cs, hcalls, -, hnames⟩ := ha.calls
  -- a number that was held stays apart from the new one
  have hfresh {m kind' k} (hm : w.HoldsProblem m kind' k) (hn : n ≠ 0) : k ≠ n :=
    Nat.ne_of_lt (Nat.lt_of_le_of_lt (h.le_size_of_held ⟨m, kind', hm⟩) (ha.size_lt hn))
  refine ⟨?_, (ha.holdsProblem_push howner).mpr (.inr ⟨rfl, rfl, rfl⟩)⟩
  exact
    { deletes := ⟨(grants_congr ha.functions).mpr h.deletes.1, (grants_congr ha.functions).mpr h.deletes.2⟩
      holds := by
        intro m x hm hf
        have hm : (w'.models.push model)[m]? = some x := hm
        rw [ha.models, Array.getElem?_push] at hm
        split at hm
        · cases hm
          exact ⟨n, (Prod.mk.inj (Prod.mk.inj howner).2).2⟩
        · exact h.holds hm hf
      once := by
        intro m m' kind₁ kind₂ k hk hm hm'
        rcases (ha.holdsProblem_push howner).mp hm with hm | ⟨rfl, -, rfl⟩ <;>
          rcases (ha.holdsProblem_push howner).mp hm' with hm' | ⟨rfl, -, hk'⟩
        · exact h.once hk hm hm'
        · exact absurd hk' (hfresh hm (hk' ▸ hk))
        · exact absurd rfl (hfresh hm' hk)
        · rfl
      stored := by
        intro m kind' k hm
        show (w'.native.problem? k).map _ = _ ∨ _
        rw [ha.kinds]
        rcases (ha.holdsProblem_push howner).mp hm with hm | ⟨-, rfl, rfl⟩
        · rw [if_neg fun hk => hfresh hm hk.2 hk.1]
          exact h.stored hm
        · rcases ha.number with hk | ⟨rfl, rfl, -⟩
          · exact .inl (if_pos ⟨rfl, hk ▸ Nat.succ_ne_zero _⟩)
          · exact .inr ⟨rfl, rfl⟩
      alive := by
        intro k
        have hnew (hk : k ≠ 0 ∧ k = n) : k ∉ w.deleted := fun hmem =>
          Nat.not_le.mpr (ha.size_lt (hk.2 ▸ hk.1)) (hk.2 ▸ h.counted k (.inr hmem))
        show (k ∈ w'.made ∧ k ∉ w'.deleted) ↔ _
        rw [ha.mem_made, ha.deleted_eq, ha.held_push howner, or_and_right, and_iff_left_of_imp hnew, h.alive k,
          and_or_left]
      counted := by
        intro k hk
        show k ≤ w'.native.problems.size
        have hk : k ∈ w'.made ∨ k ∈ w'.deleted := hk
        rw [ha.mem_made, ha.deleted_eq, or_right_comm] at hk
        rw [ha.size]
        rcases hk with hk | ⟨h₀, rfl⟩
        · have hle := h.counted k hk
          split
          · exact hle
          · exact Nat.le_succ_of_le hle
        · rw [if_neg h₀]
          rcases ha.number with rfl | ⟨rfl, -⟩
          · exact Nat.le_refl _
          · exact absurd rfl h₀
      silent := by
        refine h.silent_after hcalls (fun c hc k hk hk₀ => ?_) ?_
        · rcases (hnames c hc).2 k hk with rfl | hk
          · exact .inr (ha.size_lt hk₀)
          · exact .inl hk
        · exact List.pairwise_of_forall_mem_list fun c hc c' _ k _ hdel => by simp [(hnames c hc).1] at hdel
      numbered := by
        intro hwhole
        obtain ⟨hgrants, hcalls₀, hnot⟩ := h.numbered hwhole
        have hn : n ≠ 0 := by
          rcases ha.number with rfl | ⟨-, -, hrefuses⟩
          · exact Nat.succ_ne_zero _
          · exact absurd hgrants hrefuses
        have hnone (h₀ : w.Held 0 ∨ 0 = n) : False := h₀.elim hnot fun h₀ => hn h₀.symm
        refine ⟨(grants_congr ha.functions).mpr hgrants, ?_, fun h₀ => hnone ((ha.held_push howner).mp h₀)⟩
        exact zero_notMem_problems_after hcalls hcalls₀ fun c hc hzero => hnone ((hnames c hc).2 0 hzero).symm }

/-! ## §5 Operations -/

/-- Every model and every held problem stands for itself. -/
def own (w : World) : Pairing := .diagonal (fun _ => True) w.Held

namespace Orderly

variable {whole : Prop} {α β : Type}

/-- An orderly state is like itself, seen through the problems that it owns. -/
theorem alike_self (h : w.Orderly whole) : w.Alike w.own w where
  clock := rfl
  contexts := rfl
  script := rfl
  surroundings := rfl
  allowance := rfl
  registry := rfl
  models := by
    -- an open model is paired with itself through the problem it holds
    rintro m _ ⟨rfl, -⟩
    cases hm : w.model? m with
    | none => exact .none
    | some model =>
      refine .some ⟨fun hf => ⟨rfl, ⟨rfl, ?_⟩, rfl⟩, rfl, rfl, rfl, ?_, rfl, rfl, rfl, rfl⟩
      · obtain ⟨n, hn⟩ := h.holds hm hf
        have hnumber : model.engine.number = n := by simp [Engine.number, hn]
        exact hnumber ▸ ⟨m, _, holdsProblem_of_model? hm hf hn⟩
      · exact List.forall₂_same.mpr fun _ _ => Variable.Alike.self
  problems := by
    rintro n _ ⟨rfl, -⟩
    rfl

/-- An action that is alike to itself works on the problems of open models. -/
theorem keeps (h : w.Orderly whole) {Q : α → α → Prop} {a : Action α}
    (ha : Action.Alike (Twins w.own w w) Q a a) : w.Keeps (fun _ => True) w.Held (a.on w).2 :=
  ((ha w w (Twins.start h.alike_self)).2.left).mono (fun _ _ => trivial) fun _ ⟨_, _, hn⟩ => hn

private theorem same (m : ModelId) : w.own.models m m := ⟨rfl, trivial⟩

/-- Naming a problem that is held works on that problem. -/
theorem keeps_naming (h : w.Orderly whole) {m : ModelId} {e : Engine} (hm : w.HoldsProblem m e.kind e.number)
    (name : String) (d : Direction) :
    w.Keeps (fun _ => True) w.Held ((do
      e.checkName name
      e.setName name
      e.setDirection d : Action Unit).on w).2 := by
  have he : e.Alike w.own e := ⟨rfl, ⟨rfl, m, _, hm⟩, rfl⟩
  exact h.keeps (Alike.step (he.checkName name) fun _ => Alike.step (he.setName name) fun _ => he.setDirection d)

/-- Making a model once its settings are known. -/
private theorem make (name : String) (d : Direction) (draft : ModelDraft) (kind : EngineKind) :
    Preserves (Orderly whole) (Model.make name d draft kind) := by
  intro w h
  unfold Model.make
  -- without a problem there is no model yet, so there is nothing to free
  rcases acquisition_create kind w with ⟨fault, hcreate⟩ | ⟨n, w₁, hcreate, hacquires⟩
  · rw [on_bind_of_error hcreate]
    exact h
  rw [on_bind_of_ok hcreate]
  obtain ⟨h₂, hholds⟩ :=
    h.add hacquires (Model.attached ⟨kind, some n, none⟩ draft.printer draft.parameters) rfl
  rw [← hacquires.models] at hholds
  rw [on_bind_of_ok (Model.on_add _ w₁)]
  have hnaming := h₂.of_keeps (h₂.keeps_naming (e := ⟨kind, some n, none⟩) hholds name d)
  refine Preserves.bind_on (fun _ => ?_) (Preserves.recovering_on (fun _ => ?_) hnaming)
  · exact Preserves.bind (reads_model _) fun _ => Preserves.bind (reads_debug _ _) fun _ => Preserves.pure _
  · exact Preserves.bind (free _) fun _ => Preserves.fail _

/-- However the making of a model ends. -/
theorem create (name : String) (direction : Datum) (options : List ModelOption) :
    Preserves (Orderly whole) (Model.create name direction options) := by
  unfold Model.create
  refine Preserves.bind (Preserves.lift _) fun d => ?_
  refine Preserves.bind (ModelDraft.loads_applyAll _ options) fun draft => ?_
  cases draft.engine with
  | some kind => exact make name d draft kind
  | none => exact Preserves.bind loads_selectDefault fun kind => make name d draft kind

/-- However the copying of a model ends. -/
theorem clone (m : ModelId) : Preserves (Orderly whole) (Model.clone m) := by
  intro w h
  unfold Model.clone
  rcases on_openModel_cases m w with ⟨model, hm, hf, hon⟩ | hon
  · rw [on_bind_of_ok hon]
    cases hp : model.parameters.copy with
    -- the parameters are copied first, and nothing has been made yet
    | error fault => exact h
    | ok parameters =>
      rw [on_bind_of_ok (on_lift _ w)]
      obtain ⟨p, hproblem⟩ := h.holds hm hf
      rcases h.acquisition_copy hproblem (holdsProblem_of_model? hm hf hproblem) with
        ⟨fault, hcopy⟩ | ⟨n, w₁, hcopy, hacquires⟩
      · rw [on_bind_of_error hcopy]
        exact h
      · rw [on_bind_of_ok hcopy]
        exact (h.add hacquires {
          model with
          engine := ⟨model.engine.kind, some n, none⟩
          parameters := parameters
          vars := (List.range model.kinds.length).map fun i => ⟨w₁.models.size, Int.ofNat i⟩
          revision := 0 } (by rw [Model.owner, hf])).1
  · rw [on_bind_of_error hon]
    exact h

/-- What neither makes nor frees a model works on the problems of open models. -/
theorem keeps_operation (h : w.Orderly whole) {o : Operation} (hlife : o.isLife = false) :
    w.Keeps (fun _ => True) w.Held (o.run.on w).2 := by
  have hmatches : o.Matches w.own o := Operation.Matches.self fun _ _ _ ho => by
    subst ho
    cases hlife
  have hkept := h.keeps (hmatches.alike hlife)
  rwa [Operation.on_respond_snd] at hkept

/-- Whatever a caller does, and however it ends. -/
theorem operation (o : Operation) : Preserves (Orderly whole) o.run := by
  cases hlife : o.isLife with
  | true =>
    cases o with
    | create name direction options => exact Preserves.map _ (create name direction options)
    | clone m => exact Preserves.map _ (clone m)
    | free m => exact Preserves.map _ (free m)
    -- the three operations that make or delete a problem; all others keep what is held
    | _ => cases hlife
  | false => exact fun w h => h.of_keeps (h.keeps_operation hlife)

end Orderly

end World

/-! ## §6 Runs -/

/-- What a caller may undertake: an operation, a model made or a problem solved from arrays, and a block at whose
end a model is freed, which runs operations until one fails. Besides, functions of the libraries may begin or
cease to refuse. -/
inductive Undertaking where
  | perform (o : Operation)
  | fromArrays (a : ProblemArrays) (name : String) (direction : Datum) (options : List ModelOption)
  | solveArrays (a : ProblemArrays) (direction : Datum) (options : List ModelOption)
  | within (m : ModelId) (os : List Operation)
  | limit (allowance : List (String × Nat))

def Operation.runAll : List Operation → Action Unit
  | [] => pure ()
  | o :: rest => do
    let _ ← o.run
    runAll rest

namespace Undertaking

/-- Do what is undertaken and forget the answer. -/
def run : Undertaking → Action Unit
  | perform o => (fun _ => ()) <$> o.run
  | fromArrays a name direction options => (fun _ => ()) <$> Model.ofArrays a name direction options
  | solveArrays a direction options => (fun _ => ()) <$> Model.solveArrays a direction options
  | within m os => Model.freeingAfter m (Operation.runAll os)
  | limit allowance => modify fun w => { w with allowance := allowance }

/-- A function never comes to refuse through this. -/
def Spares (function : String) : Undertaking → Prop
  | limit allowance => allowance.lookup function = none
  | _ => True

instance (function : String) : (u : Undertaking) → Decidable (u.Spares function)
  | limit allowance => inferInstanceAs (Decidable (allowance.lookup function = none))
  | perform _ | fromArrays .. | solveArrays .. | within .. => inferInstanceAs (Decidable True)

end Undertaking

namespace World

def undertake (w : World) (us : List Undertaking) : World := us.foldl (fun w u => (u.run.on w).2) w

end World

/-- What leaves the same states as an operation keeps what the operation keeps. -/
private theorem preserves_of_operation {α : Type} {P : World → Prop} {a : Action α} {o : Operation}
    {f : α → Answer} (h : Preserves P o.run) (ho : o.run = f <$> a) : Preserves P a := by
  intro w hw
  have hrun := h w hw
  rwa [ho, on_map] at hrun

/-- A property of states that every operation on models keeps that neither makes nor frees one. -/
class WorkClosed (P : World → Prop) : Prop where
  work : ∀ o : Operation, o.isLife = false → Preserves P o.run

namespace WorkClosed

variable {P : World → Prop} [WorkClosed P]

theorem addArrayColumns (m : ModelId) (columns : List (Bool × Float × Float × Float)) :
    Preserves P (Model.addArrayColumns m columns) := by
  induction columns with
  | nil => exact Preserves.pure _
  | cons column rest ih =>
    obtain ⟨integer, c, l, u⟩ := column
    refine Preserves.bind (preserves_of_operation (work (.addVariable m "" _ _ _ _) rfl) rfl) fun v => ?_
    exact Preserves.bind ih fun _ => Preserves.pure _

/-- Adding rows from arrays keeps what adding one constraint keeps. -/
theorem addArrayRows (m : ModelId) (matrix : Compressed) (vars : List Variable) (i : Nat)
    (rows : List (Float × Float)) : Preserves P (Model.addArrayRows m matrix vars i rows) := by
  -- row by row, each an `addConstraint` of its own
  induction rows generalizing i with
  | nil => exact Preserves.pure _
  | cons row rest ih =>
    obtain ⟨l, u⟩ := row
    refine Preserves.bind (Preserves.lift _) fun arguments => ?_
    exact Preserves.bind (preserves_of_operation (work (.addConstraint m _ _ arguments _) rfl) rfl) fun _ =>
      ih (i + 1)

/-- What is added to a model that is made from arrays. -/
theorem addArrays (m : ModelId) (data : ProblemData) : Preserves P (do
    let vars ← Model.addArrayColumns m data.columns
    Model.addArrayRows m data.matrix vars 0 data.rows) :=
  Preserves.bind (addArrayColumns m _) fun vars => addArrayRows m _ vars 0 _

/-- Solving a model and reading the solution. -/
theorem solution (m : ModelId) : Preserves P (do
    let r ← Model.solve m none
    r.solution) := by
  refine Preserves.bind (preserves_of_operation (work (.solve m none) rfl) rfl) fun r => ?_
  intro w h
  -- the solution is read as an inquiry reads it, without turning it into an answer
  have hasked : P (w.next (.inquire (.solution r))) := work (.inquire (.solution r)) rfl w h
  rwa [← Operation.on_respond_snd, Operation.respond, Inquiry.reply, on_map, on_map] at hasked

end WorkClosed

/-- A property of states that every operation keeps. -/
class OperationClosed (P : World → Prop) : Prop where
  operation : ∀ o : Operation, Preserves P o.run

namespace OperationClosed

variable {P : World → Prop} [OperationClosed P]

instance : WorkClosed P := ⟨fun o _ => operation o⟩

theorem runAll (os : List Operation) : Preserves P (Operation.runAll os) := by
  induction os with
  | nil => exact Preserves.pure _
  | cons o rest ih => exact Preserves.bind (operation o) fun _ => ih

theorem free (m : ModelId) : Preserves P (Model.free m) := preserves_of_operation (operation (.free m)) rfl

/-- However the making of a model from arrays ends. -/
theorem ofArrays (a : ProblemArrays) (name : String) (direction : Datum) (options : List ModelOption) :
    Preserves P (Model.ofArrays a name direction options) := by
  unfold Model.ofArrays
  refine Preserves.bind (Preserves.lift _) fun data => ?_
  refine Preserves.bind (preserves_of_operation (operation (.create name direction options)) rfl) fun m => ?_
  exact Preserves.bind (Preserves.recovering (WorkClosed.addArrays m data) fun fault =>
    Preserves.bind (free m) fun _ => Preserves.fail _) fun _ => Preserves.pure _

/-- However the solving of a problem that is given as arrays ends. -/
theorem solveArrays (a : ProblemArrays) (direction : Datum) (options : List ModelOption) :
    Preserves P (Model.solveArrays a direction options) := by
  unfold Model.solveArrays
  exact Preserves.bind (ofArrays a "" direction options) fun m =>
    Preserves.ensuring (WorkClosed.solution m) (free m)

/-- What operations keep, everything undertaken keeps, if new limits do. -/
theorem undertaking (u : Undertaking)
    (hlimit : ∀ allowance, u = .limit allowance → ∀ w : World, P w → P { w with allowance := allowance }) :
    Preserves P u.run := by
  cases u with
  | perform o => exact Preserves.map _ (operation o)
  | fromArrays a name direction options => exact Preserves.map _ (ofArrays a name direction options)
  | solveArrays a direction options => exact Preserves.map _ (solveArrays a direction options)
  -- the model is freed on leaving, also when an operation raised
  | within m os => exact Preserves.ensuring (runAll os) (free m)
  | limit allowance => exact Preserves.change (hlimit allowance rfl)

/-- **Every run** keeps what all operations and its limits keep. -/
theorem undertake {us : List Undertaking} {w : World} (h : P w)
    (hlimits : ∀ allowance, .limit allowance ∈ us → ∀ w : World, P w → P { w with allowance := allowance }) :
    P (w.undertake us) := by
  induction us generalizing w with
  | nil => exact h
  -- one undertaking at a time; a raised fault does not stop the later ones
  | cons u rest ih =>
    have hfirst : P (u.run.on w).2 :=
      undertaking u (fun allowance hu => hlimits allowance (hu ▸ List.mem_cons_self ..)) w h
    exact ih hfirst fun allowance hmem => hlimits allowance (List.mem_cons_of_mem _ hmem)

end OperationClosed

namespace World

instance {whole : Prop} : OperationClosed (Orderly whole) := ⟨Orderly.operation⟩

/-- Undertakings that need not delete in vain keep order, and if none of them makes problems in vain,
nothing is left over. -/
theorem Orderly.undertake {whole : Prop} {us : List Undertaking} {w : World} (h : w.Orderly whole)
    (hdelete : ∀ u ∈ us, u.Spares "glp_delete_prob" ∧ u.Spares "delete_lp")
    (hcreate : whole → ∀ u ∈ us, u.Spares "glp_create_prob") : (w.undertake us).Orderly whole := by
  refine OperationClosed.undertake h fun allowance hmem w h => ?_
  exact
    { h with
      deletes := hdelete _ hmem
      numbered := fun hwhole => ⟨hcreate hwhole _ hmem, (h.numbered hwhole).2⟩ }

end World

end LinearProgram
