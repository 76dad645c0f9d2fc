import LinearProgram.Proofs.Datum
import LinearProgram.Proofs.Program

/-!
# Parameters from a dictionary

A dictionary is meant to describe a parameter set by three of its keys, and every other key is meant to be
ignored. Two questions decide whether it does: which entries are refused, and what stands in the set after the last
one. Both are answered without running the entries: the first refusal is the fault (`ofEntries_eq_error_iff`), and
what stands in the set is a fixed beginning with the entries laid over it (`Overlaid`).

So the promise is kept by exactly those dictionaries that leave alone what the set itself needs: its family, its weak
references, its members, and the two operations that showing and copying use. A dictionary may replace all members if
it gives back, under every name, what has been lost.
-/

namespace LinearProgram

namespace Parameters

open Datum

variable {p q r : Parameters} {d d' es : List (String × Datum)} {key : String} {v : Datum} {fault : Fault}

/-! ## §1 Which entries are refused -/

/-- Why an entry is refused, whatever the set holds: its value is meant for the method and is none, or its key is a
name that belongs to every set and cannot be given this value. -/
def refusal? : String × Datum → Option Fault
  | (key, v) =>
    if key = "method" then
      match (Choice.read v : Except Fault Method) with
      | .ok _ => none
      | .error fault => some fault
    else if key = "__class__" then some (.notFamily v.typeName)
    else if key = "__weakref__" then some (.fixedAttribute key)
    else if key = "__dict__" then
      match v with
      | .dict _ => none
      | other => some (.notDictionary other.typeName)
    else none

/-- What a key may be: a setting, a name that belongs to every set, or neither. -/
theorem key_cases (key : String) :
    key = "verbose" ∨ key = "presolve" ∨ key = "method" ∨ key = "__class__" ∨ key = "__weakref__" ∨
      key = "__dict__" ∨ (key ∉ settings ∧ key ∉ fixedNames) := by
  simp only [settings, fixedNames, List.mem_cons, List.not_mem_nil, or_false]
  tauto

/-- A set answers to its operations, and to the names that belong to every set, whatever it holds. -/
theorem knows_of_mem (h : key ∈ operations ∨ key ∈ fixedNames) : p.knows key = true := by
  simp only [operations, fixedNames, List.mem_cons, List.not_mem_nil, or_false] at h
  rcases h with (rfl | rfl | rfl) | rfl | rfl | rfl <;> simp [knows, operations, fixedNames]

theorem refusal?_of_free (hmethod : key ≠ "method") (hfixed : key ∉ fixedNames) : refusal? (key, v) = none := by
  simp only [fixedNames, List.mem_cons, List.not_mem_nil, or_false, not_or] at hfixed
  simp [refusal?, hmethod, hfixed]

/-- A name that means nothing to the set is kept beside its settings. -/
theorem put_of_free (hsetting : key ∉ settings) (hfixed : key ∉ fixedNames) :
    p.put key v = .ok { p with others := (key, v) :: p.others } := by
  simp only [settings, fixedNames, List.mem_cons, List.not_mem_nil, or_false, not_or] at hsetting hfixed
  simp [put, hsetting, hfixed]

/-- An attribute is refused for its name or its value, whatever the parameters are. -/
theorem put_eq_error_iff : p.put key v = .error fault ↔ refusal? (key, v) = some fault := by
  -- the three settings, the three fixed names, and any other key
  rcases key_cases key with rfl | rfl | rfl | rfl | rfl | rfl | ⟨hsetting, hfixed⟩
  · simp [put, refusal?]
  · simp [put, refusal?]
  · simp only [put, refusal?]
    cases (Choice.read v : Except Fault Method) <;> simp [bind, Except.bind, pure, Except.pure]
  · simp [put, refusal?]
  · simp [put, refusal?]
  · cases v <;> simp [put, refusal?]
  · have hmethod : key ≠ "method" := fun h => hsetting (by simp [settings, h])
    rw [put_of_free hsetting hfixed, refusal?_of_free hmethod hfixed]
    simp

/-- **One entry.** It is refused for its own sake, whatever the set holds. -/
theorem assign_eq_error_iff : p.assign key v = .error fault ↔ refusal? (key, v) = some fault := by
  unfold assign
  cases hknows : p.knows key with
  | true => exact put_eq_error_iff
  | false =>
    -- a fixed name is always known, and this one is not
    have hfixed : key ∉ fixedNames := fun h => by
      rw [knows_of_mem (.inr h)] at hknows
      cases hknows
    by_cases hmethod : key = "method"
    · subst hmethod
      simp only [refusal?]
      cases (Choice.read v : Except Fault Method) <;> simp [bind, Except.bind, pure, Except.pure]
    · rw [refusal?_of_free hmethod hfixed]
      simp [hmethod]

/-- An entry that is taken over, or passed over, is not refused. -/
theorem refusal?_of_assign (h : p.assign key v = .ok q) : refusal? (key, v) = none := by
  cases hrefusal : refusal? (key, v) with
  | none => rfl
  | some fault =>
    rw [assign_eq_error_iff.mpr hrefusal] at h
    cases h

/-- A dictionary is refused for the first entry that is refused. -/
theorem assignAll_eq_error_iff (d : List (String × Datum)) (p : Parameters) :
    p.assignAll d = .error fault ↔ d.findSome? refusal? = some fault := by
  -- the set changes from entry to entry, but refusals do not depend on it
  induction d generalizing p with
  | nil => simp [assignAll]
  | cons e rest ih =>
    obtain ⟨key, v⟩ := e
    rw [assignAll, List.findSome?_cons]
    cases hassign : p.assign key v with
    | error first => simp [assign_eq_error_iff.mp hassign, bind, Except.bind]
    | ok q =>
      rw [refusal?_of_assign hassign]
      exact ih q

/-- **All entries.** The first that is refused is the fault of a dictionary. -/
theorem ofEntries_eq_error_iff : ofEntries d = .error fault ↔ d.findSome? refusal? = some fault :=
  assignAll_eq_error_iff d standard

/-- A dictionary without refused entries describes a set. -/
theorem ofEntries_ok_iff : (∃ p, ofEntries d = .ok p) ↔ ∀ e ∈ d, refusal? e = none := by
  rw [← List.findSome?_eq_none_iff]
  cases h : ofEntries d with
  | ok p =>
    refine ⟨fun _ => ?_, fun _ => ⟨p, rfl⟩⟩
    -- a refused entry would have been met
    by_contra hsome
    obtain ⟨fault, hfault⟩ := Option.ne_none_iff_exists'.mp hsome
    rw [ofEntries_eq_error_iff.mpr hfault] at h
    cases h
  | error fault => simp [ofEntries_eq_error_iff.mp h]

/-! ## §2 What stands in the set after the last entry -/

/-- The method that an entry stands for once it is taken over. -/
def methodOf (v : Datum) : MethodSetting :=
  match (Choice.read v : Except Fault Method) with
  | .ok m => .method m
  | .error _ => .plain v

theorem assign_verbose : p.assign "verbose" v = .ok { p with verbose? := p.verbose?.map fun _ => v } := by
  obtain ⟨_ | _, _, _, _⟩ := p <;> rfl

theorem assign_presolve : p.assign "presolve" v = .ok { p with presolve? := p.presolve?.map fun _ => v } := by
  obtain ⟨_, _ | _, _, _⟩ := p <;> rfl

theorem assign_method {m : Method} (h : (Choice.read v : Except Fault Method) = .ok m) :
    p.assign "method" v = .ok { p with method? := p.method?.map fun _ => .method m } := by
  obtain ⟨_, _, _ | _, _⟩ := p <;> simp only [assign, knows, put, h] <;> rfl

/-- Entries laid over a set. A setting that the set has takes its last value, one that is missing stays so; and a
plain value comes to stand in front of every operation that is named. -/
structure Overlaid (p : Parameters) (d : List (String × Datum)) (q : Parameters) : Prop where
  verbose : q.verbose? = p.verbose?.map fun old => (latest d "verbose").getD old
  presolve : q.presolve? = p.presolve?.map fun old => (latest d "presolve").getD old
  method : q.method? = p.method?.map fun old => ((latest d "method").map methodOf).getD old
  operation : ∀ key ∈ operations, q.others.lookup key = (latest d key).or (p.others.lookup key)

namespace Overlaid

/-- Nothing overlays nothing. -/
theorem nil (p : Parameters) : Overlaid p [] p where
  verbose := by simp
  presolve := by simp
  method := by simp
  operation := by simp

/-- Overlaying twice is overlaying with both, the later entries last. -/
theorem append (h : Overlaid p d q) (h' : Overlaid q d' r) : Overlaid p (d ++ d') r where
  verbose := by
    rw [h'.verbose, h.verbose, Option.map_map, latest_append]
    simp only [Option.getD_or, Function.comp_def]
  presolve := by
    rw [h'.presolve, h.presolve, Option.map_map, latest_append]
    simp only [Option.getD_or, Function.comp_def]
  method := by
    rw [h'.method, h.method, Option.map_map, latest_append, Option.map_or]
    simp only [Option.getD_or, Function.comp_def]
  -- the later dictionary hides the earlier one, which hides the object
  operation key hkey := by
    rw [h'.operation key hkey, h.operation key hkey, latest_append, Option.or_assoc]

/-- An entry that sets nothing leaves the settings as they are. -/
theorem of_free (hsetting : key ∉ settings) (hverbose : q.verbose? = p.verbose?) (hpresolve : q.presolve? = p.presolve?)
    (hmethod : q.method? = p.method?)
    (hothers : ∀ name ∈ operations, q.others.lookup name = (latest [(key, v)] name).or (p.others.lookup name)) :
    Overlaid p [(key, v)] q := by
  -- the one key assigned is no setting
  have hnone : ∀ name ∈ settings, latest [(key, v)] name = none := fun name hname => by
    have hne : name ≠ key := fun h => hsetting (h ▸ hname)
    rw [latest_singleton, if_neg hne]
  refine ⟨?_, ?_, ?_, hothers⟩
  · rw [hnone _ (by simp [settings]), hverbose]
    simp
  · rw [hnone _ (by simp [settings]), hpresolve]
    simp
  · rw [hnone _ (by simp [settings]), hmethod]
    simp

/-- **One entry** that leaves the members in their place is laid over the set. -/
theorem assign (h : p.assign key v = .ok q) (hkey : key ≠ "__dict__") : Overlaid p [(key, v)] q := by
  have hfree := refusal?_of_assign h
  -- the three settings, the names that belong to every set, and any other key
  rcases key_cases key with rfl | rfl | rfl | rfl | rfl | rfl | ⟨hsetting, hfixed⟩
  · rw [assign_verbose] at h
    cases h
    constructor <;> simp [latest_singleton, operations]
  · rw [assign_presolve] at h
    cases h
    constructor <;> simp [latest_singleton, operations]
  · cases hread : (Choice.read v : Except Fault Method) with
    | error fault => simp [refusal?, hread] at hfree
    | ok m =>
      have hmethod : methodOf v = .method m := by simp only [methodOf, hread]
      rw [assign_method hread] at h
      cases h
      constructor <;> simp [latest_singleton, operations, hmethod]
  · cases hfree
  · cases hfree
  · exact absurd rfl hkey
  · have hmethod : key ≠ "method" := fun h => hsetting (by simp [settings, h])
    unfold Parameters.assign at h
    cases hknows : p.knows key with
    | true =>
      rw [hknows, if_pos rfl, put_of_free hsetting hfixed] at h
      cases h
      refine of_free hsetting rfl rfl rfl fun name _ => ?_
      rw [latest_singleton, List.lookup_cons]
      by_cases hname : name = key <;> simp [hname, beq_false_of_ne]
    | false =>
      rw [hknows, if_neg Bool.false_ne_true, if_neg hmethod] at h
      cases h
      refine of_free hsetting rfl rfl rfl fun name hname => ?_
      -- the set answers to its operations, so the key names none of them
      have hne : name ≠ key := by
        rintro rfl
        rw [knows_of_mem (.inl hname)] at hknows
        cases hknows
      rw [latest_singleton, if_neg hne, Option.none_or]

/-- **All entries**, if they leave the members in their place, are laid over the set. -/
theorem assignAll (h : p.assignAll d = .ok q) (hd : "__dict__" ∉ keys d) : Overlaid p d q := by
  -- entry by entry, from the object that the ones before have left
  induction d generalizing p with
  | nil =>
    cases h
    exact nil _
  | cons e rest ih =>
    obtain ⟨key, v⟩ := e
    simp only [keys, List.map_cons, List.mem_cons, not_or] at hd
    rw [Parameters.assignAll] at h
    cases hassign : p.assign key v with
    | error fault =>
      rw [hassign] at h
      cases h
    | ok r =>
      rw [hassign] at h
      exact (assign hassign (Ne.symm hd.1)).append (ih h hd.2)

end Overlaid

/-- Entries are assigned one after the other. -/
theorem assignAll_append (d d' : List (String × Datum)) (p : Parameters) :
    p.assignAll (d ++ d') = p.assignAll d >>= fun q => q.assignAll d' := by
  induction d generalizing p with
  | nil => rfl
  | cons e rest ih =>
    obtain ⟨key, v⟩ := e
    simp only [List.cons_append, assignAll, ih, bind_assoc]

/-- **Members that are replaced** are forgotten: what comes after is laid over those that took their place. -/
theorem overlaid_of_replaced (h : p.assignAll (d ++ ("__dict__", .dict es) :: d') = .ok q)
    (hd' : "__dict__" ∉ keys d') : Overlaid (ofMembers es) d' q := by
  rw [assignAll_append] at h
  cases hbefore : p.assignAll d with
  | error fault =>
    rw [hbefore] at h
    cases h
  | ok r =>
    -- assigning `__dict__` forgets everything assigned before
    have hreplace : r.assign "__dict__" (.dict es) = .ok (ofMembers es) := by
      rw [assign, knows_of_mem (.inr (by simp [fixedNames]))]
      rfl
    rw [hbefore] at h
    replace h : (r.assign "__dict__" (.dict es) >>= fun s => s.assignAll d') = .ok q := h
    rw [hreplace] at h
    exact .assignAll h hd'

/-! ## §3 Showing and copying -/

/-- The answer of an operation, unless a plain value stands in front of it. -/
def unlessHidden {α : Type} (value? : Option Datum) (answer : Except Fault α) : Except Fault α :=
  match value? with
  | some v => .error (.notCallable v.typeName)
  | none => answer

/-- The set without what stands beside its settings. -/
def bare (p : Parameters) : Parameters := { p with others := [] }

theorem entries_eq (p : Parameters) : p.entries = unlessHidden (p.others.lookup "to_dict") p.bare.entries := by
  unfold entries call
  cases p.others.lookup "to_dict" <;> rfl

theorem copy_eq (p : Parameters) : p.copy = unlessHidden (p.others.lookup "copy") (p.entries >>= ofEntries) := by
  unfold copy call
  cases p.others.lookup "copy" <;> rfl

theorem unlessHidden_eq_ok_iff {α : Type} {value? : Option Datum} {answer : Except Fault α} {a : α} :
    unlessHidden value? answer = .ok a ↔ value? = none ∧ answer = .ok a := by
  cases value? <;> simp [unlessHidden]

/-- The set of three settings, with nothing beside them. -/
def holding (verbose presolve : Datum) (m : Method) : Parameters :=
  ⟨some verbose, some presolve, some (.method m), []⟩

/-- The dictionary of three settings. -/
def showing (verbose presolve : Datum) (m : Method) : List (String × Datum) :=
  [("verbose", verbose), ("presolve", presolve), ("method", .text (Choice.name m))]

variable {verbose presolve : Datum} {m : Method}

theorem need_eq_ok_iff {α : Type} {name : String} {setting : Option α} {a : α} :
    need name setting = .ok a ↔ setting = some a := by
  cases setting <;> simp [need]

theorem read_eq_ok_iff {setting : MethodSetting} : setting.read = .ok m ↔ setting = .method m := by
  cases setting <;> simp [MethodSetting.read]

theorem name_injective : Function.Injective (Choice.name : Method → String) := fun m m' h => by
  have hread := Choice.ofName?_name_method m
  rw [h, Choice.ofName?_name_method] at hread
  exact (Option.some.inj hread).symm

/-- A set with nothing beside its settings shows them, if it has them all and the method is one. -/
theorem bare_entries_eq_ok_iff : p.bare.entries = .ok (showing verbose presolve m) ↔
    p.verbose? = some verbose ∧ p.presolve? = some presolve ∧ p.method? = some (.method m) := by
  constructor
  · intro h
    obtain ⟨-, -, h⟩ := Program.bind_eq_ok h
    obtain ⟨v, hverbose, h⟩ := Program.bind_eq_ok h
    obtain ⟨w, hpresolve, h⟩ := Program.bind_eq_ok h
    obtain ⟨setting, hmethod, h⟩ := Program.bind_eq_ok h
    obtain ⟨m', hread, h⟩ := Program.bind_eq_ok h
    have hentries : showing v w m' = showing verbose presolve m := Except.ok.inj h
    -- the three entries of the dictionary are the three settings
    simp only [showing, List.cons.injEq, Prod.mk.injEq, Datum.text.injEq, name_injective.eq_iff, true_and,
      and_true] at hentries
    obtain ⟨rfl, rfl, rfl⟩ := hentries
    exact ⟨need_eq_ok_iff.mp hverbose, need_eq_ok_iff.mp hpresolve,
      read_eq_ok_iff.mp hread ▸ need_eq_ok_iff.mp hmethod⟩
  · rintro ⟨hverbose, hpresolve, hmethod⟩
    obtain ⟨_, _, _, _⟩ := p
    cases hverbose
    cases hpresolve
    cases hmethod
    rfl

/-- What a set shows describes a set of the same settings, in front of whose operations nothing stands. -/
theorem ofEntries_showing (verbose presolve : Datum) (m : Method) :
    ofEntries (showing verbose presolve m) = .ok (holding verbose presolve m) := by
  cases m <;> rfl

/-- A set `q` that restores `p`: it is the copy of `p`, and is described by what `p` shows; it equals `p`, shows the
same, and becomes the parameters of a new model for which `p` is an option. -/
structure Restores (p q : Parameters) : Prop where
  copied : p.copy = .ok q
  described : p.entries >>= ofEntries = .ok q
  equal : p.same q = .ok true
  shown : q.entries = p.entries
  accepted : ∀ (draft : ModelDraft) (w : World),
    (draft.apply (.parameters p)).on w = (.ok { draft with parameters := q }, w)

/-- A set that shows proper settings is restored unless something stands in front of copying. -/
theorem restores_iff (hp : p.entries = .ok (showing verbose presolve m)) (hverbose : verbose.Proper)
    (hpresolve : presolve.Proper) : (∃ q, p.Restores q) ↔ p.others.lookup "copy" = none := by
  constructor
  · rintro ⟨q, h⟩
    have hcopied := h.copied
    rw [copy_eq, unlessHidden_eq_ok_iff] at hcopied
    exact hcopied.1
  · intro hnone
    have hdescribed : p.entries >>= ofEntries = .ok (holding verbose presolve m) := by
      rw [hp]
      exact ofEntries_showing verbose presolve m
    have hcopied : p.copy = .ok (holding verbose presolve m) := by
      rw [copy_eq, hnone]
      exact hdescribed
    have hshown : (holding verbose presolve m).entries = .ok (showing verbose presolve m) := rfl
    -- the copy holds the same objects, so that even a NaN among them compares as the same
    have hself : Datum.same (.dict (showing verbose presolve m)) (.dict (showing verbose presolve m)) = true :=
      same_self _ ⟨by simp [showing, keys], hverbose, hpresolve, trivial, trivial⟩
    refine ⟨_, hcopied, hdescribed, ?_, hshown.trans hp.symm, fun draft w => ?_⟩
    · rw [Parameters.same, hp, hshown]
      exact congrArg Except.ok hself
    · simp only [ModelDraft.apply, bind_pure_comp, Action.on_map, Action.on_lift, hcopied]
      rfl

/-- The operations that showing and copying use. -/
def needed : List String := ["to_dict", "copy"]

theorem mem_operations_of_needed {name : String} (h : name ∈ needed) : name ∈ operations := by
  rcases List.mem_pair.mp h with rfl | rfl <;> simp [operations]

/-- A set that has three settings, and nothing in front of the operations it needs. -/
structure Holds (p : Parameters) (verbose presolve : Datum) (m : Method) : Prop where
  verbose : p.verbose? = some verbose
  presolve : p.presolve? = some presolve
  method : p.method? = some (.method m)
  operation : ∀ name ∈ needed, p.others.lookup name = none

/-- Parameters describe themselves and can be restored exactly if they hold two values and a method, with no
operation hidden. -/
theorem holds_iff (hverbose : verbose.Proper) (hpresolve : presolve.Proper) :
    (p.entries = .ok (showing verbose presolve m) ∧ ∃ q, p.Restores q) ↔ p.Holds verbose presolve m := by
  constructor
  · rintro ⟨hentries, hrestores⟩
    have hcopy := (restores_iff hentries hverbose hpresolve).mp hrestores
    rw [entries_eq, unlessHidden_eq_ok_iff, bare_entries_eq_ok_iff] at hentries
    -- `to_dict` must be the method, and so must `copy`
    obtain ⟨hshow, hv, hw, hm⟩ := hentries
    exact ⟨hv, hw, hm, List.forall_mem_cons.mpr ⟨hshow, List.forall_mem_singleton.mpr hcopy⟩⟩
  · rintro ⟨hv, hw, hm, hoperation⟩
    have hentries : p.entries = .ok (showing verbose presolve m) := by
      rw [entries_eq, unlessHidden_eq_ok_iff, bare_entries_eq_ok_iff]
      exact ⟨hoperation _ (by simp [needed]), hv, hw, hm⟩
    exact ⟨hentries, (restores_iff hentries hverbose hpresolve).mpr (hoperation _ (by simp [needed]))⟩

/-! ## §4 Dictionaries that keep the promise -/

/-- A dictionary with the values that another one has for its keys. -/
def overlay (d defaults : List (String × Datum)) : List (String × Datum) :=
  defaults.map fun e => (e.1, (d.lookup e.1).getD e.2)

/-- **The promise.** A dictionary describes a set, which shows the standard settings with the values that the dictionary
has for them and nothing else of it, and which can be restored. -/
def Faithful (d : List (String × Datum)) : Prop :=
  ∃ p q, ofEntries d = .ok p ∧ p.entries = overlay d <$> standard.entries ∧ p.Restores q

/-- The entry for the method, if there is one, names a method. -/
def NamesMethod (d : List (String × Datum)) : Prop :=
  ∀ v, d.lookup "method" = some v → ∃ m : Method, v = .text (Choice.name m)

/-- Members put in place, with the entries that come after them, give back what the dictionary `d` asks for. They
stand in front of no operation that is needed, and every setting is there, with its value unless this comes after them.
A method can be read only if it comes after them. -/
structure Regained (d es after : List (String × Datum)) : Prop where
  operation : ∀ key ∈ needed, key ∉ keys es ∧ key ∉ keys after
  setting : ∀ e ∈ [("verbose", Datum.bool false), ("presolve", Datum.bool true)],
    e.1 ∈ keys es ∧ (e.1 ∉ keys after → es.lookup e.1 = some ((d.lookup e.1).getD e.2))
  method : "method" ∈ keys es ∧ "method" ∈ keys after

/-- A dictionary that leaves the set in order: its keys are no names that belong to every set and no operations that are
needed; or it replaces the members of the set and gives back what is lost. -/
inductive Harmless (d : List (String × Datum)) : Prop
  | plain (h : ∀ key ∈ fixedNames ++ needed, key ∉ keys d)
  | replaced (before es after : List (String × Datum)) (h : d = before ++ ("__dict__", .dict es) :: after)
      (fixed : "__class__" ∉ keys d ∧ "__weakref__" ∉ keys d) (regained : Regained d es after)

/-- The settings that a dictionary asks for. -/
structure Asks (d : List (String × Datum)) (verbose presolve : Datum) (m : Method) : Prop where
  verbose : (d.lookup "verbose").getD (.bool false) = verbose
  presolve : (d.lookup "presolve").getD (.bool true) = presolve
  method : (d.lookup "method").getD (.text "auto") = .text (Choice.name m)

/-- A dictionary that names a method asks for something. -/
theorem NamesMethod.exists_asks (h : NamesMethod d) : ∃ verbose presolve m, Asks d verbose presolve m := by
  have hmethod : ∃ m : Method, (d.lookup "method").getD (.text "auto") = .text (Choice.name m) := by
    cases hlookup : d.lookup "method" with
    | none => exact ⟨.auto, rfl⟩
    | some v => exact h v hlookup
  obtain ⟨m, hm⟩ := hmethod
  exact ⟨_, _, m, rfl, rfl, hm⟩

namespace Asks

/-- The settings that a proper dictionary asks for are proper. -/
theorem proper (h : Asks d verbose presolve m) (hd : (Datum.dict d).Proper) : verbose.Proper ∧ presolve.Proper := by
  have hgetD : ∀ (key : String) (default : Datum), default.Proper → ((d.lookup key).getD default).Proper :=
    fun key default hdefault => by
      cases hlookup : d.lookup key with
      | none => exact hdefault
      | some v => exact hd.2.of_mem ((lookup_eq_some_iff_mem hd.1).mp hlookup)
  exact ⟨h.verbose ▸ hgetD _ _ trivial, h.presolve ▸ hgetD _ _ trivial⟩

theorem overlay_standard (h : Asks d verbose presolve m) :
    overlay d <$> standard.entries = .ok (showing verbose presolve m) := by
  rw [showing, ← h.verbose, ← h.presolve, ← h.method]
  rfl

/-- A dictionary is faithful if the set that it describes holds what it asks for. -/
theorem faithful_iff (h : Asks d verbose presolve m) (hd : (Datum.dict d).Proper) :
    Faithful d ↔ ∃ p, ofEntries d = .ok p ∧ p.Holds verbose presolve m := by
  obtain ⟨hverbose, hpresolve⟩ := h.proper hd
  constructor
  · rintro ⟨p, q, hp, hentries, hq⟩
    -- what was asked for, laid over the defaults, is what `showing` shows
    rw [h.overlay_standard] at hentries
    exact ⟨p, hp, (holds_iff hverbose hpresolve).mp ⟨hentries, q, hq⟩⟩
  · rintro ⟨p, hp, hholds⟩
    obtain ⟨hentries, q, hq⟩ := (holds_iff hverbose hpresolve).mpr hholds
    exact ⟨p, q, hp, hentries.trans h.overlay_standard.symm, hq⟩

end Asks

/-! ## §5 Which dictionaries they are -/

theorem methodOf_name (m : Method) : methodOf (.text (Choice.name m)) = .method m := by
  cases m <;> rfl

/-- Of a dictionary whose entry for the method names one, only names that belong to every set are refused. -/
theorem ofEntries_ok_iff_of_names (hd : (keys d).Nodup) (hm : NamesMethod d) :
    (∃ p, ofEntries d = .ok p) ↔
      ("__class__" ∉ keys d ∧ "__weakref__" ∉ keys d) ∧ ∀ v, ("__dict__", v) ∈ d → ∃ es, v = .dict es := by
  rw [ofEntries_ok_iff]
  constructor
  · intro h
    refine ⟨⟨fun hkey => ?_, fun hkey => ?_⟩, fun v hv => ?_⟩
    · obtain ⟨⟨key, v⟩, he, rfl⟩ := List.mem_map.mp hkey
      cases h _ he
    · obtain ⟨⟨key, v⟩, he, rfl⟩ := List.mem_map.mp hkey
      cases h _ he
    · have hfree := h _ hv
      cases v with
      | dict es => exact ⟨es, rfl⟩
      | _ => cases hfree
  · rintro ⟨hfixed, hdict⟩ ⟨key, v⟩ he
    have hclass : key ≠ "__class__" := fun h => hfixed.1 (h ▸ List.mem_map_of_mem he)
    have hweak : key ≠ "__weakref__" := fun h => hfixed.2 (h ▸ List.mem_map_of_mem he)
    -- a key is the one of the method, the one of the dictionary, or free
    by_cases hmethod : key = "method"
    · subst hmethod
      obtain ⟨m, rfl⟩ := hm v ((lookup_eq_some_iff_mem hd).mpr he)
      cases m <;> rfl
    · by_cases hmembers : key = "__dict__"
      · subst hmembers
        obtain ⟨es, rfl⟩ := hdict v he
        rfl
      · exact refusal?_of_free hmethod (by simp [fixedNames, hclass, hweak, hmembers])

section Standard

variable (h : Overlaid standard d p) (hd : (keys d).Nodup)

include h hd

/-- Whatever stands in front of its operations, a set with a dictionary laid over the standard one has the settings that
the dictionary asks for. -/
theorem bare_entries_of_standard (ha : Asks d verbose presolve m) : p.bare.entries = .ok (showing verbose presolve m) := by
  have hm := ha.method
  rw [bare_entries_eq_ok_iff]
  refine ⟨?_, ?_, ?_⟩
  · rw [h.verbose, latest_eq_lookup hd, ← ha.verbose]
    rfl
  · rw [h.presolve, latest_eq_lookup hd, ← ha.presolve]
    rfl
  · rw [h.method, latest_eq_lookup hd]
    cases hlookup : d.lookup "method" with
    | none =>
      rw [hlookup] at hm
      -- no method given: the default is `auto`
      have hauto : Method.auto = m := name_injective (Datum.text.inj hm)
      exact congrArg (fun m => some (MethodSetting.method m)) hauto
    | some v =>
      rw [hlookup] at hm
      obtain rfl : v = .text (Choice.name m) := hm
      exact congrArg some (methodOf_name m)

/-- What stands in front of an operation is the entry of its name. -/
theorem lookup_others_of_standard {name : String} (hname : name ∈ needed) :
    p.others.lookup name = d.lookup name := by
  rw [h.operation name (mem_operations_of_needed hname), latest_eq_lookup hd]
  exact Option.or_none

/-- So the set holds what the dictionary asks for unless the dictionary puts something in front of an operation. -/
theorem holds_of_standard (ha : Asks d verbose presolve m) :
    p.Holds verbose presolve m ↔ ∀ key ∈ needed, key ∉ keys d := by
  obtain ⟨hverbose, hpresolve, hmethod⟩ := bare_entries_eq_ok_iff.mp (bare_entries_of_standard h hd ha)
  constructor
  · intro hholds name hname
    rw [← lookup_eq_none_iff_not_mem, ← lookup_others_of_standard h hd hname]
    exact hholds.operation name hname
  · intro hkeys
    refine ⟨hverbose, hpresolve, hmethod, fun name hname => ?_⟩
    rw [lookup_others_of_standard h hd hname, lookup_eq_none_iff_not_mem]
    exact hkeys name hname

end Standard

section Replaced

variable {before after : List (String × Datum)}

/-- A setting that a dictionary gives back has its value if it is set again, or was put in place with that value. -/
theorem setting_of_replaced {default : Datum} (hlater : ∀ v, after.lookup key = some v → d.lookup key = some v) :
    ((es.lookup key).map fun old => (after.lookup key).getD old) = some ((d.lookup key).getD default) ↔
      key ∈ keys es ∧ (key ∉ keys after → es.lookup key = some ((d.lookup key).getD default)) := by
  rw [← lookup_eq_none_iff_not_mem, mem_keys_iff]
  -- an entry behind `__dict__` decides by itself
  cases hafter : after.lookup key with
  | some v =>
    rw [hlater v hafter]
    cases es.lookup key <;> simp
  | none => cases es.lookup key <;> simp

/-- A method is read only if it comes after the members that were put in place. -/
theorem method_of_replaced (hm : (d.lookup "method").getD (.text "auto") = .text (Choice.name m))
    (hlater : ∀ v, after.lookup "method" = some v → d.lookup "method" = some v) :
    (((es.lookup "method").map MethodSetting.plain).map fun old => ((after.lookup "method").map methodOf).getD old) =
        some (.method m) ↔ "method" ∈ keys es ∧ "method" ∈ keys after := by
  rw [mem_keys_iff, mem_keys_iff]
  cases hafter : after.lookup "method" with
  | some v =>
    rw [hlater v hafter] at hm
    obtain rfl : v = .text (Choice.name m) := hm
    cases es.lookup "method" <;> simp [methodOf_name]
  -- inside `__dict__` no method is read, so a text there stays a text
  | none => cases es.lookup "method" <;> simp

/-- What is no setting is kept under its own name. -/
theorem mem_keys_others (h : key ∉ settings) : key ∈ keys (ofMembers es).others ↔ key ∈ keys es := by
  simp only [keys, ofMembers, List.mem_map, List.mem_filter, Bool.not_eq_true', ← Bool.not_eq_true,
    List.contains_iff_mem]
  constructor
  · rintro ⟨e, ⟨he, -⟩, hkey⟩
    exact ⟨e, he, hkey⟩
  · rintro ⟨e, he, rfl⟩
    exact ⟨e, ⟨he, h⟩, rfl⟩

/-- Something stands in front of an operation if it was put in place or came after. -/
theorem lookup_others_of_replaced (h : Overlaid (ofMembers es) after p) (hafter : (keys after).Nodup) {name : String}
    (hname : name ∈ needed) : p.others.lookup name = none ↔ name ∉ keys es ∧ name ∉ keys after := by
  have hsetting : name ∉ settings := by
    rcases List.mem_pair.mp hname with rfl | rfl <;> simp [settings]
  rw [h.operation name (mem_operations_of_needed hname), latest_eq_lookup hafter, Option.or_eq_none_iff,
    lookup_eq_none_iff_not_mem, lookup_eq_none_iff_not_mem, mem_keys_others hsetting, and_comm]

/-- A set whose members were replaced holds what the dictionary asks for exactly if this is regained. -/
theorem holds_of_replaced (h : Overlaid (ofMembers es) after p) (hd : (keys d).Nodup)
    (hsplit : d = before ++ ("__dict__", .dict es) :: after) (ha : Asks d verbose presolve m) :
    p.Holds verbose presolve m ↔ Regained d es after := by
  have hafter : (keys after).Nodup := (nodup_of_split (hsplit ▸ hd)).1
  -- what comes after the replacement is what the dictionary has
  have hlater : ∀ key v, after.lookup key = some v → d.lookup key = some v := fun key v hv => by
    rw [lookup_eq_some_iff_mem hafter] at hv
    exact (lookup_eq_some_iff_mem hd).mpr (hsplit ▸ by simp [hv])
  obtain ⟨rfl, rfl, hm⟩ := ha
  have hverbose : p.verbose? = (es.lookup "verbose").map fun old => (after.lookup "verbose").getD old := by
    rw [h.verbose, latest_eq_lookup hafter]
    rfl
  have hpresolve : p.presolve? = (es.lookup "presolve").map fun old => (after.lookup "presolve").getD old := by
    rw [h.presolve, latest_eq_lookup hafter]
    rfl
  have hmethod : p.method? = ((es.lookup "method").map MethodSetting.plain).map fun old =>
      ((after.lookup "method").map methodOf).getD old := by
    rw [h.method, latest_eq_lookup hafter]
    rfl
  have hoperation : ∀ name ∈ needed, (p.others.lookup name = none ↔ name ∉ keys es ∧ name ∉ keys after) :=
    fun _ => lookup_others_of_replaced h hafter
  constructor
  · intro hp
    have hv := hp.verbose
    have hw := hp.presolve
    have hm' := hp.method
    rw [hverbose, setting_of_replaced (hlater _)] at hv
    rw [hpresolve, setting_of_replaced (hlater _)] at hw
    rw [hmethod, method_of_replaced hm (hlater _)] at hm'
    exact ⟨fun name hname => (hoperation name hname).mp (hp.operation name hname),
      List.forall_mem_cons.mpr ⟨hv, List.forall_mem_singleton.mpr hw⟩, hm'⟩
  · intro hr
    obtain ⟨hv, hw⟩ := List.forall_mem_cons.mp hr.setting
    rw [List.forall_mem_singleton] at hw
    refine ⟨?_, ?_, ?_, fun name hname => (hoperation name hname).mpr (hr.operation name hname)⟩
    · rw [hverbose]
      exact (setting_of_replaced (hlater _)).mpr hv
    · rw [hpresolve]
      exact (setting_of_replaced (hlater _)).mpr hw
    · rw [hmethod]
      exact (method_of_replaced hm (hlater _)).mpr hr.method

end Replaced

/-- **The dictionaries that keep the promise** are those that leave the set in order. -/
theorem faithful_iff_harmless (hd : (Datum.dict d).Proper) (hm : NamesMethod d) : Faithful d ↔ Harmless d := by
  obtain ⟨_, _, _, ha⟩ := hm.exists_asks
  rw [ha.faithful_iff hd]
  constructor
  · rintro ⟨p, hp, hholds⟩
    obtain ⟨hfixed, hdict⟩ := (ofEntries_ok_iff_of_names hd.1 hm).mp ⟨p, hp⟩
    -- with the dictionary of the instance among the keys, what came before it is lost
    by_cases hmembers : "__dict__" ∈ keys d
    · obtain ⟨⟨key, v⟩, he, rfl⟩ := List.mem_map.mp hmembers
      obtain ⟨es, rfl⟩ := hdict v he
      obtain ⟨before, after, hsplit⟩ := List.append_of_mem he
      have hover := overlaid_of_replaced (hsplit ▸ hp) (nodup_of_split (hsplit ▸ hd.1)).2
      exact .replaced before es after hsplit hfixed ((holds_of_replaced hover hd.1 hsplit ha).mp hholds)
    · have hover := Overlaid.assignAll hp hmembers
      have hoperation := (holds_of_standard hover hd.1 ha).mp hholds
      have hfree : ∀ key ∈ fixedNames, key ∉ keys d := by
        simp only [fixedNames, List.forall_mem_cons]
        exact ⟨hfixed.1, hmembers, hfixed.2, by simp⟩
      exact .plain (List.forall_mem_append.mpr ⟨hfree, hoperation⟩)
  · intro hharmless
    cases hharmless with
    | plain h =>
      obtain ⟨hfixed, hoperation⟩ := List.forall_mem_append.mp h
      obtain ⟨hclass, hmembers, hweak⟩ : "__class__" ∉ keys d ∧ "__dict__" ∉ keys d ∧ "__weakref__" ∉ keys d :=
        ⟨hfixed _ (by simp [fixedNames]), hfixed _ (by simp [fixedNames]), hfixed _ (by simp [fixedNames])⟩
      obtain ⟨p, hp⟩ := (ofEntries_ok_iff_of_names hd.1 hm).mpr
        ⟨⟨hclass, hweak⟩, fun v hv => absurd (List.mem_map_of_mem hv) hmembers⟩
      exact ⟨p, hp, (holds_of_standard (.assignAll hp hmembers) hd.1 ha).mpr hoperation⟩
    | replaced before es after hsplit hfixed hregained =>
      have hmem : ("__dict__", Datum.dict es) ∈ d := hsplit ▸ by simp
      have honly : ∀ v, ("__dict__", v) ∈ d → ∃ es, v = .dict es := fun v hv => by
        rw [← lookup_eq_some_iff_mem hd.1] at hv hmem
        exact ⟨es, Option.some.inj (hv.symm.trans hmem)⟩
      obtain ⟨p, hp⟩ := (ofEntries_ok_iff_of_names hd.1 hm).mpr ⟨hfixed, honly⟩
      have hover := overlaid_of_replaced (hsplit ▸ hp) (nodup_of_split (hsplit ▸ hd.1)).2
      exact ⟨p, hp, (holds_of_replaced hover hd.1 hsplit ha).mpr hregained⟩

/-- **What a dictionary describes.** A dictionary is refused for its first entry that is refused for its own sake. It
keeps the promise exactly if it leaves the set in order. And as long as it does not replace the members of the set, the
settings are those that it asks for in any case: nothing fails but showing and copying, and these only because a value
stands in front of them that the dictionary has under their name. -/
theorem described_account (d : List (String × Datum)) (hd : (Datum.dict d).Proper) (hm : NamesMethod d) :
    (∀ fault, ofEntries d = .error fault ↔ d.findSome? refusal? = some fault) ∧
    (Faithful d ↔ Harmless d) ∧
    ∀ p, ofEntries d = .ok p → "__dict__" ∉ keys d →
      p.bare.entries = overlay d <$> standard.entries ∧
      p.entries = unlessHidden (d.lookup "to_dict") (overlay d <$> standard.entries) ∧
      p.copy = unlessHidden (d.lookup "copy") (p.entries >>= ofEntries) := by
  refine ⟨fun _ => ofEntries_eq_error_iff, faithful_iff_harmless hd hm, fun p hp hmembers => ?_⟩
  obtain ⟨_, _, _, ha⟩ := hm.exists_asks
  have hover := Overlaid.assignAll hp hmembers
  -- the settings are the defaults with the dictionary laid over them
  have hbare : p.bare.entries = overlay d <$> standard.entries :=
    (bare_entries_of_standard hover hd.1 ha).trans ha.overlay_standard.symm
  refine ⟨hbare, ?_, ?_⟩
  · rw [entries_eq, hbare, lookup_others_of_standard hover hd.1 (by simp [needed])]
  · rw [copy_eq, lookup_others_of_standard hover hd.1 (by simp [needed])]

/-- Members that are replaced take what stood in front of showing with them, and here they are given back together with
the entries that follow. Without that the value stays in the way, in front of the right settings. -/
theorem described_account_of_replaced :
    Faithful [("to_dict", .int 5), ("verbose", .list [.float Double.nan]),
      ("__dict__", .dict [("verbose", .list [.float Double.nan]), ("presolve", .null), ("method", .int 0)]),
      ("presolve", .bool false), ("method", .text "simplex")] ∧
    ¬ Faithful [("to_dict", .int 5), ("method", .text "simplex")] ∧
    ∀ p, ofEntries [("to_dict", .int 5), ("method", .text "simplex")] = .ok p →
      p.entries = .error (.notCallable "int") ∧ p.bare.entries = .ok (showing (.bool false) (.bool true) .simplex) := by
  have hsimplex : ∀ v, some (Datum.text "simplex") = some v → ∃ m : Method, v = .text (Choice.name m) := by
    rintro v ⟨⟩
    exact ⟨.simplex, rfl⟩
  obtain ⟨-, hreplaced, -⟩ := described_account [("to_dict", .int 5), ("verbose", .list [.float Double.nan]),
      ("__dict__", .dict [("verbose", .list [.float Double.nan]), ("presolve", .null), ("method", .int 0)]),
      ("presolve", .bool false), ("method", .text "simplex")]
    (by simp [Proper, ProperEntries, ProperItems, keys]) hsimplex
  obtain ⟨-, hplain, hshown⟩ := described_account [("to_dict", .int 5), ("method", .text "simplex")]
    (by simp [Proper, ProperEntries, keys]) hsimplex
  refine ⟨hreplaced.mpr ?_, fun h => ?_, fun p hp => ?_⟩
  · refine .replaced [_, _] _ [_, _] rfl (by simp [keys]) ⟨by simp [needed, keys], ?_, by simp [keys]⟩
    refine List.forall_mem_cons.mpr ⟨⟨by simp [keys], fun _ => rfl⟩, List.forall_mem_singleton.mpr ⟨by simp [keys], ?_⟩⟩
    exact fun hmissing => absurd (by simp [keys]) hmissing
  · -- with `to_dict` among the keys neither way of being harmless is open
    cases hplain.mp h with
    | plain hfree => exact hfree "to_dict" (by simp [needed]) (by simp [keys])
    | replaced before es after hsplit _ _ =>
      have hmem : ("__dict__", Datum.dict es) ∈ [("to_dict", Datum.int 5), ("method", .text "simplex")] :=
        hsplit ▸ by simp
      simp at hmem
  · obtain ⟨hbare, hentries, -⟩ := hshown p hp (by simp [keys])
    exact ⟨hentries, hbare⟩

/-- A dictionary that has a value under the name of an operation does not keep the promise, although it describes a
set. -/
theorem not_faithful_of_operation :
    (∃ p, ofEntries [("to_dict", .int 5)] = .ok p) ∧
      ¬ ∀ d : List (String × Datum), (Datum.dict d).Proper → NamesMethod d → Faithful d := by
  refine ⟨⟨_, rfl⟩, fun hall => ?_⟩
  obtain ⟨p, q, hp, hentries, -⟩ := hall [("to_dict", .int 5)] ⟨by simp [keys], trivial, trivial⟩ (by
    intro v hv
    cases hv)
  cases hp
  cases hentries

end Parameters

end LinearProgram
