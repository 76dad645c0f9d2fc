import LinearProgram.Engine.Selection
import LinearProgram.Proofs.Action
import LinearProgram.Proofs.Library

/-!
# Which engine is chosen

An engine stands in one of three ways. It is usable when its library is loaded, or when the first candidate that
can be opened has all of its functions; it is absent when no candidate can be opened. The third way is that the
first candidate that can be opened lacks a function, being the library of the other engine, or one that serves
neither. Such an engine is not merely absent: asking for it faults, and
so does every choice that comes to it.

Asking changes nothing in how the engines stand, so a choice goes by how they stand at the outset.
-/

namespace LinearProgram

open LinearProgram.Action

/-! ## §1 How a library stands -/

/-- How an engine stands: it can be used, its library is not there, or one is in its place that lacks a function. -/
inductive Standing where
  | usable
  | absent
  | foreign (found : SharedLibrary) (function : String)
deriving DecidableEq

/-- The fault of asking for an engine that has another library in its place: a function cannot be looked up. -/
def Standing.fault? : Standing → Option Fault
  | usable => none
  | absent => none
  | foreign found function => some (.missingMember found.libraryName function)

/-- An answer, unless there is a fault. -/
def unlessFault {α : Type} (fault? : Option Fault) (answer : α) : Except Fault α :=
  match fault? with
  | some fault => .error fault
  | none => .ok answer

namespace Library

variable {l : Library} {s : Surroundings} {missed : List String} {file : String} {found : SharedLibrary}

/-- Which library the first candidate is that can be opened. -/
def first? (l : Library) (s : Surroundings) : Option SharedLibrary :=
  (l.candidates s).findSome? fun file => s.loadable.lookup file

def standing (l : Library) (s : Surroundings) : Standing :=
  match l.loaded, l.first? s with
  | some _, _ => .usable
  | none, none => .absent
  | none, some found =>
    match l.needs.bind found.lacking? with
    | none => .usable
    | some function => .foreign found function

theorem first?_of_misses (h : l.Misses s) : l.first? s = none :=
  List.findSome?_eq_none_iff.mpr h

theorem first?_of_finds (h : l.Finds s missed file found) : l.first? s = some found := by
  obtain ⟨⟨rest, hsplit⟩, hmissed, hfile⟩ := h
  rw [first?, hsplit, List.findSome?_append, List.findSome?_eq_none_iff.mpr hmissed, List.findSome?_cons, hfile]
  rfl

theorem standing_of_loaded (h : l.loaded = some found) : l.standing s = .usable := by
  simp only [standing, h]

theorem standing_of_misses (hnew : l.loaded = none) (h : l.Misses s) : l.standing s = .absent := by
  simp only [standing, hnew, first?_of_misses h]

/-- An engine whose library is found is usable. -/
theorem standing_of_fits (h : l.Finds s missed file found) (hfit : l.Fits found) : l.standing s = .usable := by
  cases hloaded : l.loaded with
  | some _ => exact standing_of_loaded hloaded
  | none =>
    unfold Fits at hfit
    simp only [standing, hloaded, first?_of_finds h, hfit]

theorem standing_of_foreign {function : String} (hnew : l.loaded = none) (h : l.Finds s missed file found)
    (hlacks : l.needs.bind found.lacking? = some function) : l.standing s = .foreign found function := by
  simp only [standing, hnew, first?_of_finds h, hlacks]

/-- The four courses that an attempt can take. -/
theorem load_cases (l : Library) (s : Surroundings) :
    (∃ found, l.loaded = some found) ∨ (l.loaded = none ∧ l.Misses s) ∨
    (∃ missed file found, l.loaded = none ∧ l.Finds s missed file found ∧ l.Fits found) ∨
    ∃ missed file found function, l.loaded = none ∧ l.Finds s missed file found ∧
      l.needs.bind found.lacking? = some function := by
  cases hloaded : l.loaded with
  | some found => exact .inl ⟨found, rfl⟩
  | none =>
    rcases l.misses_or_finds s with hmiss | ⟨missed, file, found, hfind⟩
    · exact .inr (.inl ⟨rfl, hmiss⟩)
    · -- a candidate was found; it may still lack a function that the prototypes need
      cases hlacks : l.needs.bind found.lacking? with
      | none => exact .inr (.inr (.inl ⟨missed, file, found, rfl, hfind, hlacks⟩))
      | some function => exact .inr (.inr (.inr ⟨missed, file, found, function, rfl, hfind, hlacks⟩))

/-- An attempt leaves the library standing as it did. -/
theorem standing_load (l : Library) (s : Surroundings) : (l.load s).library.standing s = l.standing s := by
  rcases l.load_cases s with ⟨found, h⟩ | ⟨hnew, h⟩ | ⟨missed, file, found, hnew, h, hfit⟩ |
    ⟨missed, file, found, function, hnew, h, hlacks⟩
  · rw [load_of_loaded h]
  · rw [load_of_misses hnew h]
  · rw [load_of_finds hnew h hfit, standing_of_fits h hfit]
    exact standing_of_loaded rfl
  · rw [load_of_foreign hnew h hlacks]

/-- What an attempt shows is how the library stands. -/
theorem available_load (l : Library) (s : Surroundings) :
    available (l.load s) = unlessFault (l.standing s).fault? (decide (l.standing s = .usable)) := by
  -- one case for each standing: loaded before, absent, fit, foreign
  rcases l.load_cases s with ⟨found, h⟩ | ⟨hnew, h⟩ | ⟨missed, file, found, hnew, h, hfit⟩ |
    ⟨missed, file, found, function, hnew, h, hlacks⟩
  · rw [load_of_loaded h, standing_of_loaded h]
    rfl
  · rw [load_of_misses hnew h, standing_of_misses hnew h]
    rfl
  · rw [load_of_finds hnew h hfit, standing_of_fits h hfit]
    rfl
  · rw [load_of_foreign hnew h hlacks, standing_of_foreign hnew h hlacks]
    rfl

/-- An engine is usable exactly if its library can be loaded. -/
theorem load_eq_ok_iff (l : Library) (s : Surroundings) :
    (∃ found, (l.load s).result = .ok found) ↔ l.standing s = .usable := by
  rcases l.load_cases s with ⟨found, h⟩ | ⟨hnew, h⟩ | ⟨missed, file, found, hnew, h, hfit⟩ |
    ⟨missed, file, found, function, hnew, h, hlacks⟩
  · rw [load_of_loaded h, standing_of_loaded h]
    exact ⟨fun _ => rfl, fun _ => ⟨found, rfl⟩⟩
  · rw [load_of_misses hnew h, standing_of_misses hnew h]
    exact ⟨nofun, nofun⟩
  · rw [load_of_finds hnew h hfit, standing_of_fits h hfit]
    exact ⟨fun _ => rfl, fun _ => ⟨found, rfl⟩⟩
  · rw [load_of_foreign hnew h hlacks, standing_of_foreign hnew h hlacks]
    exact ⟨nofun, nofun⟩

end Library

/-! ## §2 Asking for an engine -/

namespace World

variable {w w' w₁ : World} {kind : EngineKind}

def standing (w : World) (kind : EngineKind) : Standing := (w.library kind).standing w.surroundings

/-- All engines stand as before. -/
def StandsAs (w w' : World) : Prop := ∀ kind, w'.standing kind = w.standing kind

theorem standsAs_withLibrary {l : Library} (h : l.standing w.surroundings = w.standing kind) :
    w.StandsAs (w.withLibrary kind l) := by
  intro other
  cases kind <;> cases other <;> first | exact h | rfl

end World

namespace Action

variable {w : World}

/-- An attempt to load ends as the library says, and leaves the engines standing as they did. -/
theorem on_attemptLoad (kind : EngineKind) (w : World) :
    ∃ w', (attemptLoad kind).on w = (.ok ((w.library kind).load w.surroundings), w') ∧ w.StandsAs w' := by
  have hstands : w.StandsAs (w.withLibrary kind ((w.library kind).load w.surroundings).library) :=
    World.standsAs_withLibrary ((w.library kind).standing_load w.surroundings)
  unfold attemptLoad
  rw [on_bind_of_ok (on_get _)]
  dsimp only
  rw [on_bind_of_ok (on_set _ _)]
  -- a first success is logged, and nothing else
  cases ((w.library kind).load w.surroundings).record? with
  | none => exact ⟨_, rfl, hstands⟩
  | some r => exact ⟨_, rfl, hstands⟩

/-- Asking whether an engine is available tells how it stands, and changes nothing in that. -/
theorem on_isAvailable (kind : EngineKind) (w : World) :
    ∃ w', (isAvailable kind).on w =
      (unlessFault (w.standing kind).fault? (decide (w.standing kind = .usable)), w') ∧ w.StandsAs w' := by
  obtain ⟨w', hrun, hstands⟩ := on_attemptLoad kind w
  refine ⟨w', ?_, hstands⟩
  unfold isAvailable
  rw [on_bind_of_ok hrun, on_lift, Library.available_load]
  rfl

/-- Making sure of an engine succeeds exactly if it is usable. -/
theorem ensureAvailable_eq_ok_iff (kind : EngineKind) (w : World) :
    ((ensureAvailable kind).on w).1 = .ok () ↔ w.standing kind = .usable := by
  obtain ⟨w', hrun, -⟩ := on_attemptLoad kind w
  rw [World.standing, ← Library.load_eq_ok_iff]
  unfold ensureAvailable
  rw [on_bind_of_ok hrun]
  cases ((w.library kind).load w.surroundings).result with
  | error fault => exact ⟨nofun, nofun⟩
  | ok found => exact ⟨fun _ => ⟨found, rfl⟩, fun _ => rfl⟩

/-! ## §3 Choosing among engines -/

/-- The first engine that is not absent decides. -/
theorem on_firstAvailable (kinds : List EngineKind) (w : World) :
    ((firstAvailable kinds).on w).1 =
      match kinds.find? fun kind => w.standing kind ≠ .absent with
      | none => .error .noEngine
      | some kind => unlessFault (w.standing kind).fault? kind := by
  induction kinds generalizing w with
  | nil => rfl
  | cons kind kinds ih =>
    obtain ⟨w', hrun, hstands⟩ := on_isAvailable kind w
    unfold firstAvailable
    -- an engine that is absent is passed over, and asking for it leaves the others where they stood
    cases hkind : w.standing kind with
    | usable =>
      rw [hkind] at hrun
      rw [on_bind_of_ok hrun, List.find?_cons_of_pos (by simp [hkind])]
      simp only [hkind]
      rfl
    | absent =>
      rw [hkind] at hrun
      rw [on_bind_of_ok hrun, List.find?_cons_of_neg (by simp [hkind])]
      simpa [hstands _] using ih w'
    | foreign found function =>
      rw [hkind] at hrun
      rw [on_bind_of_error hrun, List.find?_cons_of_pos (by simp [hkind])]
      simp only [hkind]
      rfl

/-- Going through a list keeps the usable engines, until one has another library in its place. -/
theorem on_filterAuxM_isAvailable (kinds chosen : List EngineKind) (w : World) :
    ((List.filterAuxM isAvailable kinds chosen).on w).1 =
      unlessFault (kinds.findSome? fun kind => (w.standing kind).fault?)
        ((kinds.filter fun kind => w.standing kind = .usable).reverse ++ chosen) := by
  induction kinds generalizing w chosen with
  | nil => rfl
  | cons kind kinds ih =>
    obtain ⟨w', hrun, hstands⟩ := on_isAvailable kind w
    rw [List.filterAuxM]
    cases hkind : w.standing kind with
    | usable =>
      rw [hkind] at hrun
      rw [on_bind_of_ok hrun, ih, List.findSome?_cons, List.filter_cons_of_pos (by simp [hkind]), hkind]
      simp [hstands _, Standing.fault?]
    | absent =>
      rw [hkind] at hrun
      rw [on_bind_of_ok hrun, ih, List.findSome?_cons, List.filter_cons_of_neg (by simp [hkind]), hkind]
      simp [hstands _, Standing.fault?]
    -- the fault escapes, and the engines behind are never asked
    | foreign found function =>
      rw [hkind] at hrun
      rw [on_bind_of_error hrun, List.findSome?_cons, hkind]
      rfl

/-- A list of engines is gone through to its end, unless one of them has another library in its place. -/
theorem on_filterM_isAvailable (kinds : List EngineKind) (w : World) :
    ((kinds.filterM isAvailable).on w).1 =
      unlessFault (kinds.findSome? fun kind => (w.standing kind).fault?)
        (kinds.filter fun kind => w.standing kind = .usable) := by
  -- `filterM` collects in reverse and turns the list round at the end
  have haux := on_filterAuxM_isAvailable kinds [] w
  unfold List.filterM
  rw [on_bind]
  rcases hrun : (List.filterAuxM isAvailable kinds []).on w with ⟨r, w'⟩
  rw [hrun] at haux
  cases hfault : kinds.findSome? fun kind => (w.standing kind).fault? with
  | some fault =>
    rw [hfault] at haux
    obtain rfl : r = .error fault := haux
    rfl
  | none =>
    rw [hfault] at haux
    obtain rfl : r = .ok ((kinds.filter fun kind => w.standing kind = .usable).reverse ++ []) := haux
    simp [unlessFault]

/-- **Choices go by how the engines stand.** Whether an engine is available is answered, and rightly, unless another
library is in its place. The available engines are the usable ones, in the order of preference, unless this is so
for one of the engines. And without a setting the first engine that is not absent is taken, unless this is so
for the first engine; then there is no falling back on the next. -/
theorem choices_by_standing (w : World) (hunset : w.surroundings.setting? EngineChoice.setting = none) :
    (∀ kind, ((isAvailable kind).on w).1 =
        unlessFault (w.standing kind).fault? (decide (w.standing kind = .usable)) ∧
      (((ensureAvailable kind).on w).1 = .ok () ↔ w.standing kind = .usable)) ∧
    (availableEngines.on w).1 =
      unlessFault (EngineKind.all.findSome? fun kind => (w.standing kind).fault?)
        (EngineKind.all.filter fun kind => w.standing kind = .usable) ∧
    (selectDefault.on w).1 =
      match EngineKind.all.find? fun kind => w.standing kind ≠ .absent with
      | none => .error .noEngine
      | some kind => unlessFault (w.standing kind).fault? kind := by
  refine ⟨fun kind => ⟨?_, ensureAvailable_eq_ok_iff kind w⟩, ?_, ?_⟩
  · obtain ⟨w', hrun, -⟩ := on_isAvailable kind w
    rw [hrun]
  · exact on_filterM_isAvailable EngineKind.all w
  · unfold selectDefault
    rw [on_bind_of_ok (on_get w), hunset]
    exact on_firstAvailable _ _

/-- Without a file for the first engine, the second is taken. -/
theorem falls_back_on_absent :
    let w : World := { World.initial with surroundings := ⟨[], [], [("liblpsolve55.so", .lpsolve)]⟩ }
    w.surroundings.setting? EngineChoice.setting = none ∧
      ((isAvailable .glpk).on w).1 = .ok false ∧ (availableEngines.on w).1 = .ok [.lpsolve] ∧
      (selectDefault.on w).1 = .ok .lpsolve := by
  intro w
  have hunset : w.surroundings.setting? EngineChoice.setting = none := by decide
  obtain ⟨hask, hall, hdefault⟩ := choices_by_standing w hunset
  exact ⟨hunset, (hask .glpk).1, hall, hdefault⟩

/-- With the library of the second engine in the place of the first, the second can be used, but is not
found. -/
theorem no_falling_back_on_foreign :
    let w : World := { World.initial with
      surroundings := ⟨[], [], [("libglpk.so.40", .lpsolve), ("liblpsolve55.so", .lpsolve)]⟩ }
    let fault : Fault := .missingMember "LpSolve" "glp_create_prob"
    w.surroundings.setting? EngineChoice.setting = none ∧ ((isAvailable .lpsolve).on w).1 = .ok true ∧
      ((isAvailable .glpk).on w).1 = .error fault ∧ (availableEngines.on w).1 = .error fault ∧
      (selectDefault.on w).1 = .error fault :=
  ⟨rfl, rfl, rfl, rfl, rfl⟩

/-- The same happens with an old library of GLPK that has no branch-and-cut, where the setting leads to it. -/
example :
    let old : SharedLibrary := .other "GLPK" "glp_intopt" "make_lp"
    let w : World := { World.initial with
      surroundings :=
        ⟨[("LPBRIDGE_GLPK_LIBRARY", "/opt/libglpk.so.0")], [],
          [("/opt/libglpk.so.0", old), ("libglpk.so.40", .glpk), ("liblpsolve55.so", .lpsolve)]⟩ }
    (selectDefault.on w).1 = .error (.missingMember "GLPK" "glp_intopt") :=
  rfl

end Action

end LinearProgram
