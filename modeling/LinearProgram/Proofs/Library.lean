import LinearProgram.Native.Library

/-!
# What comes of looking for a library

A library is looked for among its candidates. Either none of them can be opened, or one of them is the first
that can, and which of the two it is depends on the surroundings alone. A library that is loaded is not looked
for at all.

From one use the account of any sequence of uses follows, whatever becomes of the files in between: the
uses that find nothing leave no trace, the first that finds something is the last that opens any file.
-/

namespace LinearProgram

namespace Library

variable {l : Library} {s : Surroundings} {files missed rest : List String} {file : String} {found : SharedLibrary}

/-! ## §1 The first candidate that can be opened -/

/-- None of the candidates can be opened. -/
def Misses (l : Library) (s : Surroundings) : Prop :=
  ∀ file ∈ l.candidates s, s.loadable.lookup file = none

/-- The candidates begin with some that cannot be opened, and then comes one that can. -/
structure Finds (l : Library) (s : Surroundings) (missed : List String) (file : String) (found : SharedLibrary) :
    Prop where
  candidates : ∃ rest, l.candidates s = missed ++ file :: rest
  missed : ∀ other ∈ missed, s.loadable.lookup other = none
  file : s.loadable.lookup file = some found

/-- What was found has all functions that the library has to have. -/
def Fits (l : Library) (found : SharedLibrary) : Prop :=
  l.needs.bind found.lacking? = none

instance (l : Library) (found : SharedLibrary) : Decidable (l.Fits found) :=
  inferInstanceAs (Decidable (l.needs.bind found.lacking? = none))

/-- Where no file can be opened, all of them are tried. -/
theorem firstLoadable_of_forall (h : ∀ other ∈ files, s.loadable.lookup other = none) :
    firstLoadable s files = (files, none) := by
  induction files with
  | nil => rfl
  | cons other files ih =>
    rw [firstLoadable, h other List.mem_cons_self]
    simp only [ih fun f hf => h f (List.mem_cons_of_mem _ hf)]

/-- The files are tried up to the first that can be opened. -/
theorem firstLoadable_append (h : ∀ other ∈ missed, s.loadable.lookup other = none)
    (hfile : s.loadable.lookup file = some found) :
    firstLoadable s (missed ++ file :: rest) = (missed, some (file, found)) := by
  induction missed with
  | nil => rw [List.nil_append, firstLoadable, hfile]
  | cons other missed ih =>
    rw [List.cons_append, firstLoadable, h other List.mem_cons_self]
    simp only [ih fun f hf => h f (List.mem_cons_of_mem _ hf)]

/-- In all surroundings the search ends in one of two ways. -/
theorem misses_or_finds (l : Library) (s : Surroundings) :
    l.Misses s ∨ ∃ missed file found, l.Finds s missed file found := by
  by_cases hany : l.Misses s
  · exact .inl hany
  · -- the first candidate that can be opened splits the list
    have hfirst : ((l.candidates s).find? fun f => (s.loadable.lookup f).isSome).isSome := by
      obtain ⟨file, hmem, hopen⟩ : ∃ file ∈ l.candidates s, s.loadable.lookup file ≠ none := by
        simpa [Misses] using hany
      exact List.find?_isSome.mpr ⟨file, hmem, Option.isSome_iff_ne_none.mpr hopen⟩
    obtain ⟨file, hfirst⟩ := Option.isSome_iff_exists.mp hfirst
    obtain ⟨hopen, missed, rest, hsplit, hmissed⟩ := List.find?_eq_some_iff_append.mp hfirst
    obtain ⟨found, hfound⟩ := Option.isSome_iff_exists.mp hopen
    refine .inr ⟨missed, file, found, ⟨rest, hsplit⟩, fun other hother => ?_, hfound⟩
    simpa using hmissed other hother

/-! ## §2 One attempt -/

theorem load_of_loaded (h : l.loaded = some found) (s : Surroundings) : l.load s = ⟨[], none, .ok found, l⟩ := by
  simp only [load, h]

/-- An attempt that finds nothing opens all candidates, and changes nothing. -/
theorem load_of_misses (hnew : l.loaded = none) (h : l.Misses s) :
    l.load s = ⟨l.candidates s, none, .error (.notLoadable l.names l.setting (l.candidates s)), l⟩ := by
  simp only [load, hnew, firstLoadable_of_forall h]

/-- An attempt that finds a library with the needed functions stops there, and keeps it. -/
theorem load_of_finds (hnew : l.loaded = none) (h : l.Finds s missed file found) (hfit : l.Fits found) :
    l.load s = ⟨missed ++ [file], some file, .ok found,
      { l with loaded := some found, prepared := l.prepared + 1 }⟩ := by
  obtain ⟨⟨rest, hsplit⟩, hmissed, hfile⟩ := h
  unfold Fits at hfit
  simp only [load, hnew, hsplit, firstLoadable_append hmissed hfile, hfit]

/-- An attempt that comes upon a library without some function stops there all the same, and keeps nothing. -/
theorem load_of_foreign {function : String} (hnew : l.loaded = none) (h : l.Finds s missed file found)
    (hlacks : l.needs.bind found.lacking? = some function) :
    l.load s = ⟨missed ++ [file], none, .error (.missingMember found.libraryName function), l⟩ := by
  obtain ⟨⟨rest, hsplit⟩, hmissed, hfile⟩ := h
  simp only [load, hnew, hsplit, firstLoadable_append hmissed hfile, hlacks]

/-! ## §3 Sequences of uses -/

/-- What is asked of a library: to be loaded, or whether it is available. -/
inductive Use where
  | load
  | available
deriving DecidableEq

/-- The answer to a use. -/
inductive Answer where
  | library (result : Except Fault SharedLibrary)
  | available (result : Except Fault Bool)

namespace Use

/-- The answer that an attempt gives to a use. -/
def answer (u : Use) (a : LoadAttempt) : Answer :=
  match u with
  | load => .library a.result
  | available => .available (Library.available a)

/-- The answer when a library is at hand. -/
def granted (u : Use) (found : SharedLibrary) : Answer :=
  match u with
  | load => .library (.ok found)
  | available => .available (.ok true)

/-- The answer when there is none, with the files that could not be opened. -/
def refused (u : Use) (l : Library) (tried : List String) : Answer :=
  match u with
  | load => .library (.error (.notLoadable l.names l.setting tried))
  | available => .available (.ok false)

end Use

/-- A use as it is seen from outside: the files that are opened, in order, the answer, and how often a library
has been prepared so far. -/
structure Report where
  tried : List String
  answer : Answer
  prepared : Nat

/-- What the uses of a library report, one after the other, each in its own surroundings. -/
def reports (l : Library) : List (Use × Surroundings) → List Report
  | [] => []
  | u :: us =>
    let attempt := l.load u.2
    ⟨attempt.tried, u.1.answer attempt, attempt.library.prepared⟩ :: attempt.library.reports us

/-- Every candidate that can be opened has the needed functions. -/
def Suited (l : Library) (s : Surroundings) : Prop :=
  ∀ file ∈ l.candidates s, ∀ found ∈ s.loadable.lookup file, l.Fits found

instance (l : Library) (s : Surroundings) : Decidable (l.Suited s) :=
  inferInstanceAs (Decidable (∀ file ∈ l.candidates s, ∀ found ∈ s.loadable.lookup file, l.Fits found))

theorem Finds.fits (h : l.Finds s missed file found) (hs : l.Suited s) : l.Fits found := by
  obtain ⟨rest, hsplit⟩ := h.candidates
  exact hs file (hsplit ▸ List.mem_append_right _ List.mem_cons_self) found h.file

/-- A loaded library opens nothing any more. -/
theorem reports_of_loaded (h : l.loaded = some found) (us : List (Use × Surroundings)) :
    l.reports us = us.map fun u => ⟨[], u.1.granted found, l.prepared⟩ := by
  induction us with
  | nil => rfl
  | cons u us ih =>
    obtain ⟨use, s⟩ := u
    rw [reports, load_of_loaded h, List.map_cons, ih]
    cases use <;> rfl

/-- What a new library reports over a sequence of uses. While no candidate can be opened, every use tries all
of them and fails with the list of what it tried. The first use that finds one opens the candidates as far as this
one, and prepares it. All later uses get the same library, open nothing and prepare nothing, whatever has become
of the files. -/
inductive Account (l : Library) : List (Use × Surroundings) → List Report → Prop where
  | missed {us : List (Use × Surroundings)} (hus : ∀ u ∈ us, l.Misses u.2) :
      Account l us (us.map fun u => ⟨l.candidates u.2, u.1.refused l (l.candidates u.2), 0⟩)
  | found {early late : List (Use × Surroundings)} {u : Use × Surroundings} {missed : List String}
      {file : String} {library : SharedLibrary} (hearly : ∀ v ∈ early, l.Misses v.2)
      (hu : l.Finds u.2 missed file library) :
      Account l (early ++ u :: late)
        ((early.map fun v => ⟨l.candidates v.2, v.1.refused l (l.candidates v.2), 0⟩) ++
          ⟨missed ++ [file], u.1.granted library, 1⟩ :: late.map fun v => ⟨[], v.1.granted library, 1⟩)

/-- A use that finds nothing may stand before any account. -/
theorem Account.cons {u : Use × Surroundings} {us : List (Use × Surroundings)} {rs : List Report}
    (hu : l.Misses u.2) (h : l.Account us rs) :
    l.Account (u :: us) (⟨l.candidates u.2, u.1.refused l (l.candidates u.2), 0⟩ :: rs) := by
  cases h with
  | missed hus => exact .missed (List.forall_mem_cons.mpr ⟨hu, hus⟩)
  | found hearly hv => exact .found (List.forall_mem_cons.mpr ⟨hu, hearly⟩) hv

/-- **A failure is forgotten, a success is kept**, over every sequence of uses. -/
theorem reports_account (l : Library) (hnew : l.loaded = none) (hunprepared : l.prepared = 0)
    (us : List (Use × Surroundings)) (hsuited : ∀ u ∈ us, l.Suited u.2) : l.Account us (l.reports us) := by
  induction us with
  | nil => exact .missed nofun
  | cons u us ih =>
    obtain ⟨use, s⟩ := u
    obtain ⟨hs, hrest⟩ := List.forall_mem_cons.mp hsuited
    rcases l.misses_or_finds s with hmiss | ⟨missed, file, found, hfind⟩
    · -- the use changes nothing, and the rest is as if it had not been
      have hfirst : l.reports ((use, s) :: us) =
          ⟨l.candidates s, use.refused l (l.candidates s), 0⟩ :: l.reports us := by
        rw [reports, load_of_misses hnew hmiss, hunprepared]
        cases use <;> rfl
      rw [hfirst]
      exact (ih hrest).cons hmiss
    · have hreports : l.reports ((use, s) :: us) =
          ⟨missed ++ [file], use.granted found, 1⟩ :: us.map fun v => ⟨[], v.1.granted found, 1⟩ := by
        rw [reports, load_of_finds hnew hfind (hfind.fits hs), reports_of_loaded rfl, hunprepared]
        cases use <;> rfl
      rw [hreports]
      exact @Account.found l [] us (use, s) missed file found nofun hfind

/-- A library of which neither a setting nor the system's search knows, then one that is found by its name although
the path of the setting leads nowhere, then the same one after its file is gone. -/
theorem account_of_late_file :
    let l : Library := ⟨"LPBRIDGE_X_LIBRARY", ["x", "y"], ["liby.so", "liby.so.1"], none, none, 0⟩
    let bare : Surroundings := ⟨[], [], []⟩
    let late : Surroundings :=
      ⟨[("LPBRIDGE_X_LIBRARY", "/opt/y.so")], [("x", ""), ("y", "liby.so.1")], [("liby.so.1", .lpsolve)]⟩
    (∀ u ∈ [(Use.available, bare), (.load, bare), (.load, late), (.available, bare)], l.Suited u.2) ∧
      l.Account [(.available, bare), (.load, bare), (.load, late), (.available, bare)]
        [⟨["liby.so", "liby.so.1"], .available (.ok false), 0⟩,
         ⟨["liby.so", "liby.so.1"],
          .library (.error (.notLoadable ["x", "y"] "LPBRIDGE_X_LIBRARY" ["liby.so", "liby.so.1"])), 0⟩,
         ⟨["/opt/y.so", "liby.so.1"], .library (.ok .lpsolve), 1⟩,
         ⟨[], .available (.ok true), 1⟩] :=
  ⟨by decide, reports_account _ rfl rfl _ (by decide)⟩

end Library

end LinearProgram
