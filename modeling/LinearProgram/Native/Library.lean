import LinearProgram.Fault
import LinearProgram.Log

/-!
# Finding a native library

An engine needs a shared library. It is looked for at the path that a setting names, then where the
system's search finds one of the library's names, then under the literal file names; the first candidate
that can be opened is taken, prepared once, and kept. A failure is not kept: the next attempt starts
anew.

A library that can be opened may still lack functions of the engine, when it is some other library under
the expected name, or an old one. Preparing it fails then, and it is not kept.
-/

namespace LinearProgram

/-! ## §1 Engines by kind -/

/-- The two native solvers, in the order of preference. -/
inductive EngineKind where
  | glpk
  | lpsolve
deriving DecidableEq, Repr

namespace EngineKind

def all : List EngineKind := [glpk, lpsolve]

/-- The name by which an engine is chosen. -/
def name : EngineKind → String
  | glpk => "glpk"
  | lpsolve => "lpsolve"

/-- Whether a row that is bounded on neither side is stored; otherwise it is dropped. -/
def storesFreeRows : EngineKind → Bool
  | glpk => true
  | lpsolve => false

/-- Whether a solve follows the method that it is given. -/
def selectsMethod : EngineKind → Bool
  | glpk => true
  | lpsolve => false

/-- The function that is looked up first when the library is prepared. -/
def firstFunction : EngineKind → String
  | glpk => "glp_create_prob"
  | lpsolve => "make_lp"

end EngineKind

/-! ## §2 Surroundings -/

/-- A library that a file may turn out to be: that of an engine, or one that serves neither of them. Of such a
library `glpkLacks` and `lpsolveLacks` are the first functions that it does not have, in the order in which
the engines look them up. -/
inductive SharedLibrary where
  | glpk
  | lpsolve
  | other (name glpkLacks lpsolveLacks : String)
deriving DecidableEq, Repr

namespace SharedLibrary

def libraryName : SharedLibrary → String
  | glpk => "GLPK"
  | lpsolve => "LpSolve"
  | other name .. => name

/-- The first function of an engine that a library lacks. The libraries of the engines have all of their own
functions and none of each other's. -/
def lacking? : SharedLibrary → EngineKind → Option String
  | glpk, .glpk | lpsolve, .lpsolve => none
  | glpk, needed | lpsolve, needed => some needed.firstFunction
  | other _ glpkLacks _, .glpk => some glpkLacks
  | other _ _ lpsolveLacks, .lpsolve => some lpsolveLacks

/-- The library of an engine. -/
def ofEngine : EngineKind → SharedLibrary
  | .glpk => glpk
  | .lpsolve => lpsolve

/-- Files that are libraries of the engines. -/
instance : Coe (List (String × EngineKind)) (List (String × SharedLibrary)) :=
  ⟨List.map fun (file, kind) => (file, ofEngine kind)⟩

end SharedLibrary

/-- What the search for libraries depends on: settings of the process, what the system's search finds
for a name, and the files that can be opened, with the library that each is. -/
structure Surroundings where
  settings : List (String × String)
  found : List (String × String)
  loadable : List (String × SharedLibrary)
deriving DecidableEq

namespace Surroundings

/-- No settings, nothing found, and both libraries under their usual file names. -/
def standard : Surroundings :=
  ⟨[], [], [("libglpk.so.40", .glpk), ("liblpsolve55.so", .lpsolve)]⟩

instance : Inhabited Surroundings := ⟨standard⟩

/-- A setting of the process; an empty one counts as absent. -/
def setting? (s : Surroundings) (name : String) : Option String :=
  match s.settings.lookup name with
  | some value => if value.isEmpty then none else some value
  | none => none

/-- Where the system's search finds a name. -/
def find? (s : Surroundings) (name : String) : Option String :=
  match s.found.lookup name with
  | some path => if path.isEmpty then none else some path
  | none => none

end Surroundings

/-! ## §3 Libraries -/

/-- A library that is loaded when first needed. `needs` is the engine whose functions it has to have,
`loaded` what was loaded, and `prepared` counts how often a library was prepared. -/
structure Library where
  setting : String
  names : List String
  files : List String
  needs : Option EngineKind
  loaded : Option SharedLibrary
  prepared : Nat
deriving DecidableEq

/-- An attempt to load: the files opened in order, the one that was loaded now, the result, and the
library afterwards. -/
structure LoadAttempt where
  tried : List String
  opened : Option String
  result : Except Fault SharedLibrary
  library : Library

/-- What the log gets of an attempt: a library that was loaded now is named. -/
def LoadAttempt.record? (a : LoadAttempt) : Option LogRecord :=
  a.opened.map fun file => ⟨LogRecord.debug, "lpbridge.backends.base", "loaded " ++ file⟩

namespace Library

/-- The library of an engine, not loaded. -/
def ofEngine : EngineKind → Library
  | .glpk =>
    { setting := "LPBRIDGE_GLPK_LIBRARY", names := ["glpk"]
      files := ["libglpk.so.40", "libglpk.so.36", "libglpk.so", "libglpk.dylib", "glpk.dll"]
      needs := some .glpk, loaded := none, prepared := 0 }
  | .lpsolve =>
    { setting := "LPBRIDGE_LPSOLVE_LIBRARY", names := ["lpsolve55"]
      files := ["liblpsolve55.so", "liblpsolve55.dylib", "lpsolve55.dll"]
      needs := some .lpsolve, loaded := none, prepared := 0 }

def candidates (l : Library) (s : Surroundings) : List String :=
  (s.setting? l.setting).toList ++ l.names.filterMap s.find? ++ l.files

/-- Split the candidates into those that cannot be opened, at the start, and the first that can, with
the library it is. -/
def firstLoadable (s : Surroundings) : List String → List String × Option (String × SharedLibrary)
  | [] => ([], none)
  | file :: rest =>
    match s.loadable.lookup file with
    | some found => ([], some (file, found))
    | none =>
      let (failed, hit) := firstLoadable s rest
      (file :: failed, hit)

/-- Load the library, unless it is loaded. -/
def load (l : Library) (s : Surroundings) : LoadAttempt :=
  match l.loaded with
  | some found => ⟨[], none, .ok found, l⟩
  | none =>
    let (failed, hit) := firstLoadable s (l.candidates s)
    match hit with
    | none => ⟨failed, none, .error (.notLoadable l.names l.setting failed), l⟩
    | some (file, found) =>
      let tried := failed ++ [file]
      match l.needs.bind found.lacking? with
      | none => ⟨tried, some file, .ok found, { l with loaded := some found, prepared := l.prepared + 1 }⟩
      -- a library that lacks a function opens, but cannot be prepared
      | some function => ⟨tried, none, .error (.missingMember found.libraryName function), l⟩

/-- Whether an attempt shows the library to be available. A library without the needed functions is not
merely unavailable: its fault is passed on. -/
def available (a : LoadAttempt) : Except Fault Bool :=
  match a.result with
  | .ok _ => .ok true
  | .error (.notLoadable ..) => .ok false
  | .error fault => .error fault

end Library

end LinearProgram
