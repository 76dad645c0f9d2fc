import LinearProgram.Native.Glpk
import LinearProgram.Native.LpSolve

/-!
# The native libraries together

The problems of both libraries in one store. They are numbered in the order of their creation, from one
on, and a number is not used again. The terminal hook belongs to GLPK as a whole, not to a problem.

`Store.apply` is the effect of a call. A call about a problem that does not exist, or no longer, has no
effect.
-/

namespace LinearProgram.Native

/-- A call of one of the libraries. -/
inductive Call where
  | glpk (call : Glpk.Call)
  | lpsolve (call : LpSolve.Call)
deriving DecidableEq

namespace Call

def function : Call → String
  | glpk c => c.function
  | lpsolve c => c.function

def problems : Call → List Nat
  | glpk c => c.problems
  | lpsolve c => c.problems

def column? : Call → Option Int
  | glpk c => c.column?
  | lpsolve c => c.column?

def isRead : Call → Bool
  | glpk c => c.isRead
  | lpsolve c => c.isRead

end Call

/-- What stands at a number: a problem of one of the libraries, or nothing any more. -/
inductive Problem where
  | glpk (problem : Glpk.Problem)
  | lpsolve (problem : LpSolve.Problem)
  | deleted
deriving DecidableEq

/-- The problems in the order of their creation, and the handle that GLPK's terminal hook is called
with. -/
structure Store where
  problems : Array Problem
  terminalHook : Option Handle
deriving DecidableEq

namespace Store

/-- No problems and no hook. -/
def empty : Store := ⟨#[], none⟩

instance : Inhabited Store := ⟨empty⟩

/-- The number of the next problem. -/
def next (s : Store) : Nat := s.problems.size + 1

/-- What stands at a number. -/
def problem? (s : Store) (n : Nat) : Option Problem := if n = 0 then none else s.problems[n - 1]?

def glpk? (s : Store) (n : Nat) : Option Glpk.Problem :=
  match s.problem? n with
  | some (.glpk p) => some p
  | _ => none

def lpsolve? (s : Store) (n : Nat) : Option LpSolve.Problem :=
  match s.problem? n with
  | some (.lpsolve p) => some p
  | _ => none

/-- Change what stands at a number. -/
def modify (s : Store) (n : Nat) (f : Problem → Problem) : Store :=
  if n = 0 then s else { s with problems := s.problems.modify (n - 1) f }

def modifyGlpk (s : Store) (n : Nat) (f : Glpk.Problem → Glpk.Problem) : Store :=
  s.modify n fun
    | .glpk p => .glpk (f p)
    | other => other

def modifyLpSolve (s : Store) (n : Nat) (f : LpSolve.Problem → LpSolve.Problem) : Store :=
  s.modify n fun
    | .lpsolve p => .lpsolve (f p)
    | other => other

def applyGlpk (s : Store) (c : Glpk.Call) : Store :=
  match c with
  | .create _ => { s with problems := s.problems.push (.glpk .fresh) }
  -- the number stays taken, so that no later problem is mistaken for this one
  | .delete p => s.modify p fun _ => .deleted
  | .copy target source _ =>
    match s.glpk? source with
    | some p => s.modifyGlpk target fun _ => p
    | none => s
  | .terminalHook handle => { s with terminalHook := handle }
  | .stopSearch | .read .. => s
  | .setName p _ | .setDirection p _ | .addRows p _ | .addColumns p _ | .setColumnName p ..
  | .setColumnKind p .. | .setColumnBounds p .. | .setRowBounds p .. | .setObjective p ..
  | .loadMatrix p _ | .simplex p .. | .integerSearch p .. => s.modifyGlpk p (·.apply c)

def applyLpSolve (s : Store) (c : LpSolve.Call) : Store :=
  match c with
  | .create _ => { s with problems := s.problems.push (.lpsolve .fresh) }
  | .delete p => s.modify p fun _ => .deleted
  | .copy _ source =>
    match s.lpsolve? source with
    | some p => { s with problems := s.problems.push (.lpsolve p.duplicate) }
    | none => s
  | .read .. => s
  | .setName p _ | .setMaximize p _ | .addColumn p | .addRow p .. | .setColumnName p ..
  | .setInteger p .. | .setBinary p .. | .setUnbounded p _ | .setBounds p .. | .setObjective p ..
  | .setEntry p .. | .setRowType p .. | .setRowSide p .. | .setVerbosity p _ | .setOutput p _
  | .logHook p _ | .abortHook p _ | .solve p => s.modifyLpSolve p (·.apply c)

def apply (s : Store) : Call → Store
  | .glpk c => s.applyGlpk c
  | .lpsolve c => s.applyLpSolve c

end Store

end LinearProgram.Native
