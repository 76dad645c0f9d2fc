import LinearProgram.Handle.Registry
import LinearProgram.Matrix.Entries
import LinearProgram.Native.Script

/-!
# The lp_solve library

The calls that the layer makes to lp_solve, and the problems that the library keeps. A row of lp_solve
is one-sided or an equation: it has a type and a right-hand side. Matrix entries are set one by one, the
latest one of a position counts. Absolute values from 10 ^ 30 on mean infinity.

`Problem.apply` is the effect of a call on the problem it names, and `Call.function` the name of the
library function behind a call.
-/

namespace LinearProgram.LpSolve

/-! ## §1 Codes -/

/-- The number from which on absolute values mean infinity. -/
def infinity : Float := Float.ofBits 0x46293E5939A08CEA

/-- The row type "at most the right-hand side". -/
def atMost : Int := 1

def atLeast : Int := 2

def equal : Int := 3

/-! ## §2 Problems -/

/-- A column as the library stores it. -/
structure Column where
  name : String
  integer : Bool
  lower : Float
  upper : Float
  objective : Float
deriving DecidableEq

/-- A column that was just added: not negative, without a name. -/
def Column.fresh : Column := ⟨"", false, 0, infinity, 0⟩

/-- A row as the library stores it. -/
structure Row where
  type : Int
  side : Float
deriving DecidableEq

/-- A problem object. `entries` holds the matrix entries in the order of being set. The hooks are the
handles that the log and the abort function are called with. -/
structure Problem where
  name : String
  maximize : Int
  columns : Array Column
  rows : Array Row
  entries : Array Entry
  verbosity : Int
  logHook : Option Handle
  abortHook : Option Handle
  values : RunValues
deriving DecidableEq

/-- A problem that was just created: it sends no messages. -/
def Problem.fresh : Problem := ⟨"", 0, #[], #[], #[], 0, none, none, .none⟩

/-! ## §3 Calls -/

/-- What can be read from a problem. Columns are counted from one; `primal` and `dual` take an index
that counts the rows first and then the columns. -/
inductive Query where
  | name
  | maximize
  | rowCount
  | columnCount
  | columnName (j : Int)
  | columnLower (j : Int)
  | columnUpper (j : Int)
  | objective (j : Int)
  | objectiveValue
  | primal (index : Int)
  | dual (index : Int)
deriving DecidableEq

/-- A call of the library. Problems are named by their numbers; rows and columns are counted from one. A
callback is given by the handle it is to be called with, or by `none` to remove it. -/
inductive Call where
  | create (problem : Nat)
  | delete (problem : Nat)
  | copy (problem source : Nat)
  | setName (problem : Nat) (name : String)
  | setMaximize (problem : Nat) (flag : Int)
  | addColumn (problem : Nat)
  | addRow (problem : Nat) (type : Int) (side : Float)
  | setColumnName (problem : Nat) (j : Int) (name : String)
  | setInteger (problem : Nat) (j flag : Int)
  | setBinary (problem : Nat) (j flag : Int)
  | setUnbounded (problem : Nat) (j : Int)
  | setBounds (problem : Nat) (j : Int) (lower upper : Float)
  | setObjective (problem : Nat) (j : Int) (coefficient : Float)
  | setEntry (problem : Nat) (i j : Int) (value : Float)
  | setRowType (problem : Nat) (i type : Int)
  | setRowSide (problem : Nat) (i : Int) (side : Float)
  | setVerbosity (problem : Nat) (level : Int)
  | setOutput (problem : Nat) (path : String)
  | logHook (problem : Nat) (handle : Option Handle)
  | abortHook (problem : Nat) (handle : Option Handle)
  | solve (problem : Nat)
  | read (problem : Nat) (query : Query)
deriving DecidableEq

namespace Query

def function : Query → String
  | name => "get_lp_name"
  | maximize => "is_maxim"
  | rowCount => "get_Nrows"
  | columnCount => "get_Ncolumns"
  | columnName _ => "get_col_name"
  | columnLower _ => "get_lowbo"
  | columnUpper _ => "get_upbo"
  | objective _ => "get_mat"
  | objectiveValue => "get_objective"
  | primal _ => "get_var_primalresult"
  | dual _ => "get_var_dualresult"

def column? : Query → Option Int
  | columnName j | columnLower j | columnUpper j | objective j => some j
  | _ => none

end Query

namespace Call

def function : Call → String
  | create _ => "make_lp"
  | delete _ => "delete_lp"
  | copy .. => "copy_lp"
  | setName .. => "set_lp_name"
  | setMaximize .. => "set_sense"
  | addColumn _ => "add_columnex"
  | addRow .. => "add_constraintex"
  | setColumnName .. => "set_col_name"
  | setInteger .. => "set_int"
  | setBinary .. => "set_binary"
  | setUnbounded .. => "set_unbounded"
  | setBounds .. => "set_bounds"
  | setObjective .. => "set_obj"
  | setEntry .. => "set_mat"
  | setRowType .. => "set_constr_type"
  | setRowSide .. => "set_rh"
  | setVerbosity .. => "set_verbose"
  | setOutput .. => "set_outputfile"
  | logHook .. => "put_logfunc"
  | abortHook .. => "put_abortfunc"
  | solve _ => "solve"
  | read _ query => query.function

def problems : Call → List Nat
  | create p | delete p | setName p _ | setMaximize p _ | addColumn p | addRow p .. | setColumnName p ..
  | setInteger p .. | setBinary p .. | setUnbounded p _ | setBounds p .. | setObjective p ..
  | setEntry p .. | setRowType p .. | setRowSide p .. | setVerbosity p _ | setOutput p _ | logHook p _
  | abortHook p _ | solve p | read p _ => [p]
  | copy p source => [p, source]

def column? : Call → Option Int
  | setColumnName _ j _ | setInteger _ j _ | setBinary _ j _ | setUnbounded _ j | setBounds _ j ..
  | setObjective _ j _ | setEntry _ _ j _ => some j
  | read _ query => query.column?
  | _ => none

def isRead : Call → Bool
  | read .. => true
  | _ => false

end Call

/-! ## §4 Effects -/

namespace Problem

def column? (p : Problem) (j : Int) : Option Column :=
  if 1 ≤ j then p.columns[(j - 1).toNat]? else none

def modifyColumn (p : Problem) (j : Int) (f : Column → Column) : Problem :=
  if 1 ≤ j then { p with columns := p.columns.modify (j - 1).toNat f } else p

def modifyRow (p : Problem) (i : Int) (f : Row → Row) : Problem :=
  if 1 ≤ i then { p with rows := p.rows.modify (i - 1).toNat f } else p

/-- The matrix entry at a position: the latest one set there, or zero. -/
def entry (p : Problem) (i j : Int) : Float :=
  match p.entries.toList.reverse.find? fun e => e.row == i && e.column == j with
  | some e => e.value
  | none => 0

/-- The effect of a call on the problem that it changes. -/
def apply (p : Problem) : Call → Problem
  | .setName _ name => { p with name := name }
  | .setMaximize _ flag => { p with maximize := flag }
  | .addColumn _ => { p with columns := p.columns.push Column.fresh }
  | .addRow _ type side => { p with rows := p.rows.push ⟨type, side⟩ }
  | .setColumnName _ j name => p.modifyColumn j fun c => { c with name := name }
  | .setInteger _ j flag => p.modifyColumn j fun c => { c with integer := flag != 0 }
  | .setBinary _ j _ => p.modifyColumn j fun c => { c with integer := true, lower := 0, upper := 1 }
  | .setUnbounded _ j => p.modifyColumn j fun c => { c with lower := -infinity, upper := infinity }
  | .setBounds _ j lower upper => p.modifyColumn j fun c => { c with lower := lower, upper := upper }
  | .setObjective _ j coefficient => p.modifyColumn j fun c => { c with objective := coefficient }
  | .setEntry _ i j value => { p with entries := p.entries.push ⟨i, j, value⟩ }
  | .setRowType _ i type => p.modifyRow i fun r => { r with type := type }
  | .setRowSide _ i side => p.modifyRow i fun r => { r with side := side }
  | .setVerbosity _ level => { p with verbosity := level }
  | .logHook _ handle => { p with logHook := handle }
  | .abortHook _ handle => { p with abortHook := handle }
  | _ => p

/-- A copy has everything but the verbosity and the callbacks. -/
def duplicate (p : Problem) : Problem :=
  { p with verbosity := 0, logHook := none, abortHook := none }

end Problem

end LinearProgram.LpSolve
