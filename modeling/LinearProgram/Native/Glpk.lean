import LinearProgram.Handle.Registry
import LinearProgram.Matrix.Entries
import LinearProgram.Native.Script

/-!
# The GLPK library

The calls that the layer makes to GLPK, and the problems that the library keeps. A problem stores what
it is told: its name and direction, its columns with name, kind, bounds and objective coefficient, its
rows with their bounds, and the matrix that was loaded last.

`Problem.apply` is the effect of a call on the problem it names, and `Call.function` the name of the
library function behind a call.
-/

namespace LinearProgram.Glpk

/-! ## §1 Codes -/

/-- The library's code of a direction. -/
def directionCode : Direction → Int
  | .minimize => 1
  | .maximize => 2

def kindCode : VariableKind → Int
  | .continuous => 1
  | .integer => 2
  | .binary => 3

def boundCode : BoundKind → Int
  | .free => 1
  | .lower => 2
  | .upper => 3
  | .double => 4
  | .fixed => 5

def boundKind (code : Int) : Except Fault BoundKind :=
  if code = 1 then .ok .free
  else if code = 2 then .ok .lower
  else if code = 3 then .ok .upper
  else if code = 4 then .ok .double
  else if code = 5 then .ok .fixed
  else .error (.unknownCode code)

theorem boundKind_boundCode (k : BoundKind) : boundKind (boundCode k) = .ok k := by cases k <;> rfl

/-! ## §2 Problems -/

/-- A column as the library stores it. -/
structure Column where
  name : String
  kind : Int
  bound : Int
  lower : Float
  upper : Float
  objective : Float
deriving DecidableEq

/-- A column that was just added: continuous, fixed at zero, without a name. -/
def Column.fresh : Column := ⟨"", 1, 5, 0, 0, 0⟩

/-- A row as the library stores it. -/
structure Row where
  bound : Int
  lower : Float
  upper : Float
deriving DecidableEq

/-- A row that was just added: free. -/
def Row.fresh : Row := ⟨1, 0, 0⟩

/-- A problem object. `status` and `integerStatus` are those of the last runs. -/
structure Problem where
  name : String
  direction : Int
  columns : Array Column
  rows : Array Row
  matrix : Triplets
  status : Int
  integerStatus : Int
  values : RunValues
deriving DecidableEq

/-- A problem that was just created. -/
def Problem.fresh : Problem := ⟨"", 1, #[], #[], ⟨[0], [0], [0]⟩, 1, 1, .none⟩

/-! ## §3 Calls -/

/-- What can be read from a problem. Columns are counted from one. -/
inductive Query where
  | name
  | direction
  | rowCount
  | columnCount
  | columnName (j : Int)
  | columnBound (j : Int)
  | columnLower (j : Int)
  | columnUpper (j : Int)
  | objective (j : Int)
  | status
  | integerStatus
  | objectiveValue
  | integerObjectiveValue
  | primal (j : Int)
  | dual (j : Int)
  | integerPrimal (j : Int)
deriving DecidableEq

/-- A call of the library. Problems are named by their numbers; rows and columns are counted from one. A
callback is given by the handle it is to be called with, or by `none` to remove it. -/
inductive Call where
  | create (problem : Nat)
  | delete (problem : Nat)
  | copy (target source : Nat) (names : Int)
  | setName (problem : Nat) (name : String)
  | setDirection (problem : Nat) (code : Int)
  | addRows (problem : Nat) (count : Int)
  | addColumns (problem : Nat) (count : Int)
  | setColumnName (problem : Nat) (j : Int) (name : String)
  | setColumnKind (problem : Nat) (j code : Int)
  | setColumnBounds (problem : Nat) (j code : Int) (lower upper : Float)
  | setRowBounds (problem : Nat) (i code : Int) (lower upper : Float)
  | setObjective (problem : Nat) (j : Int) (coefficient : Float)
  | loadMatrix (problem : Nat) (matrix : Triplets)
  | simplex (problem : Nat) (messageLevel presolve : Int)
  | integerSearch (problem : Nat) (messageLevel presolve : Int) (callback : Option Handle)
  | stopSearch
  | terminalHook (handle : Option Handle)
  | read (problem : Nat) (query : Query)
deriving DecidableEq

namespace Query

def function : Query → String
  | name => "glp_get_prob_name"
  | direction => "glp_get_obj_dir"
  | rowCount => "glp_get_num_rows"
  | columnCount => "glp_get_num_cols"
  | columnName _ => "glp_get_col_name"
  | columnBound _ => "glp_get_col_type"
  | columnLower _ => "glp_get_col_lb"
  | columnUpper _ => "glp_get_col_ub"
  | objective _ => "glp_get_obj_coef"
  | status => "glp_get_status"
  | integerStatus => "glp_mip_status"
  | objectiveValue => "glp_get_obj_val"
  | integerObjectiveValue => "glp_mip_obj_val"
  | primal _ => "glp_get_col_prim"
  | dual _ => "glp_get_col_dual"
  | integerPrimal _ => "glp_mip_col_val"

def column? : Query → Option Int
  | columnName j | columnBound j | columnLower j | columnUpper j | objective j | primal j | dual j
  | integerPrimal j => some j
  | _ => none

end Query

namespace Call

def function : Call → String
  | create _ => "glp_create_prob"
  | delete _ => "glp_delete_prob"
  | copy .. => "glp_copy_prob"
  | setName .. => "glp_set_prob_name"
  | setDirection .. => "glp_set_obj_dir"
  | addRows .. => "glp_add_rows"
  | addColumns .. => "glp_add_cols"
  | setColumnName .. => "glp_set_col_name"
  | setColumnKind .. => "glp_set_col_kind"
  | setColumnBounds .. => "glp_set_col_bnds"
  | setRowBounds .. => "glp_set_row_bnds"
  | setObjective .. => "glp_set_obj_coef"
  | loadMatrix .. => "glp_load_matrix"
  | simplex .. => "glp_simplex"
  | integerSearch .. => "glp_intopt"
  | stopSearch => "glp_ios_terminate"
  | terminalHook _ => "glp_term_hook"
  | read _ query => query.function

def problems : Call → List Nat
  | create p | delete p | setName p _ | setDirection p _ | addRows p _ | addColumns p _
  | setColumnName p .. | setColumnKind p .. | setColumnBounds p .. | setRowBounds p ..
  | setObjective p .. | loadMatrix p _ | simplex p .. | integerSearch p .. | read p _ => [p]
  | copy target source _ => [target, source]
  | stopSearch | terminalHook _ => []

def column? : Call → Option Int
  | setColumnName _ j _ | setColumnKind _ j _ | setColumnBounds _ j .. | setObjective _ j _ => some j
  | read _ query => query.column?
  | _ => none

def isRead : Call → Bool
  | read .. => true
  | _ => false

end Call

/-! ## §4 Effects -/

namespace Problem

def column? (p : Problem) (j : Int) : Option Column :=
  if 1 ≤ j then p.columns[(j - 1).toNat]? else none

def modifyColumn (p : Problem) (j : Int) (f : Column → Column) : Problem :=
  if 1 ≤ j then { p with columns := p.columns.modify (j - 1).toNat f } else p

def modifyRow (p : Problem) (i : Int) (f : Row → Row) : Problem :=
  if 1 ≤ i then { p with rows := p.rows.modify (i - 1).toNat f } else p

/-- The effect of a call on the problem that it changes. Declaring a column binary also bounds it by
zero and one. -/
def apply (p : Problem) : Call → Problem
  | .setName _ name => { p with name := name }
  | .setDirection _ code => { p with direction := code }
  | .addRows _ count => { p with rows := p.rows ++ Array.replicate count.toNat Row.fresh }
  | .addColumns _ count => { p with columns := p.columns ++ Array.replicate count.toNat Column.fresh }
  | .setColumnName _ j name => p.modifyColumn j fun c => { c with name := name }
  | .setColumnKind _ j code =>
    p.modifyColumn j fun c =>
      if code = 3 then { c with kind := code, bound := 4, lower := 0, upper := 1 }
      else { c with kind := code }
  | .setColumnBounds _ j code lower upper =>
    p.modifyColumn j fun c => { c with bound := code, lower := lower, upper := upper }
  | .setRowBounds _ i code lower upper =>
    p.modifyRow i fun _ => { bound := code, lower := lower, upper := upper }
  | .setObjective _ j coefficient => p.modifyColumn j fun c => { c with objective := coefficient }
  | .loadMatrix _ matrix => { p with matrix := matrix }
  | _ => p

end Problem

end LinearProgram.Glpk
