import LinearProgram.Text.Quoted

/-!
# Outcomes of a solve

What an engine reports when the native solver has come back. An outcome either leaves a usable solution
behind, with a status, or is one of twelve failures. A native code that the engine's tables do not know
is kept with the name of the engine that returned it.
-/

namespace LinearProgram

/-! ## §1 Outcomes -/

/-- Status of a usable solution. -/
inductive SolveStatus where
  | optimal
  | suboptimal
deriving DecidableEq, Repr

/-- Why a solve left no usable solution. -/
inductive SolveFailure where
  | infeasible
  | unbounded
  | degenerate
  | numericalFailure
  | userAbort
  | timeout
  | branchCutFail
  | branchCutBreak
  | feasibleFound
  | noFeasibleFound
  | noMemory
  | presolved
deriving DecidableEq, Repr

/-- The outcome of a solve, in the same words for every engine. -/
inductive Outcome where
  | solved (status : SolveStatus)
  | failed (failure : SolveFailure)
deriving DecidableEq, Repr

/-- What an engine reports: a known outcome, or a native code outside its documented set. -/
inductive EngineReport where
  | known (outcome : Outcome)
  | undocumented (engine : String) (code : Int)
deriving DecidableEq, Repr

/-! ## §2 Their names -/

def SolveStatus.name : SolveStatus → String
  | .optimal => "optimal"
  | .suboptimal => "suboptimal"

def SolveFailure.name : SolveFailure → String
  | .infeasible => "infeasible"
  | .unbounded => "unbounded"
  | .degenerate => "degenerate"
  | .numericalFailure => "numerical_failure"
  | .userAbort => "user_abort"
  | .timeout => "timeout"
  | .branchCutFail => "branch_cut_fail"
  | .branchCutBreak => "branch_cut_break"
  | .feasibleFound => "feasible_found"
  | .noFeasibleFound => "no_feasible_found"
  | .noMemory => "no_memory"
  | .presolved => "presolved"

def SolveFailure.message : SolveFailure → String
  | .infeasible => "model is infeasible"
  | .unbounded => "model is unbounded"
  | .degenerate => "model is degenerate"
  | .numericalFailure => "numerical failure while solving"
  | .userAbort => "aborted by user abort function"
  | .timeout => "timeout occurred before any integer solution could be found"
  | .branchCutFail => "branch-and-cut failure"
  | .branchCutBreak => "branch-and-cut stopped at breakpoint"
  | .feasibleFound => "feasible but non-integer solution found"
  | .noFeasibleFound => "no feasible solution found"
  | .noMemory => "ran out of memory while solving"
  | .presolved => "model was presolved"

/-- Every failure, once. -/
def SolveFailure.all : List SolveFailure :=
  [.infeasible, .unbounded, .degenerate, .numericalFailure, .userAbort, .timeout, .branchCutFail,
    .branchCutBreak, .feasibleFound, .noFeasibleFound, .noMemory, .presolved]

namespace Outcome

def name : Outcome → String
  | .solved s => s.name
  | .failed f => f.name

/-- Every outcome, once, the usable ones first. -/
def all : List Outcome :=
  [.solved .optimal, .solved .suboptimal] ++ SolveFailure.all.map .failed

def isSuccess : Outcome → Bool
  | .solved _ => true
  | .failed _ => false

end Outcome

/-- The report as it stands in the log. -/
def EngineReport.display : EngineReport → String
  | .known o => "Outcome." ++ o.name.toUpper
  | .undocumented engine code =>
    "UnexpectedOutcome(backend=" ++ Text.quoted engine ++ ", code=" ++ toString code ++ ")"

end LinearProgram
