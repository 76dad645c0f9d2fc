import LinearProgram.Datum
import LinearProgram.Outcome
import LinearProgram.Position

/-!
# Faults

Every way in which an operation of the layer can be refused or fail. A `Fault` is a cause with the data
that its message needs; `message?` writes the message, `kind` says which family the fault belongs to,
and `FaultKind.ancestors` lists the families that contain a family, down to the most general one. The last
section holds the conversions of numbers that may fail.
-/

namespace LinearProgram

/-! ## §1 Families of faults -/

/-- Why a context is done. -/
inductive Interruption where
  | canceled
  | deadlineExceeded
deriving DecidableEq, Repr

def Interruption.message : Interruption → String
  | .canceled => "context canceled"
  | .deadlineExceeded => "context deadline exceeded"

/-- The families of faults. Those of the first group are general, the others belong to the layer. -/
inductive FaultKind where
  | object
  | signal
  | fault
  | runtime
  | value
  | type
  | arithmetic
  | overflow
  | lookup
  | missingKey
  | missingIndex
  | missingAttribute
  | outOfMemory
  | layer
  | validation
  | unsupported
  | option
  | unavailable
  | closed
  | stale
  | interruption
  | interrupted (cause : Interruption)
  | unsolved
  | failure (cause : SolveFailure)
  | contract
  | reference
deriving DecidableEq, Repr

namespace FaultKind

/-- The families that directly contain a family. -/
def parents : FaultKind → List FaultKind
  | object => []
  | signal => [object]
  | fault => [signal]
  | runtime | value | type | arithmetic | lookup | missingAttribute | outOfMemory | layer
  | reference => [fault]
  | overflow => [arithmetic]
  | missingKey | missingIndex => [lookup]
  | validation => [layer, value]
  | unsupported | option => [layer]
  | unavailable | closed | stale => [layer, runtime]
  | interruption | unsolved => [layer]
  | interrupted _ => [interruption]
  | failure _ => [unsolved]
  | contract => [runtime]

/-- How many steps lead from a family to the most general one, at most. -/
def depth : FaultKind → Nat
  | object => 0
  | signal => 1
  | fault => 2
  | runtime | value | type | arithmetic | lookup | missingAttribute | outOfMemory | layer
  | reference => 3
  | overflow | missingKey | missingIndex => 4
  | validation | unsupported | option | unavailable | closed | stale | interruption | unsolved => 4
  | interrupted _ | failure _ => 5
  | contract => 4

/-- A family lies deeper than those that contain it, so that going from parent to parent ends. -/
theorem depth_lt_of_mem_parents {k p : FaultKind} (h : p ∈ k.parents) : p.depth < k.depth := by
  cases k <;> simp only [parents, List.mem_cons, List.not_mem_nil, or_false] at h
  all_goals first
    | (subst h; simp [depth])
    | (rcases h with rfl | rfl <;> simp [depth])

/-- The family and all that contain it, each as often as there are ways that lead to it. -/
def reach (k : FaultKind) : List FaultKind :=
  k :: k.parents.attach.flatMap fun ⟨p, _⟩ => reach p
termination_by k.depth
decreasing_by exact depth_lt_of_mem_parents ‹_›

/-- The family and all families that contain it, each once. -/
def ancestors (k : FaultKind) : List FaultKind := k.reach.eraseDups

/-- What a fault of the family says when it is given no text, or none but the empty one. -/
def standardMessage : FaultKind → String
  | interruption => "context error"
  | interrupted cause => cause.message
  | unsolved => "solve failed"
  | failure cause => cause.message
  | _ => ""

/-- The text of a fault of the family that was given `message`. -/
def textOf (k : FaultKind) (message : Option String) : String :=
  match message with
  | some m => if m.isEmpty then k.standardMessage else m
  | none => k.standardMessage

def outcome? : FaultKind → Option Outcome
  | failure cause => some (.failed cause)
  | _ => none

def isUnsolved : FaultKind → Bool
  | unsolved | failure _ => true
  | _ => false

end FaultKind

/-! ## §2 Causes -/

/-- What a native library could not allocate. -/
inductive Allocation where
  | problem
  | copy
  | column
  | row
deriving DecidableEq, Repr

/-- What cannot be reduced in number. -/
inductive Counted where
  | vars
  | columns
  | rows
deriving DecidableEq, Repr

/-- The causes of refusal and failure. -/
inductive Fault where
  | nanBound (lower upper : Float)
  | unknownChoice (shown choice : String)
  | nameTaken (name : String)
  | nameTooLong (name : String)
  | notVariable (found : String)
  | foreignVariable (shown : String)
  | unsolvedVariable (shown : String)
  | lengthsDiffer (vars coefficients : Nat)
  | rowVectorLength (rows : Nat)
  | columnVectorLength (columns : Nat)
  | unknownEngine (shown : String)
  | reduced (what : Counted)
  | noIntegerDuals
  | option (cause : Fault)
  | notLoadable (names : List String) (setting : String) (tried : List String)
  | engineUnavailable (name : String)
  | noEngine
  | missingMember (owner member : String)
  | unknownCode (code : Int)
  | closed
  | stale
  | interrupted (cause : Interruption)
  | interruptedSolve (cause : Interruption)
  | unsolved (cause : SolveFailure)
  | undocumented (engine : String) (code : Int)
  | entryLengths (columns values : Nat)
  | rangeRow
  | nanInteger
  | outOfRange
  | malformedMatrix
  | unequalRows (rows : Nat)
  | negativeDimension
  | hugeDimension
  | hugeTable
  | hugePointers
  | notMatrix
  | noPrinter (found : String)
  | notParameters (found : String)
  | notCallable (found : String)
  | unknownArgument (name : String)
  | repeatedArgument (name : String)
  | notFamily (found : String)
  | notDictionary (found : String)
  | fixedAttribute (name : String)
  | unknownHandle (handle : Int)
  | nullHandle
  | noSlot
  | noMemory (what : Allocation)
  | noItem (index : Int)
  | noItemToReplace (index : Int)
  | unknownReference (position : Int)
  | raised (text : String)
deriving DecidableEq

namespace Fault

def kind : Fault → FaultKind
  | nanBound .. | nameTaken _ | nameTooLong _ | notVariable _ | foreignVariable _ | unsolvedVariable _
  | lengthsDiffer .. | rowVectorLength _ | columnVectorLength _ | unknownEngine _ => .validation
  | unknownChoice .. | entryLengths .. | rangeRow | nanInteger | malformedMatrix | unequalRows _
  | negativeDimension | hugeDimension | hugeTable | hugePointers => .value
  | reduced _ | noIntegerDuals => .unsupported
  | option _ => .option
  | notLoadable .. | engineUnavailable _ | noEngine => .unavailable
  | missingMember .. | fixedAttribute _ => .missingAttribute
  | closed => .closed
  | stale => .stale
  | interrupted c | interruptedSolve c => .interrupted c
  | unsolved c => .failure c
  | undocumented .. => .contract
  | outOfRange | noSlot => .overflow
  | notMatrix | noPrinter _ | notParameters _ | notCallable _ | unknownArgument _ | repeatedArgument _
  | notFamily _ | notDictionary _ => .type
  | unknownHandle _ | nullHandle | unknownCode _ => .missingKey
  | noMemory _ => .outOfMemory
  | noItem _ | noItemToReplace _ => .missingIndex
  | unknownReference _ => .reference
  | raised _ => .runtime

/-- The fault that led to this one, where the two are chained. -/
def cause? : Fault → Option Fault
  | option cause => some cause
  | interruptedSolve _ => some (.unsolved .userAbort)
  | _ => none

def hexHandle (h : Int) : String :=
  (if h < 0 then "-0x" else "0x") ++ Text.hex 1 h.natAbs

/-- The name of a type, a member or an argument between quotes. Nothing in it is escaped. -/
def named (name : String) : String := "'" ++ name ++ "'"

/-- What is said of an index that has more than 64 bits. -/
def hugeIndex : String := "cannot fit 'int' into an index-sized integer"

/-- The text of a fault; `none` for those that carry no text of their own. -/
def message? : Fault → Option String
  | nanBound lower upper =>
    some ("bounds must not be NaN: (" ++ Double.text lower ++ ", " ++ Double.text upper ++ ")")
  | unknownChoice shown choice => some (shown ++ " is not a valid " ++ choice)
  | nameTaken name => some ("variable name " ++ Text.quoted name ++ " is already in use")
  | nameTooLong name =>
    some ("GLPK names are limited to 255 bytes: " ++
      Text.quoted (String.ofList (name.toList.take 40)) ++ "...")
  | notVariable found => some ("expected Variable, got " ++ found)
  | foreignVariable shown => some (shown ++ " does not belong to this model")
  | unsolvedVariable shown => some (shown ++ " does not belong to the solved model")
  | lengthsDiffer v c =>
    some ("inconsistent number of variables and coefficients: " ++ toString v ++ " != " ++ toString c)
  | rowVectorLength m => some ("AL and AU must have length " ++ toString m ++ " (number of constraints)")
  | columnVectorLength n =>
    some ("l, u, c and integrality must have length " ++ toString n ++ " (number of variables)")
  | unknownEngine shown =>
    some ("unknown backend " ++ shown ++ ", expected one of glpk, lpsolve")
  | reduced .vars => some "reducing the number of variables is not supported"
  | reduced .columns => some "reducing the number of columns is not supported"
  | reduced .rows => some "reducing the number of rows is not supported"
  | noIntegerDuals => some "GLPK has no dual values for branch-and-cut solutions"
  | option cause => some ("applying model option: " ++ (cause.message?).getD "")
  | notLoadable names setting tried =>
    some ("could not load any of " ++ ", ".intercalate names ++ " (set " ++ setting ++
      " to the library path)\n  " ++ "\n  ".intercalate (tried.map (· ++ ": cannot open")))
  | engineUnavailable name => some ("solver engine " ++ Text.quoted name ++ " is not available")
  | noEngine =>
    some ("no solver engine available (tried glpk, lpsolve); install GLPK or lp_solve 5.5, or point " ++
      "LPBRIDGE_GLPK_LIBRARY / LPBRIDGE_LPSOLVE_LIBRARY at the shared library")
  | missingMember owner member => some (named owner ++ " object has no attribute " ++ named member)
  | unknownCode code => some (toString code)
  | closed => some "model has been freed"
  | stale => some "model was modified after this result was produced"
  | interrupted c | interruptedSolve c => some c.message
  | unsolved c => some c.message
  | undocumented engine code =>
    some ("unrecognized " ++ engine ++ " outcome code: " ++ toString code)
  | entryLengths c v => some (toString c ++ " columns for " ++ toString v ++ " values")
  | rangeRow => some "lp_solve rows take one side only; use add_row() for DOUBLE bounds"
  | nanInteger => some "cannot convert float NaN to integer"
  | outOfRange | noSlot | malformedMatrix | hugePointers => none
  | unequalRows rows =>
    some ("setting an array element with a sequence. The requested array has an inhomogeneous shape " ++
      "after 1 dimensions. The detected shape was (" ++ toString rows ++ ",) + inhomogeneous part.")
  | negativeDimension => some "negative dimensions are not allowed"
  | hugeDimension => some "Maximum allowed dimension exceeded"
  | hugeTable =>
    some ("array is too big; `arr.size * arr.dtype.itemsize` is larger than the maximum possible " ++
      "size.")
  | notMatrix => some "A must be a numpy array or scipy sparse matrix"
  | noPrinter found => some ("logger must have a print() method, got " ++ found)
  | notParameters found => some ("expected Parameters, got " ++ found)
  | notCallable found => some (named found ++ " object is not callable")
  | unknownArgument name =>
    some ("Parameters.__init__() got an unexpected keyword argument " ++ named name)
  | repeatedArgument name =>
    some ("Parameters.__init__() got multiple values for argument " ++ named name)
  | notFamily found => some ("__class__ must be set to a class, not " ++ named found ++ " object")
  | notDictionary found => some ("__dict__ must be set to a dictionary, not a " ++ named found)
  | fixedAttribute name => some ("attribute " ++ named name ++ " of 'Parameters' objects is not writable")
  | unknownHandle h => some ("unknown handle: " ++ hexHandle h)
  | nullHandle => some "null handle"
  | noMemory .problem => some "lp_solve could not allocate a problem"
  | noMemory .copy => some "lp_solve could not copy the problem"
  | noMemory .column => some "lp_solve could not add a column"
  | noMemory .row => some "lp_solve could not add a row"
  | noItem i => some (if isIndex i then "list index out of range" else hugeIndex)
  | noItemToReplace i => some (if isIndex i then "list assignment index out of range" else hugeIndex)
  | unknownReference k => some (toString k)
  | raised text => some text

end Fault

/-! ## §3 Numbers that have to fit -/

namespace Number

/-- The nearest double; an integer beyond the doubles is out of range. -/
def toDouble (n : Number) : Except Fault Float :=
  match n.toFloat? with
  | some x => .ok x
  | none => .error .outOfRange

/-- The integer that is left without the fraction. An infinity is out of range. -/
def toInteger : Number → Except Fault Int
  | .int n => .ok n
  | .float x =>
    match Double.truncate? x with
    | some n => .ok n
    | none => .error (if x.isNaN then .nanInteger else .outOfRange)

/-- The sum of two numbers. Integers are added exactly; beside a double an integer counts as one. -/
def add : Number → Number → Except Fault Number
  | .int m, .int n => .ok (.int (m + n))
  | m, n => do return .float ((← m.toDouble) + (← n.toDouble))

/-- The difference of two numbers, exact for integers as the sum is. -/
def sub : Number → Number → Except Fault Number
  | .int m, .int n => .ok (.int (m - n))
  | m, n => do return .float ((← m.toDouble) - (← n.toDouble))

end Number

end LinearProgram
