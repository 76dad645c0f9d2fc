import LinearProgram.Matrix.Vector
import LinearProgram.Model.Result

/-!
# Models from arrays

A model may be given as a whole: a matrix of coefficients and vectors of bounds, objective coefficients
and marks of integer variables. All vectors are checked against the shape of the matrix before the model
is made.
-/

namespace LinearProgram

/-! ## §1 Data -/

/-- A matrix as data: a table of rows, a single row, zeros of a given shape, compressed rows, or entries
at coordinates. -/
inductive MatrixData where
  | table (rows : List (List Number))
  | single (row : List Number)
  | zeros (height width : Int)
  | compressed (height width : Int) (starts columns values : List Number)
  | coordinates (height width : Int) (rows columns values : List Number)

namespace MatrixData

def shape (height width : Int) : Except Fault (Nat × Nat) :=
  if height < 0 ∨ width < 0 then .error .malformedMatrix else .ok (height.toNat, width.toNat)

/-- The extents of a shape have to be indices. -/
def checkExtent (height width : Int) : Except Fault Unit :=
  if isIndex (max height width) then .ok () else .error .outOfRange

/-- How many bytes a table of doubles takes that has these extents, when `size` bytes are one entry. An
extent of zero counts as one; the extents are looked at from left to right. -/
def tableSize (size : Nat) : List Int → Except Fault Nat
  | [] => .ok size
  | extent :: rest =>
    if extent < 0 then .error .negativeDimension
    else
      let grown := size * max 1 extent.toNat
      if isIndex grown then tableSize grown rest else .error .hugeTable

/-- Row and column numbers of entries at coordinates: integers of 64 bits. -/
def coordinate (n : Number) : Except Fault Int :=
  match Vector.toElement 64 n with
  | .error .nanInteger => .error .malformedMatrix
  | r => r

/-- The matrix as compressed rows. A table loses its zeros, entries at coordinates are added up, and
compressed rows are taken as they are, without what lies behind the last one. -/
def read : MatrixData → Except Fault Compressed
  | table [] => .ok (Compressed.ofTable 1 0 [[]])
  | table (first :: rest) => do
    if rest.any fun row => row.length != first.length then .error (.unequalRows (rest.length + 1))
    else
      let rows ← (first :: rest).mapM fun row => row.mapM Number.toDouble
      return Compressed.ofTable (rest.length + 1) first.length rows
  | single row => do
    let row ← row.mapM Number.toDouble
    return Compressed.ofTable 1 row.length [row]
  | zeros height width => do
    if !(isIndex height && isIndex width) then .error .hugeDimension
    let _ ← tableSize 8 [height, width]
    Compressed.checkPointers height
    return Compressed.ofSorted height.toNat width.toNat []
  | compressed height width starts columns values => do
    let values ← values.mapM Number.toDouble
    let columns ← columns.mapM (Vector.toElement 32)
    let starts ← starts.mapM (Vector.toElement 32)
    -- a shape without entries may be as wide as it likes
    if height ≠ 0 ∧ width ≠ 0 then checkExtent height width
    let (height, width) ← shape height width
    if starts.length = height + 1 ∧ columns.length = values.length ∧ starts.head? = some 0 ∧
        starts.getLastD 0 ≤ columns.length then
      return Compressed.trimmed ⟨height, width, starts, columns, values⟩
    else .error .malformedMatrix
  | coordinates height width rows columns values => do
    let values ← values.mapM Number.toDouble
    let (rowCount, columnCount) ← shape height width
    checkExtent height width
    let rows ← rows.mapM coordinate
    let columns ← columns.mapM coordinate
    let e : Entries := ⟨rows, columns, values⟩
    if rows.length = values.length ∧ columns.length = values.length ∧ e.toList.all fun x =>
        decide (0 ≤ x.row ∧ x.row < height ∧ 0 ≤ x.column ∧ x.column < width) then
      Compressed.checkPointers height
      return Compressed.ofEntries rowCount columnCount e.toList
    else .error .malformedMatrix

end MatrixData

/-- A problem given as arrays: a matrix, unless what stands in its place is none, row bounds, column
bounds, objective coefficients, and marks of integer variables, if there are any. -/
structure ProblemArrays where
  matrix : Option Compressed
  rowLower : List Number
  rowUpper : List Number
  lower : List Number
  upper : List Number
  objective : List Number
  integrality : Option (List Number)

/-- The arrays after conversion, with the lengths that belong to the matrix. -/
structure ProblemData where
  matrix : Compressed
  rows : List (Float × Float)
  columns : List (Bool × Float × Float × Float)

/-- Convert the arrays in order and check their lengths. -/
def ProblemArrays.read (a : ProblemArrays) : Except Fault ProblemData := do
  -- trimming once more matters only where the end of the last row counts from the end
  let matrix ← match a.matrix with
    | some matrix => .ok matrix.trimmed
    | none => .error .notMatrix
  let rowLower ← a.rowLower.mapM Number.toDouble
  let rowUpper ← a.rowUpper.mapM Number.toDouble
  let lower ← a.lower.mapM Number.toDouble
  let upper ← a.upper.mapM Number.toDouble
  let objective ← a.objective.mapM Number.toDouble
  let integer := a.integrality.map fun marks => marks.map Number.isTrue
  -- without marks there is one for each column, if there can be so many
  if integer.isNone ∧ !isIndex matrix.width then .error .hugeDimension
  if rowLower.length ≠ matrix.height ∨ rowUpper.length ≠ matrix.height then
    .error (.rowVectorLength matrix.height)
  else if lower.length ≠ matrix.width ∨ upper.length ≠ matrix.width ∨
      objective.length ≠ matrix.width ∨ (integer.map List.length).getD matrix.width ≠ matrix.width then
    .error (.columnVectorLength matrix.width)
  else
    let integer := integer.getD (List.replicate matrix.width false)
    return { matrix := matrix
             rows := rowLower.zip rowUpper
             columns := integer.zip (objective.zip (lower.zip upper)) }

namespace Model

/-! ## §2 Building -/

def addArrayColumns (m : ModelId) : List (Bool × Float × Float × Float) → Action (List Variable)
  | [] => pure []
  | (integer, c, l, u) :: rest => do
    let kind : VariableKind := if integer then .integer else .continuous
    let v ← addVariable m "" (.text (Choice.name kind)) (.float c) (.float l) (.float u)
    return v :: (← addArrayColumns m rest)

/-- The variables that the columns of a row name. -/
def rowVariables (vars : List Variable) : List (Int × Float) → Except Fault (List VariableArgument)
  | [] => .ok []
  | (c, _) :: rest => do
    -- a negative column counts from the end of the list
    match (place? vars.length c).bind fun i => vars[i]? with
    | some v => return .variable v :: (← rowVariables vars rest)
    | none => .error (.noItem c)

/-- Add one constraint for each row, from row `i` of the matrix on. -/
def addArrayRows (m : ModelId) (matrix : Compressed) (vars : List Variable) :
    Nat → List (Float × Float) → Action Unit
  | _, [] => pure ()
  | i, (l, u) :: rest => do
    let row := matrix.row i
    let arguments ← Action.lift (rowVariables vars row)
    addConstraint m (.float l) (.float u) arguments (row.map fun (_, x) => .float x)
    addArrayRows m matrix vars (i + 1) rest

/-- Make a model from arrays. If it cannot be completed, its problem is released again. -/
def ofArrays (a : ProblemArrays) (name : String) (direction : Datum) (options : List ModelOption) :
    Action ModelId := do
  let data ← Action.lift a.read
  -- `create` releases what it makes by itself if it fails
  let m ← create name direction options
  freeingOnFault m do
    let vars ← addArrayColumns m data.columns
    addArrayRows m data.matrix vars 0 data.rows
  pure m

/-- Solve a problem given as arrays, and keep nothing but the solution. -/
def solveArrays (a : ProblemArrays) (direction : Datum) (options : List ModelOption) :
    Action Solution := do
  -- without a model there is nothing to free
  let m ← ofArrays a "" direction options
  freeingAfter m do
    let r ← solve m none
    r.solution

end Model

end LinearProgram
