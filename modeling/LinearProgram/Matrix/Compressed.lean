import LinearProgram.Matrix.Entries
import LinearProgram.Position

/-!
# Matrices by rows

A matrix in compressed rows: the columns and values of all rows one after the other, and for each row
where its part begins and ends. This is how constraint coefficients are shown, and the form that a
matrix given as data is brought into.
-/

namespace LinearProgram

/-- A matrix of `height` rows and `width` columns, counted from zero. Row `i` has the columns and values
from position `starts[i]` up to `starts[i + 1]`; negative positions count from the end. -/
structure Compressed where
  height : Nat
  width : Nat
  starts : List Int
  columns : List Int
  values : List Float
deriving DecidableEq

namespace Compressed

/-! ## §1 From entries -/

/-- There is a pointer of eight bytes for each row and one more, and 64 bits have to be able to count the
bytes of all of them. -/
def checkPointers (height : Int) : Except Fault Unit :=
  if isIndex (8 * (height + 1)) then .ok () else .error .hugePointers

/-- The matrix of entries that are sorted by row; rows and columns count from zero. A
row begins after the entries of all earlier rows. -/
def ofSorted (height width : Nat) (es : List Entry) : Compressed :=
  { height := height
    width := width
    starts := (List.range (height + 1)).map fun i =>
      Int.ofNat (es.countP fun e => decide (e.row < Int.ofNat i))
    columns := es.map (·.column)
    values := es.map (·.value) }

/-- The matrix of entries in any order. Entries of one position are added up, and zeros stay. -/
def ofEntries (height width : Nat) (es : List Entry) : Compressed :=
  ofSorted height width (Entry.merge (es.mergeSort Entry.before))

def tableEntries (table : List (List Float)) : List Entry :=
  (table.zipIdx.map fun (row, i) =>
    (row.zipIdx.filter fun (x, _) => !(x == 0)).map fun (x, j) =>
      ({ row := i, column := j, value := x } : Entry)).flatten

/-- The matrix of a table of rows; zeros are left out. -/
def ofTable (height width : Nat) (table : List (List Float)) : Compressed :=
  ofSorted height width (tableEntries table)

/-! ## §2 Rows -/

def row (m : Compressed) (i : Nat) : List (Int × Float) :=
  let first := (m.starts[i]?).getD 0
  let last := (m.starts[i + 1]?).getD 0
  slice first last (m.columns.zip m.values)

/-- The matrix without what lies behind its last row. -/
def trimmed (m : Compressed) : Compressed :=
  let last := m.starts.getLastD 0
  { m with columns := slice 0 last m.columns, values := slice 0 last m.values }

def toList (m : Compressed) : List Entry :=
  ((List.range m.height).map fun i => (m.row i).map fun (c, v) => (⟨i, c, v⟩ : Entry)).flatten

end Compressed

/-- The coalesced coefficients as a matrix of `rows` rows and `columns` columns. Row 0 and column 0 of
the entries are legal and vanish. -/
def Entries.compressed (e : Entries) (rows columns : Int) : Except Fault Compressed := do
  -- positions count from one here, so row 0 and column 0 take part and are cut off
  let es ← e.coalesced (rows + 1) (columns + 1)
  Compressed.checkPointers (rows + 1)
  let inner := es.filter fun x => decide (1 ≤ x.row ∧ 1 ≤ x.column)
  return Compressed.ofSorted rows.toNat columns.toNat
    (inner.map fun x => { x with row := x.row - 1, column := x.column - 1 })

end LinearProgram
