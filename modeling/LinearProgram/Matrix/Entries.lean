import LinearProgram.Bound

/-!
# Constraint coefficients as entries

The coefficients of a model are collected as entries `(row, column, value)`, rows and columns counted
from one, in the order of the constraints. The three members are kept in lists of their own, which
`append` extends one after the other: a value that cannot be converted stops it, and what was appended
before stays.

For a solve, or to be looked at, the entries are coalesced: sorted by row and column, entries of one
position added up, and sums that are zero dropped. A sum that is NaN is kept.
-/

namespace LinearProgram

/-! ## §1 Collecting entries -/

/-- Coefficients in the order in which they came. -/
structure Entries where
  rows : List Int
  columns : List Int
  values : List Float
deriving DecidableEq

namespace Entries

def empty : Entries := ⟨[], [], []⟩

instance : Inhabited Entries := ⟨empty⟩

/-- How many values are stored, duplicates included. -/
def size (e : Entries) : Nat := e.values.length

/-- Convert the numbers of a list up to the first that cannot be converted; that fault comes with what
was converted before it. -/
def convert {α : Type} (f : Number → Except Fault α) : List Number → List α × Option Fault
  | [] => ([], none)
  | n :: rest =>
    match f n with
    | .error fault => ([], some fault)
    | .ok a =>
      let (converted, fault) := convert f rest
      (a :: converted, fault)

def append (e : Entries) (row : Int) (columns values : List Number) : Entries × Option Fault :=
  if columns.length ≠ values.length then
    (e, some (.entryLengths columns.length values.length))
  else
    -- the row numbers are stored before the first column number is converted
    let (cs, columnFault) := convert Number.toInteger columns
    let begun : Entries :=
      { e with rows := e.rows ++ List.replicate columns.length row, columns := e.columns ++ cs }
    match columnFault with
    | some fault => (begun, some fault)
    | none =>
      let (vs, valueFault) := convert Number.toDouble values
      ({ begun with values := e.values ++ vs }, valueFault)

def display (e : Entries) : String := "<SparseMatrix nnz=" ++ toString e.size ++ ">"

end Entries

/-! ## §2 Coalescing -/

/-- One coefficient at its position. -/
structure Entry where
  row : Int
  column : Int
  value : Float
deriving DecidableEq

namespace Entry

/-- The order by row, then by column. -/
def before (a b : Entry) : Bool :=
  decide (a.row < b.row) || (a.row == b.row && decide (a.column ≤ b.column))

def sameCell (a b : Entry) : Bool := a.row == b.row && a.column == b.column

/-- Add up neighbours of one position, from left to right. -/
def merge : List Entry → List Entry
  | [] => []
  | a :: rest => mergeInto a rest
where
  /-- Add to `a` the entries of its position that follow it. -/
  mergeInto (a : Entry) : List Entry → List Entry
    | [] => [a]
    | b :: rest =>
      if a.sameCell b then mergeInto { a with value := a.value + b.value } rest
      else a :: mergeInto b rest

/-- Sorted, one entry for each position, without zeros. -/
def coalesce (es : List Entry) : List Entry :=
  (merge (es.mergeSort before)).filter fun e => !(e.value == 0)

end Entry

namespace Entries

def toList (e : Entries) : List Entry :=
  ((e.rows.zip e.columns).zip e.values).map fun ((r, c), v) => ⟨r, c, v⟩

/-- Coalesce into a matrix of `rows` rows and `columns` columns, both counted from zero. Numbers that
are no 64-bit integers are out of range; a position outside the matrix is refused, and so are lists of
different lengths. -/
def coalesced (e : Entries) (rows columns : Int) : Except Fault (List Entry) :=
  -- the numbers are converted first, then the shape is looked at, then the entries
  if !(e.rows.all isIndex && e.columns.all isIndex) then .error .outOfRange
  else if rows < 0 ∨ columns < 0 then .error .malformedMatrix
  else if !(isIndex rows && isIndex columns) then .error .outOfRange
  else if e.rows.length ≠ e.values.length ∨ e.columns.length ≠ e.values.length then
    .error .malformedMatrix
  else if e.toList.all fun x =>
      decide (0 ≤ x.row ∧ x.row < rows ∧ 0 ≤ x.column ∧ x.column < columns) then
    .ok (Entry.coalesce e.toList)
  else .error .malformedMatrix

/-- The largest number of a list, zero at least when the list is empty. -/
def largest : List Int → Int
  | [] => 0
  | n :: rest => rest.foldl max n

/-- The coalesced entries in the smallest matrix that holds them. -/
def compact (e : Entries) : Except Fault (List Entry) :=
  if e.values.isEmpty then e.coalesced 1 1
  else e.coalesced (largest e.rows + 1) (largest e.columns + 1)

end Entries

/-! ## §3 Triplets for the engines -/

/-- Parallel arrays as the native libraries take them. Element 0 is unused. -/
structure Triplets where
  rows : List Int
  columns : List Int
  values : List Float
deriving DecidableEq

/-- How many integers 32 bits can tell apart. -/
def wordCount : Nat := 4294967296

/-- An integer reduced to 32 bits with sign. -/
def wrap32 (n : Int) : Int := Int.bmod n wordCount

/-- The coalesced entries as triplets. Positions are reduced to 32 bits. -/
def Entries.triplets (e : Entries) : Except Fault Triplets := do
  let es ← e.compact
  return { rows := 0 :: es.map fun x => wrap32 x.row
           columns := 0 :: es.map fun x => wrap32 x.column
           values := 0 :: es.map (·.value) }

/-- The triplets as positioned entries, without element 0. -/
def Triplets.toList (t : Triplets) : List Entry :=
  (Entries.toList ⟨t.rows.drop 1, t.columns.drop 1, t.values.drop 1⟩)

end LinearProgram
