/-!
# Positions in a list

A position in a list may be counted from its start, from zero on, or with a negative number from its
end. `place?` reads such a position, and `slice` cuts out what lies between two of them; a position
beyond an end of the list counts there as that end. `isIndex` tells the numbers that can be positions at
all. For positions from zero on, a slice is what is left
of a list after `take` and `drop`, which is `slice_ofNat`.
-/

namespace LinearProgram

/-- One more than the largest integer of 64 bits with sign. -/
def indexLimit : Int := 9223372036854775808

/-- Whether a number can be an index at all: it is an integer of 64 bits with sign. -/
def isIndex (n : Int) : Bool := decide (-indexLimit ≤ n) && decide (n < indexLimit)

/-- The place in a list of `length` items that an index means; a negative one counts from the end. -/
def place? (length : Nat) (index : Int) : Option Nat :=
  if 0 ≤ index then (if index.toNat < length then some index.toNat else none)
  else if 0 ≤ index + length then some (index + length).toNat
  else none

/-- The cut in a list of `length` items that a position means. -/
def cut (length : Nat) (position : Int) : Nat :=
  if 0 ≤ position then position.toNat else (position + length).toNat

def slice {α : Type} (first last : Int) (items : List α) : List α :=
  (items.take (cut items.length last)).drop (cut items.length first)

theorem isIndex_iff {n : Int} : isIndex n = true ↔ -indexLimit ≤ n ∧ n < indexLimit := by
  rw [isIndex, Bool.and_eq_true, decide_eq_true_eq, decide_eq_true_eq]

theorem place?_lt {length : Nat} {index : Int} {i : Nat} (h : place? length index = some i) :
    i < length := by
  grind [place?]

theorem slice_ofNat {α : Type} (first last : Nat) (items : List α) :
    slice first last items = (items.take last).drop first := by
  simp [slice, cut]

end LinearProgram
