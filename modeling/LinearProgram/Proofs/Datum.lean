import LinearProgram.Datum
import Mathlib.Data.List.Nodup

/-!
# Dictionaries and equality of data

A dictionary has each of its keys once. Then it answers with its entries in whatever order they are searched, and a
datum in which all dictionaries are such says the same as itself (`same_self`), NaN included.
-/

namespace LinearProgram

namespace Datum

/-! ## §1 Entries by their keys -/

def keys (d : List (String × Datum)) : List String := d.map Prod.fst

/-- What a list of entries has under a key at last. -/
def latest (d : List (String × Datum)) (key : String) : Option Datum := d.reverse.lookup key

section

variable {d : List (String × Datum)} {key : String} {v : Datum}

theorem lookup_eq_none_iff_not_mem : d.lookup key = none ↔ key ∉ keys d := by
  simp only [List.lookup_eq_none_iff, bne_iff_ne, keys, List.mem_map, not_exists, not_and]
  exact ⟨fun h e he heq => h e he heq.symm, fun h e he heq => h e he heq.symm⟩

theorem mem_keys_iff : key ∈ keys d ↔ ∃ v, d.lookup key = some v := by
  rw [← Option.ne_none_iff_exists', ne_eq, lookup_eq_none_iff_not_mem, not_not]

/-- A dictionary that has its keys once answers with its entries. -/
theorem lookup_eq_some_iff_mem (hd : (keys d).Nodup) : d.lookup key = some v ↔ (key, v) ∈ d := by
  induction d with
  | nil => simp
  | cons e rest ih =>
    obtain ⟨first, value⟩ := e
    obtain ⟨hfirst, hrest⟩ := List.nodup_cons.mp hd
    rw [List.lookup_cons]
    cases hkey : key == first with
    | true =>
      obtain rfl : key = first := beq_iff_eq.mp hkey
      -- keys are distinct, so no later entry has this one
      have hnot : (key, v) ∉ rest := fun hmem => hfirst (List.mem_map.mpr ⟨_, hmem, rfl⟩)
      simp [hnot, eq_comm]
    | false =>
      have hne : key ≠ first := by simpa using hkey
      simp [ih hrest, hne]

@[simp] theorem latest_nil (key : String) : latest [] key = none := rfl

theorem latest_append (d d' : List (String × Datum)) (key : String) :
    latest (d ++ d') key = (latest d' key).or (latest d key) := by
  rw [latest, List.reverse_append, List.lookup_append]
  rfl

theorem latest_singleton (first : String) (v : Datum) (key : String) :
    latest [(first, v)] key = if key = first then some v else none := by
  by_cases h : key = first
  · simp [latest, h]
  · simp [latest, List.lookup_cons, beq_false_of_ne h, h]

theorem latest_eq_lookup (hd : (keys d).Nodup) (key : String) : latest d key = d.lookup key := by
  have hreverse : (keys d.reverse).Nodup := by simpa [keys, List.map_reverse] using hd
  ext v
  rw [latest, lookup_eq_some_iff_mem hreverse, lookup_eq_some_iff_mem hd, List.mem_reverse]

/-- What comes after an entry of a dictionary has other keys. -/
theorem nodup_of_split {before after : List (String × Datum)} (hd : (keys (before ++ (key, v) :: after)).Nodup) :
    (keys after).Nodup ∧ key ∉ keys after := by
  rw [keys, List.map_append, List.map_cons] at hd
  exact (List.nodup_cons.mp (List.nodup_append.mp hd).2.1).symm

end

/-! ## §2 Data that equal themselves -/

mutual

/-- Every dictionary in the datum has each of its keys once, at any depth. -/
def Proper : Datum → Prop
  | list items => ProperItems items
  | dict entries => (keys entries).Nodup ∧ ProperEntries entries
  | _ => True

def ProperItems : List Datum → Prop
  | [] => True
  | d :: rest => d.Proper ∧ ProperItems rest

def ProperEntries : List (String × Datum) → Prop
  | [] => True
  | (_, d) :: rest => d.Proper ∧ ProperEntries rest

end

/-- The values of a proper dictionary are proper. -/
theorem ProperEntries.of_mem {d : List (String × Datum)} (h : ProperEntries d) {key : String} {v : Datum}
    (hmem : (key, v) ∈ d) : v.Proper := by
  induction d with
  | nil => cases hmem
  | cons e rest ih =>
    obtain ⟨hfirst, hrest⟩ := h
    rcases List.mem_cons.mp hmem with rfl | hmem
    · exact hfirst
    · exact ih hrest hmem

/-- A double says the same as itself, NaN included. -/
theorem same_float (x : Float) : same (.float x) (.float x) = true := by
  cases hnan : x.isNaN with
  | true => simp only [same, hnan, Bool.and_self, Bool.true_or]
  | false =>
    -- every double but NaN has a place in the order of numbers
    have hrank : (Number.float x).rank?.isSome = true := by
      cases hvalue : Double.value? x with
      | some e => simp only [Number.rank?, hvalue, Option.isSome_some]
      | none => simp only [Number.rank?, hvalue, hnan, Bool.false_eq_true, if_false, Option.isSome_some]
    obtain ⟨place, hplace⟩ := Option.isSome_iff_exists.mp hrank
    simp only [same, hnan, Bool.and_self, Bool.false_or, Number.sameValue, hplace, beq_self_eq_true]

mutual

/-- **A proper datum says the same as itself.** -/
theorem same_self (d : Datum) (h : d.Proper) : same d d = true := by
  cases d with
  | null => rfl
  | bool b => simp [same]
  | int n => simp [same]
  | float x => exact same_float x
  | text s => simp [same]
  | list items =>
    rw [same]
    exact sameItems_self items h
  -- a dictionary is compared by look-up, which finds each entry of its own
  | dict entries =>
    rw [same, sameEntries_of_lookup entries entries h.2 fun e he => (lookup_eq_some_iff_mem h.1).mpr he]
    simp

theorem sameItems_self (items : List Datum) (h : ProperItems items) : sameItems items items = true := by
  cases items with
  | nil => rfl
  | cons d rest => rw [sameItems, same_self d h.1, sameItems_self rest h.2, Bool.and_self]

/-- Entries say the same as the dictionary in which they are found. -/
theorem sameEntries_of_lookup (xs ys : List (String × Datum)) (h : ProperEntries xs)
    (hfound : ∀ e ∈ xs, ys.lookup e.1 = some e.2) : sameEntries xs ys = true := by
  cases xs with
  | nil => rfl
  | cons e rest =>
    obtain ⟨key, d⟩ := e
    have hfirst : ys.lookup key = some d := hfound (key, d) List.mem_cons_self
    -- the look-up is in the whole dictionary, so it holds of the rest as it is
    have hrest := sameEntries_of_lookup rest ys h.2 fun e he => hfound e (List.mem_cons_of_mem _ he)
    simp only [sameEntries, hfirst, same_self d h.1, hrest, Bool.and_self]

end

end Datum

end LinearProgram
