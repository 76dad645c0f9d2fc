import LinearProgram.Model.Variables
import Mathlib.Data.List.Nodup
import Mathlib.Data.List.Perm.Subperm
import Mathlib.Data.Nat.Digits.Defs
import Mathlib.Data.String.Basic

/-!
# The choice of names

A generated name is the first of a row of candidates that is not taken. The candidates of one position are all
different, so there is a free one among one more of them than there are taken names, and the search for it ends
without a bound of its own.

A batch of names is chosen one after the other, and each chosen name is taken for those that follow. So whatever
names a caller gives, the chosen ones are not empty, differ from each other and from all that were taken before.
-/

namespace LinearProgram.VariableName

/-! ## §1 Generated names -/

/-- A number can be read back from its digits. -/
private theorem toString_injective {k k' : Nat} (h : toString k = toString k') : k = k' := by
  have hdigits : Nat.toDigits 10 k = Nat.toDigits 10 k' := by
    rw [← Nat.toList_repr, ← Nat.toList_repr, ← Nat.toString_eq_repr, ← Nat.toString_eq_repr, h]
  rw [← Nat.ofDigitChars_ten_toDigits (n := k), hdigits, Nat.ofDigitChars_ten_toDigits]

/-- Different attempts try different names. -/
theorem candidate_injective (index : Nat) : Function.Injective (candidate index) := by
  intro k k' h
  -- the bare candidate is shorter than any with a suffix
  have hbase (s : String) : "V" ++ toString index ≠ "V" ++ toString index ++ "_" ++ s := by
    intro hsame
    have hlength := congrArg String.length hsame
    have hmark : "_".length = 1 := rfl
    simp only [String.length_append, hmark] at hlength
    omega
  unfold candidate at h
  by_cases hk : k = 0 <;> by_cases hk' : k' = 0
  · rw [hk, hk']
  · exact absurd (by simpa [hk, hk'] using h) (hbase (toString k'))
  · exact absurd (by simpa [hk, hk'] using h.symm) (hbase (toString k))
  · simp only [hk, hk', if_false] at h
    exact toString_injective ((String.append_right_inj _).mp h)

/-- The name is the first candidate for a position that is not taken. -/
def IsFirstFree (taken : List String) (index : Nat) (name : String) : Prop :=
  ∃ k, name = candidate index k ∧ name ∉ taken ∧ ∀ i < k, candidate index i ∈ taken

/-- Among one more candidate than there are taken names, one is free. -/
theorem exists_free (taken : List String) (index : Nat) :
    ∃ k ∈ List.range (taken.length + 1), candidate index k ∉ taken := by
  by_contra hnone
  push Not at hnone
  have hcandidates : ((List.range (taken.length + 1)).map (candidate index)).Nodup :=
    List.nodup_range.map (candidate_injective index)
  -- else all the candidates were taken, more than there are names
  have hall : (List.range (taken.length + 1)).map (candidate index) ⊆ taken := by
    intro name hname
    obtain ⟨k, hk, rfl⟩ := List.mem_map.mp hname
    exact hnone k hk
  have hlength := (List.subperm_of_subset hcandidates hall).length_le
  rw [List.length_map, List.length_range] at hlength
  omega

/-- **Generation finds a name**: it answers the first candidate that is not taken. -/
theorem generate_isFirstFree (taken : List String) (index : Nat) :
    IsFirstFree taken index (generate taken index) := by
  obtain ⟨k₀, hk₀, hfree₀⟩ := exists_free taken index
  cases hfound : (List.range (taken.length + 1)).find? fun k => !taken.contains (candidate index k) with
  | none =>
    have htaken := List.find?_eq_none.mp hfound k₀ hk₀
    simp [hfree₀] at htaken
  | some k =>
    obtain ⟨hfree, before, after, hsplit, hbefore⟩ := List.find?_eq_some_iff_append.mp hfound
    have hname : generate taken index = candidate index k := by
      unfold generate
      rw [hfound]
      rfl
    refine ⟨k, hname, by rw [hname]; simpa using hfree, fun i hi => ?_⟩
    -- the attempts before `k` stand before it in the range
    have hplace : before = List.range k := by
      have hlength : before.length < taken.length + 1 := by
        have hsize := congrArg List.length hsplit
        simp only [List.length_range, List.length_append, List.length_cons] at hsize
        omega
      have hk : k = before.length := by
        have hget : (List.range (taken.length + 1))[before.length]? = some k := by
          rw [hsplit]
          simp
        simpa [hlength] using hget.symm
      have hprefix : before <+: List.range (taken.length + 1) := ⟨k :: after, hsplit.symm⟩
      rw [List.prefix_iff_eq_take.mp hprefix, List.take_range, ← hk]
      congr 1
      omega
    simpa using hbefore i (by rw [hplace]; exact List.mem_range.mpr hi)

/-- A generated name is not empty. -/
theorem candidate_ne_empty (index attempt : Nat) : candidate index attempt ≠ "" := by
  -- every candidate starts with a letter
  have hbase : ("V" ++ toString index).length ≠ 0 := by
    have hmark : "V".length = 1 := rfl
    rw [String.length_append, hmark]
    omega
  intro h
  have hlength := congrArg String.length h
  unfold candidate at hlength
  by_cases hattempt : attempt = 0
  · simp [hattempt] at hlength
  · simp [hattempt] at hlength

/-- Different positions have different names. -/
theorem candidate_zero_injective : Function.Injective fun index => candidate index 0 :=
  fun _ _ h => toString_injective ((String.append_right_inj "V").mp h)

/-- As long as a position's own name is free, it is the one that is generated. -/
theorem generate_of_notMem {taken : List String} {index : Nat} (h : candidate index 0 ∉ taken) :
    generate taken index = candidate index 0 := by
  obtain ⟨k, hk, -, hbefore⟩ := generate_isFirstFree taken index
  cases k with
  | zero => exact hk
  | succ k => exact absurd (hbefore 0 (Nat.succ_pos k)) h

/-- A character takes four bytes at most. -/
private theorem utf8Len_le (cs : List Char) : String.utf8Len cs ≤ 4 * cs.length := by
  induction cs with
  | nil => exact Nat.le_refl _
  | cons c rest ih =>
    have hc := Char.utf8Size_le_four c
    show String.utf8Len rest + c.utf8Size ≤ 4 * (rest.length + 1)
    omega

/-- The names of positions that 64 bits can number are short. -/
theorem utf8ByteSize_candidate_zero {index : Nat} (h : index < 2 ^ 63) : (candidate index 0).utf8ByteSize ≤ 77 := by
  -- 2^63 has 19 digits
  have hdigits : (Nat.toDigits 10 index).length ≤ 19 := Nat.toDigits_length 10 index 19 (by omega) (by omega)
  have hnumber : (toString index).utf8ByteSize ≤ 76 := by
    rw [Nat.toString_eq_repr, Nat.repr, String.utf8ByteSize_ofList]
    have hle := utf8Len_le (Nat.toDigits 10 index)
    omega
  have hmark : "V".utf8ByteSize = 1 := rfl
  show ("V" ++ toString index).utf8ByteSize ≤ 77
  rw [String.utf8ByteSize_append, hmark]
  omega

/-! ## §2 One name -/

/-- A name that was picked is a given one that was free, or a generated one where none was given. -/
theorem pick_eq_ok {taken : List String} {given name : String} {index : Nat}
    (h : pick taken given index = .ok name) :
    (given ≠ "" → name = given ∧ given ∉ taken) ∧ (given = "" → IsFirstFree taken index name) := by
  unfold pick at h
  by_cases hgiven : given = ""
  · subst hgiven
    cases h
    exact ⟨fun hne => absurd rfl hne, fun _ => generate_isFirstFree taken index⟩
  · have hnot : given.isEmpty = false := by simpa using hgiven
    rw [hnot] at h
    -- a name given is taken over as it is, or refused
    by_cases htaken : given ∈ taken
    · simp [htaken] at h
    · simp only [Bool.false_eq_true, if_false, List.contains_eq_mem, htaken, decide_false] at h
      cases h
      exact ⟨fun _ => ⟨rfl, htaken⟩, fun he => absurd he hgiven⟩

/-- A free name that a caller gives is picked. -/
theorem pick_of_notMem {taken : List String} {given : String} (hgiven : given ≠ "") (htaken : given ∉ taken)
    (index : Nat) : pick taken given index = .ok given := by
  unfold pick
  have hnot : given.isEmpty = false := by simpa using hgiven
  simp [hnot, htaken]

/-- A name that is picked is not taken and not empty. -/
theorem notMem_of_pick {taken : List String} {given name : String} {index : Nat}
    (h : pick taken given index = .ok name) : name ∉ taken ∧ name ≠ "" := by
  obtain ⟨hgiven, hgenerated⟩ := pick_eq_ok h
  by_cases hempty : given = ""
  · obtain ⟨k, rfl, hfree, -⟩ := hgenerated hempty
    exact ⟨hfree, candidate_ne_empty index k⟩
  · obtain ⟨rfl, hfree⟩ := hgiven hempty
    exact ⟨hfree, hempty⟩

/-! ## §3 A batch of names -/

/-- Names that are picked one after the other for the positions from `index` on, each of them taken for those
that follow. -/
inductive Chosen (given : Nat → String) : List String → Nat → List String → Prop
  | done {taken index} : Chosen given taken index []
  | next {taken index name names} (first : pick taken (given index) index = .ok name)
      (rest : Chosen given (taken ++ [name]) (index + 1) names) : Chosen given taken index (name :: names)

namespace Chosen

variable {given : Nat → String} {taken names : List String} {index : Nat}

/-- Chosen names differ from each other and from all that were taken. -/
theorem nodup (h : Chosen given taken index names) (ht : taken.Nodup) : (taken ++ names).Nodup := by
  -- each name is free among the ones taken before it, the earlier of this batch included
  induction h with
  | done => simpa using ht
  | @next taken index name names first rest ih =>
    obtain ⟨hfree, -⟩ := notMem_of_pick first
    have hfirst : (taken ++ [name]).Nodup := by
      rw [List.nodup_append]
      refine ⟨ht, List.nodup_singleton _, ?_⟩
      rintro x hx y hy rfl
      exact hfree (List.mem_singleton.mp hy ▸ hx)
    simpa using ih hfirst

theorem ne_empty (h : Chosen given taken index names) : ∀ name ∈ names, name ≠ "" := by
  induction h with
  | done => simp
  | next first rest ih => exact List.forall_mem_cons.mpr ⟨(notMem_of_pick first).2, ih⟩

/-- At each position stands the name that was given, or where none was, the first candidate that neither was
taken nor stands earlier in the batch. -/
theorem at_position (h : Chosen given taken index names) {i : Nat} {name : String} (hi : names[i]? = some name) :
    (given (index + i) ≠ "" → name = given (index + i)) ∧
      (given (index + i) = "" → IsFirstFree (taken ++ names.take i) (index + i) name) := by
  -- on the batch; the names before position `i` count as taken there
  induction h generalizing i with
  | done => simp at hi
  | @next taken index first names hfirst rest ih =>
    cases i with
    | zero =>
      obtain rfl : first = name := by simpa using hi
      obtain ⟨hgiven, hgenerated⟩ := pick_eq_ok hfirst
      exact ⟨fun hne => (hgiven hne).1, fun he => by simpa using hgenerated he⟩
    | succ i =>
      have hlater := ih (i := i) (by simpa using hi)
      have hindex : index + 1 + i = index + (i + 1) := by omega
      rw [hindex] at hlater
      simpa using hlater

end Chosen

/-- The names of a batch. Where one cannot be picked, the batch is refused, and what stands here does not
matter. -/
def choose (given : Nat → String) : List String → Nat → Nat → List String
  | _, 0, _ => []
  | taken, count + 1, index =>
    let name := (pick taken (given index) index).toOption.getD ""
    name :: choose given (taken ++ [name]) count (index + 1)

/-- Chosen names are the names of the batch. -/
theorem Chosen.eq_choose {given : Nat → String} {taken names : List String} {index : Nat}
    (h : Chosen given taken index names) : names = choose given taken names.length index := by
  induction h with
  | done => rfl
  | @next taken index name names first rest ih =>
    -- picking succeeded, so its default is never used
    have hname : (pick taken (given index) index).toOption.getD "" = name := by
      rw [first]
      rfl
    rw [List.length_cons, choose, hname, ← ih]

end LinearProgram.VariableName
