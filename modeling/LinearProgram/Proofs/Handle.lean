import LinearProgram.World
import LinearProgram.Proofs.Action

/-!
# The registry keeps its promises

A registry is *regular* when its list of unused slots tells the truth: the slots are there, empty, and
listed once. Registering and giving up keep it regular. In a regular registry, what was registered can be
given up again, and neither operation touches the registration behind another handle.

With this, a registration that lasts as long as some body runs can always be given up at the end.
-/

namespace LinearProgram

namespace Registry

variable {α : Type} {r r' : Registry α}

/-! ## §1 Regular registries -/

/-- The unused slots are there, empty, and listed once; slot numbers have 32 bits. -/
structure Regular (r : Registry α) : Prop where
  vacant : ∀ i ∈ r.unused, ∃ slot, r.slots[i]? = some slot ∧ slot.value = none
  nodup : r.unused.Nodup
  small : r.slots.size < slotLimit

theorem regular_empty : (empty : Registry α).Regular where
  vacant := by simp [empty]
  nodup := List.nodup_nil
  small := by simp [empty, slotLimit]

/-- What is behind a handle is an occupied slot of the generation that the handle names. -/
theorem find?_eq_some_iff {h : Handle} {i : Nat} {value : α} :
    r.find? h = some (i, value) ↔
      h ≠ 0 ∧ indexOf h = i ∧ r.slots[i]? = some ⟨generationOf h, some value⟩ := by
  unfold find?
  by_cases hz : h = 0 ∨ indexOf h < 0
  · rw [if_pos hz]
    simp only [reduceCtorEq, false_iff]
    rintro ⟨hne, hi, -⟩
    rcases hz with hz | hz
    · exact hne hz
    · omega
  rw [if_neg hz]
  dsimp only
  -- what is left names a slot
  obtain ⟨k, hk⟩ : ∃ k : Nat, indexOf h = k := ⟨(indexOf h).toNat, by omega⟩
  rw [hk, Int.toNat_natCast]
  constructor
  · intro hf
    refine ⟨fun h0 => hz (Or.inl h0), ?_⟩
    rcases hs : r.slots[k]? with _ | ⟨generation, value'⟩
    · simp [hs] at hf
    · rcases value' with _ | value'
      · simp [hs] at hf
      · simp only [hs] at hf
        split at hf
        · next hg =>
          cases hf
          exact ⟨rfl, by rw [hs, ← hg]⟩
        · cases hf
  · rintro ⟨-, hi, hs⟩
    have hki : k = i := by omega
    subst hki
    simp [hs]

/-- No slot has the null handle. -/
theorem handleOf_ne_zero {generation : Int} {i : Nat} (hi : i + 1 < slotLimit) :
    handleOf generation i ≠ 0 := by
  intro h
  unfold slotLimit at hi
  have h : generation * 4294967296 + ((i : Int) + 1) = 0 := h
  omega

theorem indexOf_handleOf {generation : Int} {i : Nat} (hi : i + 1 < slotLimit) :
    indexOf (handleOf generation i) = i := by
  unfold indexOf handleOf slotLimit at *
  omega

theorem generationOf_handleOf {generation : Int} {i : Nat} (hi : i + 1 < slotLimit) :
    generationOf (handleOf generation i) = generation := by
  unfold generationOf handleOf slotLimit at *
  omega

/-- A handle is nothing but its slot and its generation. -/
theorem handleOf_generationOf {h : Handle} {i : Nat} (hi : indexOf h = i) :
    handleOf (generationOf h) i = h := by
  have hmod : h % (slotLimit : Int) = i + 1 := Int.sub_eq_iff_eq_add.mp hi
  rw [handleOf, generationOf, ← hmod]
  exact Int.ediv_mul_add_emod h slotLimit

/-! ## §2 What an operation can do

Either operation fills or empties one slot. The two inversion lemmas below say which one, and everything
else about the operations is read off them. -/

/-- The generation that the slot at an index is in. A slot that is still to be made will start at zero. -/
def generationAt (r : Registry α) (i : Nat) : Int := (r.slots[i]?.map (·.generation)).getD 0

/-- Nothing is registered in the slot at an index. -/
def Vacant (r : Registry α) (i : Nat) : Prop := ∀ generation value, r.slots[i]? ≠ some ⟨generation, some value⟩

/-- `r'` has `slot` at an index, and the other slots of `r`. -/
def Replaced (r r' : Registry α) (i : Nat) (slot : Slot α) : Prop :=
  ∀ k, r'.slots[k]? = if k = i then some slot else r.slots[k]?

namespace Replaced

variable {i : Nat} {slot : Slot α}

theorem at_self (hs : r.Replaced r' i slot) : r'.slots[i]? = some slot := (hs i).trans (if_pos rfl)

theorem at_other (hs : r.Replaced r' i slot) {k : Nat} (hk : k ≠ i) : r'.slots[k]? = r.slots[k]? :=
  (hs k).trans (if_neg hk)

/-- Only the slot itself is in another generation. -/
theorem generationAt_eq (hs : r.Replaced r' i slot) (k : Nat) :
    r'.generationAt k = if k = i then slot.generation else r.generationAt k := by
  rw [generationAt, hs k]
  split <;> rfl

/-- Slots that were vacant and are listed stay so when another one is replaced. -/
theorem vacant_of_ne (hs : r.Replaced r' i slot) {k : Nat} (hk : k ≠ i)
    (hv : ∃ slot', r.slots[k]? = some slot' ∧ slot'.value = none) :
    ∃ slot', r'.slots[k]? = some slot' ∧ slot'.value = none := by
  rwa [hs.at_other hk]

/-- Filling a vacant slot puts one registration behind its handle and leaves the others alone. -/
theorem find?_fill {generation : Int} {value : α} (hs : r.Replaced r' i ⟨generation, some value⟩)
    (hv : r.Vacant i) (hi : i + 1 < slotLimit) (h : Handle) :
    r'.find? h = if h = handleOf generation i then some (i, value) else r.find? h := by
  split
  · next heq =>
    subst heq
    refine find?_eq_some_iff.mpr ⟨handleOf_ne_zero hi, indexOf_handleOf hi, ?_⟩
    rw [generationOf_handleOf hi]
    exact hs.at_self
  · next hne =>
    refine Option.ext fun ⟨k, value'⟩ => ?_
    rw [find?_eq_some_iff, find?_eq_some_iff]
    refine and_congr_right fun _ => and_congr_right fun hk => ?_
    by_cases hki : k = i
    · -- a handle of the slot itself is one of another generation
      subst hki
      rw [hs.at_self]
      refine iff_of_false (fun heq => hne ?_) (hv _ _)
      cases heq
      exact (handleOf_generationOf hk).symm
    · rw [hs.at_other hki]

/-- Emptying a slot takes away the registration behind its handle and no other. -/
theorem find?_empty {generation : Int} {h : Handle} {value : α} (hs : r.Replaced r' i ⟨generation, none⟩)
    (hf : r.find? h = some (i, value)) (h' : Handle) :
    r'.find? h' = if h' = h then none else r.find? h' := by
  obtain ⟨-, hi, hslot⟩ := find?_eq_some_iff.mp hf
  refine Option.ext fun ⟨k, value'⟩ => ?_
  rw [find?_eq_some_iff]
  split
  · next heq =>
    subst heq
    refine iff_of_false ?_ (by simp)
    rintro ⟨-, hk, hs'⟩
    have hki : k = i := by omega
    subst hki
    rw [hs.at_self] at hs'
    cases hs'
  · next hne =>
    rw [find?_eq_some_iff]
    refine and_congr_right fun _ => and_congr_right fun hk => ?_
    by_cases hki : k = i
    · -- the slot had one registration, and that was the one behind `h`
      subst hki
      rw [hs.at_self, hslot]
      refine iff_of_false (by simp) fun heq => hne ?_
      have hg : generationOf h = generationOf h' := congrArg Slot.generation (Option.some.inj heq)
      rw [← handleOf_generationOf hk, ← handleOf_generationOf hi, hg]
    · rw [hs.at_other hki]

end Replaced

/-- **Registering**, inverted: a vacant slot is filled in the generation that it is in, and the handle names
both. -/
theorem register_cases (hr : r.Regular) {value : α} {h : Handle} (hreg : r.register value = .ok (h, r')) :
    ∃ i, i + 1 < slotLimit ∧ r.Vacant i ∧ h = handleOf (r.generationAt i) i ∧
      r.Replaced r' i ⟨r.generationAt i, some value⟩ ∧ r'.Regular ∧ r'.count = r.count + 1 ∧
      r'.slots.size + r.unused.length = r.slots.size + r'.unused.length + 1 := by
  unfold register at hreg
  rcases hunused : r.unused with _ | ⟨i, rest⟩
  · -- a new slot behind the others
    rw [hunused] at hreg
    dsimp only at hreg
    split at hreg
    · cases hreg
    next hlimit =>
    cases hreg
    have hnew : r.slots[r.slots.size]? = none := by simp
    have hzero : r.generationAt r.slots.size = 0 := by rw [generationAt, hnew]; rfl
    refine ⟨r.slots.size, by omega, by simp [Vacant], by rw [hzero], fun k => ?_,
      ⟨by simp [occupy], List.nodup_nil, ?_⟩, rfl, ?_⟩
    · rw [occupy, Array.getElem?_modify, Array.getElem?_push, hzero]
      by_cases hk : k = r.slots.size
      · simp [hk]
      · simp [hk, Ne.symm hk]
    · simp only [occupy, Array.size_modify, Array.size_push]
      omega
    · simp [occupy]
  · -- a slot that was given up
    rw [hunused] at hreg
    dsimp only at hreg
    cases hreg
    obtain ⟨⟨generation, old⟩, hslot, hold⟩ := hr.vacant i (by simp [hunused])
    dsimp only at hold
    subst hold
    have hsmall : i + 1 < slotLimit := by
      have hlt := (Array.getElem?_eq_some_iff.mp hslot).1
      have := hr.small
      omega
    have hg : r.generationAt i = generation := by rw [generationAt, hslot]; rfl
    have hs : r.Replaced ({ r with unused := rest }.occupy i value) i ⟨r.generationAt i, some value⟩ := by
      intro k
      rw [occupy, Array.getElem?_modify, hg]
      by_cases hk : k = i
      · subst hk
        simp [hslot]
      · simp [hk, Ne.symm hk]
    have hnodup : i ∉ rest ∧ rest.Nodup := by simpa [hunused] using hr.nodup
    refine ⟨i, hsmall, by simp [Vacant, hslot], rfl, hs, ⟨fun k hk => ?_, hnodup.2, ?_⟩, rfl, ?_⟩
    · exact hs.vacant_of_ne (fun h => hnodup.1 (h ▸ hk))
        (hr.vacant k (by rw [hunused]; exact List.mem_cons_of_mem _ hk))
    · simpa [occupy] using hr.small
    · simp [occupy]
      omega

/-- Registering fails only for want of a slot number. -/
theorem register_eq_error {value : α} {f : Fault} (hreg : r.register value = .error f) :
    f = .noSlot ∧ r.unused = [] ∧ slotLimit ≤ r.slots.size + 1 := by
  unfold register at hreg
  rcases hunused : r.unused with _ | ⟨i, rest⟩
  · -- a free slot is taken without any check
    rw [hunused] at hreg
    dsimp only at hreg
    split at hreg
    · next hlimit =>
      cases hreg
      exact ⟨rfl, rfl, hlimit⟩
    · cases hreg
  · rw [hunused] at hreg
    cases hreg

/-- **Giving up** a registration: its slot is emptied and moves on to the next generation. -/
theorem unregister_cases (hr : r.Regular) {h : Handle} {i : Nat} {value : α}
    (hf : r.find? h = some (i, value)) :
    ∃ r', r.unregister h = .ok r' ∧ r.Replaced r' i ⟨(r.generationAt i + 1) % slotLimit, none⟩ ∧
      r'.Regular ∧ r'.count = r.count - 1 ∧
      r'.slots.size = r.slots.size ∧ r'.unused.length = r.unused.length + 1 := by
  obtain ⟨-, -, hslot⟩ := find?_eq_some_iff.mp hf
  have hg : r.generationAt i = generationOf h := by rw [generationAt, hslot]; rfl
  have hs : r.Replaced
      { slots := r.slots.modify i fun slot =>
          { generation := (slot.generation + 1) % slotLimit, value := none }
        unused := i :: r.unused
        count := r.count - 1 } i ⟨(r.generationAt i + 1) % slotLimit, none⟩ := by
    intro k
    rw [Array.getElem?_modify, hg]
    by_cases hk : k = i
    · subst hk
      simp [hslot]
    · simp [hk, Ne.symm hk]
  -- the emptied slot joins the unused ones, which it was not among while it was occupied
  refine ⟨_, by rw [unregister, hf], hs, ⟨fun k hk => ?vacant, ?nodup, ?small⟩, rfl, by simp, by simp⟩
  case vacant =>
    by_cases hki : k = i
    · subst hki
      exact ⟨_, hs.at_self, rfl⟩
    · exact hs.vacant_of_ne hki (hr.vacant k ((List.mem_cons.mp hk).resolve_left hki))
  case nodup =>
    refine List.nodup_cons.mpr ⟨fun hmem => ?_, hr.nodup⟩
    obtain ⟨slot, hslot', hv⟩ := hr.vacant i hmem
    rw [hslot] at hslot'
    cases hslot'
    cases hv
  case small => simpa using hr.small

/-- What is behind no handle cannot be given up. -/
theorem unregister_eq_error {h : Handle} (hf : r.find? h = none) :
    r.unregister h = .error (if h = 0 then .nullHandle else .unknownHandle h) := by
  rw [unregister, hf]

/-! ## §3 Other registrations -/

/-- Every registration that there was is still behind its handle. -/
def Keeps (r r' : Registry α) : Prop := ∀ h i value, r.find? h = some (i, value) → r'.find? h = some (i, value)

/-- What is registered is not in a vacant slot. -/
theorem Vacant.ne {i : Nat} (hv : r.Vacant i) {h : Handle} {i' : Nat} {value : α}
    (hf : r.find? h = some (i', value)) : i' ≠ i := by
  rintro rfl
  exact hv _ _ (find?_eq_some_iff.mp hf).2.2

/-- No handle of a vacant slot names a registration. -/
theorem Vacant.find?_handleOf {i : Nat} (hv : r.Vacant i) (hi : i + 1 < slotLimit) (generation : Int) :
    r.find? (handleOf generation i) = none := by
  refine Option.eq_none_iff_forall_ne_some.mpr fun ⟨i', value⟩ hf => hv.ne hf ?_
  have := (find?_eq_some_iff.mp hf).2.1
  rw [indexOf_handleOf hi] at this
  omega

/-- **Registering**: the value is behind the new handle, in a slot that was not occupied, and nothing else
has moved. -/
theorem register_spec (hr : r.Regular) {value : α} {h : Handle} (hreg : r.register value = .ok (h, r')) :
    r'.Regular ∧ r.Keeps r' ∧ ∃ i, r'.find? h = some (i, value) ∧
      ∀ h' i' value', r.find? h' = some (i', value') → i' ≠ i := by
  obtain ⟨i, hi, hv, rfl, hs, hr', -⟩ := register_cases hr hreg
  refine ⟨hr', fun h' i' value' hf => ?_, i, ?_, fun h' i' value' hf => hv.ne hf⟩
  · rw [hs.find?_fill hv hi, if_neg ?_, hf]
    -- a handle that resolved before cannot be the new one, whose slot was vacant
    rintro rfl
    simp [hv.find?_handleOf hi] at hf
  · rw [hs.find?_fill hv hi, if_pos rfl]

/-- **Giving up** a registration succeeds and leaves the others alone. -/
theorem unregister_spec (hr : r.Regular) {h : Handle} {i : Nat} {value : α}
    (hf : r.find? h = some (i, value)) :
    ∃ r', r.unregister h = .ok r' ∧ r'.Regular ∧
      ∀ h' i' value', r.find? h' = some (i', value') → i' ≠ i → r'.find? h' = some (i', value') := by
  obtain ⟨r', hun, hs, hr', -⟩ := unregister_cases hr hf
  refine ⟨r', hun, hr', fun h' i' value' hf' hne => ?_⟩
  rw [hs.find?_empty hf, if_neg ?_, hf']
  -- another slot has another handle
  rintro rfl
  rw [hf] at hf'
  cases hf'
  exact hne rfl

/-! ## §4 Coming and going -/

/-- The same registrations under the same handles. Slots that are not in use may differ. -/
structure SameEntries (r r' : Registry α) : Prop where
  find?_eq : ∀ h, r'.find? h = r.find? h
  count_eq : r'.count = r.count
  regular : r.Regular → r'.Regular

protected theorem SameEntries.refl (r : Registry α) : r.SameEntries r := ⟨fun _ => rfl, rfl, id⟩

protected theorem SameEntries.trans {r'' : Registry α} (h₁ : r.SameEntries r') (h₂ : r'.SameEntries r'') :
    r.SameEntries r'' :=
  ⟨fun h => (h₂.find?_eq h).trans (h₁.find?_eq h), h₂.count_eq.trans h₁.count_eq,
    fun h => h₂.regular (h₁.regular h)⟩

/-- A new handle is one that nothing was behind, and nothing else has moved. -/
theorem register_find? (hr : r.Regular) {value : α} {h : Handle} (hreg : r.register value = .ok (h, r')) :
    r.find? h = none ∧ ∃ i, ∀ k, r'.find? k = if k = h then some (i, value) else r.find? k := by
  obtain ⟨i, hi, hv, rfl, hs, -⟩ := register_cases hr hreg
  exact ⟨hv.find?_handleOf hi _, i, hs.find?_fill hv hi⟩

/-- **A registration that comes and goes** leaves the same entries as before. -/
theorem unregister_of_register (hr : r.Regular) {value : α} {h : Handle}
    (hreg : r.register value = .ok (h, r')) {r'' : Registry α} (hsame : r'.SameEntries r'') :
    ∃ r₃, r''.unregister h = .ok r₃ ∧ r.SameEntries r₃ := by
  obtain ⟨hnone, i, hfind⟩ := register_find? hr hreg
  obtain ⟨-, -, -, -, -, hr', hcount, -⟩ := register_cases hr hreg
  have hfound : r''.find? h = some (i, value) := by rw [hsame.find?_eq, hfind, if_pos rfl]
  obtain ⟨r₃, hun, hs, hr₃, hcount₃, -⟩ := unregister_cases (hsame.regular hr') hfound
  refine ⟨r₃, hun, fun k => ?_, ?_, fun _ => hr₃⟩
  · -- emptying the slot undoes what filling it had added
    rw [hs.find?_empty hfound, hsame.find?_eq, hfind]
    split
    · next hk => rw [hk, hnone]
    · rfl
  · rw [hcount₃, hsame.count_eq, hcount, Nat.add_sub_cancel]

/-- How many more registrations there are slot numbers for. -/
def room (r : Registry α) : Nat := r.unused.length + (slotLimit - 1 - r.slots.size)

/-- A registration takes the room of one value. -/
theorem room_of_register (hr : r.Regular) {value : α} {h : Handle} (hreg : r.register value = .ok (h, r')) :
    r'.room + 1 = r.room := by
  obtain ⟨-, -, -, -, -, hr', -, hsize⟩ := register_cases hr hreg
  have hsmall := hr.small
  have hsmall' := hr'.small
  unfold room
  omega

/-- A registration fails only where there is no room. -/
theorem room_of_register_error {value : α} {f : Fault} (hreg : r.register value = .error f) :
    f = .noSlot ∧ r.room = 0 := by
  obtain ⟨hf, hunused, hlimit⟩ := register_eq_error hreg
  refine ⟨hf, ?_⟩
  rw [room, hunused, List.length_nil]
  omega

end Registry

end LinearProgram
