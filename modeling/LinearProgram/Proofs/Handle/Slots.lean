import Mathlib.Data.List.Induction
import Mathlib.Order.Bounds.Basic
import LinearProgram.Proofs.Handle.Record

/-!
# Slots are used again

The arena grows only when every slot that it has is occupied. So the number of its slots is the largest number of
registrations that were live at the same time so far, whatever was registered and given up in between, and the list
of the unused slots holds the vacant ones and nothing else, each of them once. The registry is full when that many
registrations are live as there are slot numbers, and refuses without a trace.

What a request can do to the registry is said once, in `Request.next_cases`; the invariants follow from it.
-/

namespace LinearProgram

namespace Registry

variable {α : Type} {r r' : Registry α} {s : RegistryStep.Run α} {t : List (Exchange α)}

/-! ## §1 What a request can do -/

/-- **A request**, inverted: it registers, gives up, or leaves the registry as it is. -/
theorem Request.next_cases (q : Request α) (s : RegistryStep.Run α) :
    (∃ value h, s.registry.register value = .ok (h, (q.next s).registry)) ∨
      (∃ h, s.registry.unregister h = .ok (q.next s).registry) ∨ (q.next s).registry = s.registry := by
  cases q with
  | register value =>
    rcases hreg : s.registry.register value with f | ⟨h, r'⟩
    · have hnext := (RegistryStep.register_exchange_of_error (RegistryStep.Run.register_of_error hreg)).2
      exact Or.inr (Or.inr (congrArg _ hnext))
    · have hnext := (RegistryStep.register_exchange_of_ok (RegistryStep.Run.register_of_ok hreg)).2
      exact Or.inl ⟨value, h, by rw [hnext]; exact hreg⟩
  -- no handle at all is refused before the registry is looked at
  | unregister h? =>
    cases h? with
    | none => exact Or.inr (Or.inr rfl)
    | some h =>
      rw [RegistryStep.next_unregister, RegistryStep.Run.unregister]
      cases hun : s.registry.unregister h with
      | error f => exact Or.inr (Or.inr rfl)
      | ok r' => exact Or.inr (Or.inl ⟨h, hun⟩)
  | resolve h? => cases h? <;> exact Or.inr (Or.inr rfl)
  | size => exact Or.inr (Or.inr rfl)

/-- **Registering**, seen from the list of the unused slots: the slot of the new handle is its head, or a new slot if
the list is empty. -/
theorem register_unused {value : α} {h : Handle} (hreg : r.register value = .ok (h, r')) :
    ∃ i generation, h = handleOf generation i ∧ r'.count = r.count + 1 ∧
      ((r.unused = i :: r'.unused ∧ r'.slots.size = r.slots.size) ∨
        (r.unused = [] ∧ r'.unused = [] ∧ i = r.slots.size ∧ i + 1 < slotLimit ∧ r'.slots.size = r.slots.size + 1)) := by
  unfold register at hreg
  rcases hunused : r.unused with _ | ⟨i, rest⟩ <;> rw [hunused] at hreg <;> dsimp only at hreg
  · -- no free slot: the table grows by one
    split at hreg
    · cases hreg
    · cases hreg
      exact ⟨r.slots.size, 0, rfl, rfl, Or.inr ⟨rfl, by simp [occupy], rfl, by omega, by simp [occupy]⟩⟩
  · cases hreg
    exact ⟨i, _, rfl, rfl, Or.inl ⟨by simp [occupy], by simp [occupy]⟩⟩

/-! ## §2 Vacant slots are listed -/

/-- Every vacant slot is in the list of the unused ones. -/
def Listed (r : Registry α) : Prop := ∀ i, i < r.slots.size → r.Vacant i → i ∈ r.unused

theorem listed_empty : (empty : Registry α).Listed := fun i hi => by simp [empty] at hi

/-- A registration takes the first free slot off the list, or adds a slot. -/
theorem Listed.register (hl : r.Listed) (hr : r.Regular) {value : α} {h : Handle}
    (hreg : r.register value = .ok (h, r')) : r'.Listed := by
  obtain ⟨i, hi, hv, hhandle, hs, hr', -⟩ := register_cases hr hreg
  obtain ⟨j, generation, hhandle', -, hlist⟩ := register_unused hreg
  intro k hk hvacant
  have hki : k ≠ i := fun heq => hvacant _ _ (heq ▸ hs.at_self)
  have hbefore : r.Vacant k := fun generation' value' => by
    rw [← hs.at_other hki]
    exact hvacant _ _
  -- the handle tells that the slot which was filled is the one that was taken from the list
  have hij (hj : j + 1 < slotLimit) : j = i := by
    have heq := congrArg indexOf (hhandle.symm.trans hhandle')
    rw [indexOf_handleOf hi, indexOf_handleOf hj] at heq
    omega
  rcases hlist with ⟨hunused, hsize⟩ | ⟨hunused, -, rfl, hj, hsize⟩
  · have hj : j < r.slots.size := by
      obtain ⟨slot, hslot, -⟩ := hr.vacant j (by simp [hunused])
      exact (Array.getElem?_eq_some_iff.mp hslot).1
    have hmem := hl k (by omega) hbefore
    rw [hunused, hij (by have := hr.small; omega)] at hmem
    exact (List.mem_cons.mp hmem).resolve_left hki
  · have hmem := hl k (by have := hij hj; omega) hbefore
    simp [hunused] at hmem

/-- A removal puts the slot back on the list. -/
theorem Listed.unregister (hl : r.Listed) (hr : r.Regular) {h : Handle} (hun : r.unregister h = .ok r') :
    r'.Listed ∧ r'.count = r.count - 1 ∧ r'.slots.size = r.slots.size := by
  rcases hf : r.find? h with _ | ⟨i, value⟩
  · rw [unregister_eq_error hf] at hun
    cases hun
  obtain ⟨r'', hun', hs, hr', hcount, hsize, hlength⟩ := unregister_cases hr hf
  cases hun'.symm.trans hun
  have hunused : r'.unused = i :: r.unused := by
    rw [Registry.unregister, hf] at hun
    cases hun
    rfl
  refine ⟨fun k hk hvacant => ?_, hcount, hsize⟩
  rw [hunused, List.mem_cons]
  -- the slot that was given up is listed now, and the others are as they were
  refine or_iff_not_imp_left.mpr fun hki => hl k (by omega) fun generation' value' => ?_
  rw [← hs.at_other hki]
  exact hvacant _ _

/-- **One request** keeps every vacant slot listed, and makes a slot only when the registrations need one more than
there are. -/
theorem Agrees.request_listed (ha : Agrees t s.registry) (hl : s.registry.Listed) (q : Request α) :
    (q.next s).registry.Listed ∧
      (q.next s).registry.slots.size = max (q.next s).registry.count s.registry.slots.size := by
  have hcomplete := ha.complete
  rcases q.next_cases s with ⟨value, h, hreg⟩ | ⟨h, hun⟩ | hsame
  · refine ⟨hl.register ha.regular hreg, ?_⟩
    obtain ⟨i, generation, -, hcount, ⟨hunused, hsize⟩ | ⟨hunused, -, -, -, hsize⟩⟩ := register_unused hreg
    · -- a listed slot is taken, so there were more slots than registrations
      rw [hunused, List.length_cons] at hcomplete
      omega
    · -- no slot was left, so there were as many as registrations
      rw [hunused, List.length_nil] at hcomplete
      omega
  · obtain ⟨hlisted, hcount, hsize⟩ := hl.unregister ha.regular hun
    exact ⟨hlisted, by omega⟩
  · rw [hsame]
    exact ⟨hl, by omega⟩

/-! ## §3 How many slots there are -/

/-- The numbers of registrations that were live at some moment so far. -/
def liveCounts (t : List (Exchange α)) : Set Nat := (fun u => (live u).keys.length) '' { u | u <+: t }

theorem liveCounts_concat (t : List (Exchange α)) (e : Exchange α) :
    liveCounts (t ++ [e]) = insert (live (t ++ [e])).keys.length (liveCounts t) := by
  have hprefixes : { u | u <+: t ++ [e] } = insert (t ++ [e]) { u | u <+: t } :=
    Set.ext fun u => List.prefix_concat_iff
  rw [liveCounts, hprefixes, Set.image_insert_eq, liveCounts]

/-- **All requests**: vacant slots are listed, and there are as many slots as registrations were ever live at the same
time. -/
theorem slots_after (requests : List (Request α)) :
    (after requests).Listed ∧ IsGreatest (liveCounts (journal requests)) (after requests).slots.size := by
  -- a journal grows at its end, so the last request is split off
  induction requests using List.reverseRecOn with
  | nil =>
    have hnil : liveCounts (journal ([] : List (Request α))) = {0} := by
      simp [liveCounts, journal, List.prefix_nil, live]
    rw [hnil]
    exact ⟨listed_empty, isGreatest_singleton⟩
  | append_singleton qs q ih =>
    have ha := agrees_journal qs
    obtain ⟨hlisted, hsize⟩ := Agrees.request_listed (s := conclusion .start qs) ha ih.1 q
    rw [after_concat, journal_concat, liveCounts_concat, hsize]
    refine ⟨hlisted, ?_⟩
    rw [(ha.exchange q).agrees.count_eq]
    exact ih.2.insert _

/-! ## §4 The account of the slots -/

/-- What the exchanges `t` since the beginning, which led to the state `s`, tell about its slots. -/
structure SlotsAccounted (t : List (Exchange α)) (s : RegistryStep.Run α) : Prop where
  resolve_eq : ∀ h, s.registry.resolve h = (live t).lookup h
  size_greatest : IsGreatest (liveCounts t) s.registry.slots.size
  unused_lt : ∀ i ∈ s.registry.unused, i < s.registry.slots.size
  vacant_once : ∀ i, i < s.registry.slots.size → s.registry.Vacant i → s.registry.unused.count i = 1
  occupied_never : ∀ i, ¬ s.registry.Vacant i → i ∉ s.registry.unused
  full_iff : ∀ value, (∃ f, s.register value = .error f) ↔ (live t).keys.length = slotLimit - 1
  refused : ∀ value f, s.register value = .error f → f.kind = .overflow ∧
    RegistryStep.run s (.register value) = (.fault f, s) ∧
    ∀ body raises, RegistryStep.run s (.block value body raises) = (.fault f, s)

/-- A registration fails exactly if all slots are taken. -/
theorem Agrees.register_error_iff (ha : Agrees t s.registry) (value : α) :
    (∃ f, s.register value = .error f) ↔ (live t).keys.length = slotLimit - 1 := by
  have hfits := (ha.register value).fits
  have hlimit : slotLimit = 4294967296 := rfl
  rcases hreg : s.register value with f | ⟨h, s₁⟩
  · rw [(RegistryStep.register_exchange_of_error hreg).1] at hfits
    -- a fault was answered, so no handle was
    rcases hfits with ⟨-, h, hanswer, -⟩ | ⟨hfull, -⟩
    · cases hanswer
    · exact iff_of_true ⟨f, rfl⟩ (by omega)
  · rw [(RegistryStep.register_exchange_of_ok hreg).1] at hfits
    rcases hfits with ⟨hroom, -⟩ | ⟨-, hanswer⟩
    · exact iff_of_false (by simp) (by omega)
    · cases hanswer

/-- **The slots are accounted for** after any requests. -/
theorem slotsAccounted (requests : List (Request α)) :
    SlotsAccounted (journal requests) (conclusion .start requests) := by
  have ha := agrees_journal requests
  obtain ⟨hlisted, hgreatest⟩ := slots_after requests
  -- what the free list names holds no value
  have hunused {i : Nat} (hi : i ∈ (after requests).unused) : (after requests).Vacant i := by
    obtain ⟨slot, hslot, hvalue⟩ := ha.regular.vacant i hi
    intro generation value heq
    cases hslot.symm.trans heq
    cases hvalue
  refine ⟨ha.resolve_eq, hgreatest, fun i hi => ?_, fun i hi hv => ?_, fun i hv hi => hv (hunused hi),
    fun value => Agrees.register_error_iff (s := conclusion .start requests) ha value, fun value f hreg => ?_⟩
  · obtain ⟨slot, hslot, -⟩ := ha.regular.vacant i hi
    exact (Array.getElem?_eq_some_iff.mp hslot).1
  · exact List.count_eq_one_of_mem ha.regular.nodup (hlisted i hi hv)
  · -- the one way for a registration to fail is the full table
    have hkind : f.kind = .overflow := by
      rcases hreg' : (conclusion .start requests).registry.register value with f' | ⟨h, r'⟩
      · cases hreg.symm.trans (RegistryStep.Run.register_of_error hreg')
        rw [(register_eq_error hreg').1]
        rfl
      · cases hreg.symm.trans (RegistryStep.Run.register_of_ok hreg')
    exact ⟨hkind, by simp only [RegistryStep.run, hreg], RegistryStep.run_block_of_error hreg⟩

end Registry

namespace RegistryStep

open Registry

variable {α : Type}

/-- **Slots are used again**, at every moment of every program, blocks and failed operations included: there are as
many slots as registrations were ever live at the same time, the list of the unused ones holds each vacant slot once
and no occupied one, and the registry refuses exactly when `slotLimit - 1` registrations are live, and then without a
trace. -/
theorem slots_reused (program : List (RegistryStep α)) (hordinary : AllOrdinary program) :
    ∃ requests, journal requests = asked (recordAll .start program) ∧
      conclusion .start requests = (runAll .start program).2 ∧
      ∀ earlier, earlier <+: requests → SlotsAccounted (journal earlier) (conclusion .start earlier) := by
  obtain ⟨requests, hjournal, hend⟩ := recordAll_leads .start program hordinary
  exact ⟨requests, hjournal, hend, fun earlier _ => slotsAccounted earlier⟩

/-- A block in which something is registered for a while, and a registration after it. -/
private def passing : List (RegistryStep Nat) :=
  [.block 5 [.register 6, .unregister (.issued 1)] none, .unregister (.number 7), .register 8]

/-- Two slots are enough for the three registrations, and the second one is unused in the end. -/
theorem slots_reused_after_block :
    ∃ requests, journal requests = asked (recordAll .start passing) ∧ IsGreatest (liveCounts (journal requests)) 2 ∧
      (after requests).unused = [1] := by
  obtain ⟨requests, hjournal, hend, hall⟩ := slots_reused passing (by simp [passing, AllOrdinary, Ordinary])
  have hgreatest := (hall requests List.prefix_rfl).size_greatest
  rw [hend] at hgreatest
  exact ⟨requests, hjournal, hgreatest, congrArg (·.registry.unused) hend⟩

end RegistryStep

end LinearProgram
