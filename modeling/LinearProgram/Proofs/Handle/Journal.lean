import Mathlib.Data.List.AList
import LinearProgram.Handle.Block
import LinearProgram.Proofs.Handle

/-!
# The registry is a finite map

The journal of a registry lists what was asked of it since it was made, with the answers. What is live at
some point can be read off the journal alone, as a finite map from handles to values, and so can the number
of times that a slot was given up. Every answer of the registry is the answer of that map.

The registry never looks at its past to give out a handle. That the handle is new rests on the slot: it is
vacant, and its generation counts the times it was given up, up to 32 bits. So a handle comes back only after
its slot went through all generations.

Between two points of a journal handles are conserved: those live at the second, with those removed in between, are
those live at the first, with those given out in between.
-/

namespace LinearProgram

open scoped List

namespace Registry

variable {α : Type}

/-! ## §1 Journals -/

/-- What may be asked of a registry. Any number may be offered as a handle, and null. -/
inductive Request (α : Type) where
  | register (value : α)
  | resolve (handle : Option Handle)
  | unregister (handle : Option Handle)
  | size

/-- How an operation names a number or null. -/
def offered : Option Handle → HandleReference
  | some h => .number h
  | none => .null

def Request.step : Request α → RegistryStep α
  | .register value => .register value
  | .resolve h => .resolve (offered h)
  | .unregister h => .unregister (offered h)
  | .size => .size

/-- A request with the answer to it. -/
structure Exchange (α : Type) where
  request : Request α
  answer : RegistryAnswer α

/-- The requests made one after the other, with their answers. -/
def exchanges (s : RegistryStep.Run α) (requests : List (Request α)) : List (Exchange α) :=
  List.zipWith Exchange.mk requests (RegistryStep.runAll s (requests.map Request.step)).1

/-- What the requests lead to. -/
def conclusion (s : RegistryStep.Run α) (requests : List (Request α)) : RegistryStep.Run α :=
  (RegistryStep.runAll s (requests.map Request.step)).2

/-- The journal of a registry that was new before the requests. -/
def journal (requests : List (Request α)) : List (Exchange α) := exchanges .start requests

/-- The registry that was new before the requests. -/
def after (requests : List (Request α)) : Registry α := (conclusion .start requests).registry

def Request.exchange (q : Request α) (s : RegistryStep.Run α) : Exchange α := ⟨q, (RegistryStep.run s q.step).1⟩

def Request.next (q : Request α) (s : RegistryStep.Run α) : RegistryStep.Run α := (RegistryStep.run s q.step).2

section Splitting

variable (s : RegistryStep.Run α)

@[simp]
theorem exchanges_nil : exchanges s [] = [] := rfl

@[simp]
theorem exchanges_cons (q : Request α) (qs : List (Request α)) :
    exchanges s (q :: qs) = q.exchange s :: exchanges (q.next s) qs := rfl

@[simp]
theorem conclusion_nil : conclusion s [] = s := rfl

@[simp]
theorem conclusion_cons (q : Request α) (qs : List (Request α)) :
    conclusion s (q :: qs) = conclusion (q.next s) qs := rfl

/-- Requests lead on from where the earlier ones have led. -/
theorem conclusion_append (xs ys : List (Request α)) :
    conclusion s (xs ++ ys) = conclusion (conclusion s xs) ys := by
  induction xs generalizing s with
  | nil => rfl
  | cons q xs ih => exact ih _

/-- The exchanges of further requests come after those of the earlier ones. -/
theorem exchanges_append (xs ys : List (Request α)) :
    exchanges s (xs ++ ys) = exchanges s xs ++ exchanges (conclusion s xs) ys := by
  induction xs generalizing s with
  | nil => rfl
  | cons q xs ih => simp [ih]

/-- Where a journal is cut, the requests are cut. -/
theorem exchanges_eq_append {qs : List (Request α)} {t u : List (Exchange α)}
    (h : exchanges s qs = t ++ u) :
    ∃ xs ys, qs = xs ++ ys ∧ exchanges s xs = t ∧ exchanges (conclusion s xs) ys = u := by
  -- on the front part of the exchanges, one request at a time
  induction t generalizing s qs with
  | nil => exact ⟨[], qs, rfl, rfl, h⟩
  | cons e t ih =>
    cases qs with
    | nil => cases h
    | cons q qs =>
      rw [exchanges_cons, List.cons_append, List.cons.injEq] at h
      obtain ⟨xs, ys, rfl, hxs, hys⟩ := ih _ h.2
      exact ⟨q :: xs, ys, rfl, by rw [exchanges_cons, h.1, hxs], hys⟩

/-- The exchange at a place of a journal is brought about by a request at that place. -/
theorem exchanges_eq_append_cons {qs : List (Request α)} {t u : List (Exchange α)} {e : Exchange α}
    (h : exchanges s qs = t ++ e :: u) :
    ∃ (xs : List (Request α)) (q : Request α), exchanges s xs = t ∧ q.exchange (conclusion s xs) = e := by
  obtain ⟨xs, ys, -, hxs, hys⟩ := exchanges_eq_append s h
  cases ys with
  | nil => cases hys
  | cons q ys => exact ⟨xs, q, hxs, (List.cons.inj hys).1⟩

end Splitting

section Leading

variable {s s' s'' : RegistryStep.Run α} {u v : List (Exchange α)}

/-- The exchanges are those of requests that lead from one state to the other. -/
def Leads (s : RegistryStep.Run α) (u : List (Exchange α)) (s' : RegistryStep.Run α) : Prop :=
  ∃ requests, exchanges s requests = u ∧ conclusion s requests = s'

theorem Leads.nil (s : RegistryStep.Run α) : Leads s [] s := ⟨[], rfl, rfl⟩

theorem Leads.cons (q : Request α) (h : Leads (q.next s) u s') : Leads s (q.exchange s :: u) s' := by
  obtain ⟨qs, rfl, rfl⟩ := h
  exact ⟨q :: qs, rfl, rfl⟩

theorem Leads.single (q : Request α) (s : RegistryStep.Run α) : Leads s [q.exchange s] (q.next s) := .cons q (.nil _)

theorem Leads.append (h₁ : Leads s u s') (h₂ : Leads s' v s'') : Leads s (u ++ v) s'' := by
  obtain ⟨xs, rfl, rfl⟩ := h₁
  obtain ⟨ys, rfl, rfl⟩ := h₂
  exact ⟨xs ++ ys, exchanges_append s xs ys, conclusion_append s xs ys⟩

/-- Where the exchanges are cut, there is a state in between. -/
theorem Leads.split (h : Leads s (u ++ v) s'') : ∃ s', Leads s u s' ∧ Leads s' v s'' := by
  obtain ⟨qs, hqs, rfl⟩ := h
  obtain ⟨xs, ys, rfl, hxs, hys⟩ := exchanges_eq_append s hqs
  exact ⟨_, ⟨xs, hxs, rfl⟩, ys, hys, (conclusion_append s xs ys).symm⟩

/-- The first exchange is that of a request. -/
theorem Leads.uncons {e : Exchange α} (h : Leads s (e :: u) s') :
    ∃ q : Request α, e = q.exchange s ∧ Leads (q.next s) u s' := by
  obtain ⟨qs, hqs, rfl⟩ := h
  cases qs with
  | nil => cases hqs
  | cons q qs =>
    obtain ⟨rfl, rfl⟩ := List.cons.inj hqs
    exact ⟨q, rfl, qs, rfl, rfl⟩

end Leading

/-! ## §2 What a journal says -/

/-- The handle that was given out in an exchange. -/
def Exchange.issued? (e : Exchange α) : Option Handle :=
  match e.request, e.answer with
  | .register _, .handle h => some h
  | _, _ => none

/-- The handle whose registration was removed in an exchange. -/
def Exchange.removed? (e : Exchange α) : Option Handle :=
  match e.request, e.answer with
  | .unregister (some h), .done => some h
  | _, _ => none

/-- The finite map from handles to values, revised by an exchange. -/
def Exchange.revise (m : AList fun _ : Handle => α) (e : Exchange α) : AList fun _ : Handle => α :=
  match e.request, e.answer with
  | .register value, .handle h => m.insert h value
  | .unregister (some h), .done => m.erase h
  | _, _ => m

def live (t : List (Exchange α)) : AList fun _ : Handle => α := t.foldl Exchange.revise ∅

def issued (t : List (Exchange α)) : List Handle := t.filterMap Exchange.issued?

/-- The handles whose registrations were removed, in order. -/
def removed (t : List (Exchange α)) : List Handle := t.filterMap Exchange.removed?

/-- How often the slot at an index was given up. -/
def removals (i : Int) (t : List (Exchange α)) : Nat := (removed t).countP (indexOf · = i)

/-- The answer is the one that the finite map of the live registrations gives. -/
def Exchange.Fits (m : AList fun _ : Handle => α) (e : Exchange α) : Prop :=
  match e.request with
  | .register _ =>
    (m.keys.length + 1 < slotLimit ∧
      ∃ h, e.answer = .handle h ∧ 0 < h ∧ h < 18446744073709551616 ∧ h ∉ m) ∨
    -- all slot numbers are in use
    (m.keys.length + 1 = slotLimit ∧ e.answer = .fault .noSlot)
  | .resolve h => e.answer = .value (h.bind m.lookup)
  | .unregister h =>
    if (h.bind m.lookup).isSome then e.answer = .done
    else ∃ f, e.answer = .fault f ∧ f.kind = .missingKey
  | .size => e.answer = .size m.keys.length

@[simp]
theorem live_concat (t : List (Exchange α)) (e : Exchange α) : live (t ++ [e]) = e.revise (live t) := by
  simp [live]

@[simp]
theorem removed_append (t u : List (Exchange α)) : removed (t ++ u) = removed t ++ removed u :=
  List.filterMap_append ..

@[simp]
theorem issued_append (t u : List (Exchange α)) : issued (t ++ u) = issued t ++ issued u :=
  List.filterMap_append ..

@[simp]
theorem issued_singleton (e : Exchange α) : issued [e] = e.issued?.toList := by
  cases h : e.issued? <;> simp [issued, h]

@[simp]
theorem removed_singleton (e : Exchange α) : removed [e] = e.removed?.toList := by
  cases h : e.removed? <;> simp [removed, h]

@[simp]
theorem removals_append (i : Int) (t u : List (Exchange α)) :
    removals i (t ++ u) = removals i t + removals i u := by
  simp [removals]

/-- Something was given up in the slot of a handle that was removed. -/
theorem removals_pos {h : Handle} {t : List (Exchange α)} (hm : h ∈ removed t) : 0 < removals (indexOf h) t :=
  List.countP_pos_iff.mpr ⟨h, hm, by simp⟩

/-! ## §3 The registry agrees with its journal -/

/-- The registry holds what its journal says. -/
structure Agrees (t : List (Exchange α)) (r : Registry α) : Prop where
  regular : r.Regular
  complete : r.slots.size = r.count + r.unused.length
  resolve_eq : ∀ h, r.resolve h = (live t).lookup h
  count_eq : r.count = (live t).keys.length
  generation_eq : ∀ i : Nat, r.generationAt i = (removals i t : Int) % slotLimit

variable {t : List (Exchange α)} {r r' : Registry α} {s : RegistryStep.Run α}

/-- The empty registry agrees with the empty journal. -/
theorem agrees_start : Agrees [] (.empty : Registry α) where
  regular := regular_empty
  complete := rfl
  resolve_eq h := by simp [resolve, find?, empty, live]
  count_eq := rfl
  generation_eq i := by simp [generationAt, empty, removals, removed]

theorem Agrees.mem_live (ha : Agrees t r) {h : Handle} : h ∈ live t ↔ (r.find? h).isSome := by
  rw [← AList.lookup_isSome, ← ha.resolve_eq, resolve, Option.isSome_map]

/-- An exchange that neither gave out a handle nor removed a registration. -/
theorem Agrees.quiet (ha : Agrees t r) {e : Exchange α} (hlive : e.revise (live t) = live t)
    (hremoved : e.removed? = none) : Agrees (t ++ [e]) r := by
  have hnone (i : Int) : removals i [e] = 0 := by simp [removals, removed, hremoved]
  refine ⟨ha.regular, ha.complete, ?_, ?_, fun i => ?_⟩
  · simpa [hlive] using ha.resolve_eq
  · simpa [hlive] using ha.count_eq
  · simpa [hnone] using ha.generation_eq i

/-- The number behind what is offered as a handle. Null is zero, which is the handle of nothing. -/
theorem Agrees.handle_offered (ha : Agrees t s.registry) (h? : Option Handle) :
    ∃ h, s.handle (offered h?) = .ok h ∧ s.registry.resolve h = h?.bind (live t).lookup := by
  cases h? with
  | none => exact ⟨0, rfl, by simp [resolve, find?]⟩
  | some h => exact ⟨h, rfl, ha.resolve_eq h⟩

/-- The handles of slots with numbers and generations of 32 bits are positive numbers of 64 bits. -/
theorem handleOf_bounds {generation : Int} {i : Nat} (h0 : 0 ≤ generation) (hg : generation < slotLimit)
    (hi : i + 1 < slotLimit) :
    0 < handleOf generation i ∧ handleOf generation i < 18446744073709551616 := by
  unfold slotLimit at hg hi
  have hbounds : 0 < generation * 4294967296 + ((i : Int) + 1) ∧
      generation * 4294967296 + ((i : Int) + 1) < 18446744073709551616 := by omega
  exact hbounds

/-- The handle given out in an exchange names a slot, and counts how often the slot was given up before. -/
def Exchange.Numbered (t : List (Exchange α)) (e : Exchange α) : Prop :=
  ∀ h, e.issued? = some h →
    ∃ i : Nat, i + 1 < slotLimit ∧ h = handleOf ((removals i t : Int) % slotLimit) i

theorem Exchange.Numbered.of_issued?_eq_none {t : List (Exchange α)} {e : Exchange α} (h : e.issued? = none) :
    e.Numbered t := fun k hk => by
  rw [h] at hk
  cases hk

/-- What is shown of one exchange. -/
structure Advances (t : List (Exchange α)) (r : Registry α) (e : Exchange α) (r' : Registry α) : Prop where
  fits : e.Fits (live t)
  agrees : Agrees (t ++ [e]) r'
  numbered : e.Numbered t
  refused : ∀ f, e.answer = .fault f → r' = r

/-- If every slot number is in use, registering is refused. -/
private theorem Agrees.register_full (ha : Agrees t s.registry) {value : α} {f : Fault}
    (hreg : s.registry.register value = .error f) :
    Advances t s.registry ((Request.register value).exchange s) ((Request.register value).next s).registry := by
  obtain ⟨rfl, hunused, hlimit⟩ := register_eq_error hreg
  have hrun : RegistryStep.run s (.register value) = (.fault .noSlot, s) := by
    simp [RegistryStep.run, RegistryStep.Run.register, hreg]
  -- every slot that is not free is live, so the live handles fill the table
  have hfull : (live t).keys.length + 1 = slotLimit := by
    have := ha.regular.small
    have := ha.complete
    have := ha.count_eq
    rw [hunused, List.length_nil] at *
    omega
  rw [Request.exchange, Request.next, Request.step, hrun]
  exact ⟨Or.inr ⟨hfull, rfl⟩, ha.quiet rfl rfl, .of_issued?_eq_none rfl, fun _ _ => rfl⟩

/-- A vacant slot is filled, and the journal says so. -/
private theorem Agrees.fill (ha : Agrees t r) {value : α} {i : Nat} (hi : i + 1 < slotLimit)
    (hv : r.Vacant i) (hs : r.Replaced r' i ⟨r.generationAt i, some value⟩) (hr' : r'.Regular)
    (hcount : r'.count = r.count + 1)
    (hsize : r'.slots.size + r.unused.length = r.slots.size + r'.unused.length + 1)
    (hnew : handleOf (r.generationAt i) i ∉ live t) :
    Agrees (t ++ [⟨.register value, .handle (handleOf (r.generationAt i) i)⟩]) r' where
  regular := hr'
  complete := by
    have := ha.complete
    omega
  resolve_eq h := by
    rw [live_concat]
    dsimp only [Exchange.revise]
    rw [resolve, hs.find?_fill hv hi]
    -- the handle just given, and every other one
    split
    · next heq =>
      subst heq
      rw [AList.lookup_insert]
      rfl
    · next hne => rw [AList.lookup_insert_ne hne, ← ha.resolve_eq]; rfl
  count_eq := by
    rw [live_concat]
    dsimp only [Exchange.revise]
    rw [hcount, AList.keys_insert, List.length_cons, List.erase_of_not_mem, ha.count_eq]
    exact hnew
  generation_eq k := by
    rw [hs.generationAt_eq, removals_append]
    split
    · next heq =>
      subst heq
      rw [ha.generation_eq]
      rfl
    · rw [ha.generation_eq]
      rfl

/-- A registration keeps the agreement, and issues a handle that is not live. -/
theorem Agrees.register (ha : Agrees t s.registry) (value : α) :
    Advances t s.registry ((Request.register value).exchange s) ((Request.register value).next s).registry := by
  rcases hreg : s.registry.register value with f | ⟨h, r'⟩
  · exact ha.register_full hreg
  obtain ⟨i, hi, hv, rfl, hs, hr', hcount, hsize⟩ := register_cases ha.regular hreg
  have hrun : RegistryStep.run s (.register value) =
      (.handle (handleOf (s.registry.generationAt i) i),
        ⟨r', s.issued.push (handleOf (s.registry.generationAt i) i)⟩) := by
    simp [RegistryStep.run, RegistryStep.Run.register, hreg]
  have hgen := ha.generation_eq i
  -- the slot was vacant, so the handle that is given out was not live
  have hnew : handleOf (s.registry.generationAt i) i ∉ live t := by
    rw [ha.mem_live, hv.find?_handleOf hi]
    simp
  have hnonneg : 0 ≤ s.registry.generationAt i := by
    rw [hgen]
    exact Int.emod_nonneg _ (by simp [slotLimit])
  have hlt : s.registry.generationAt i < slotLimit := by
    rw [hgen]
    exact Int.emod_lt_of_pos _ (by simp [slotLimit])
  have hbounds := handleOf_bounds hnonneg hlt hi
  have hroom : (live t).keys.length + 1 < slotLimit := by
    have := hr'.small
    have := ha.complete
    have := ha.count_eq
    omega
  rw [Request.exchange, Request.next, Request.step, hrun]
  refine ⟨Or.inl ⟨hroom, _, rfl, hbounds.1, hbounds.2, hnew⟩, ha.fill hi hv hs hr' hcount hsize hnew,
    fun h hissued => ?numbered, fun f hf => ?refused⟩
  case numbered =>
    cases hissued
    exact ⟨i, hi, by rw [hgen]⟩
  case refused => cases hf

/-- What no registration is behind cannot be given up, and nothing changes. -/
private theorem Agrees.unregister_unknown (ha : Agrees t s.registry) {h? : Option Handle} {h : Handle}
    (hoffered : s.handle (offered h?) = .ok h) (hlookup : s.registry.resolve h = h?.bind (live t).lookup)
    (hf : s.registry.find? h = none) :
    Advances t s.registry ((Request.unregister h?).exchange s) ((Request.unregister h?).next s).registry := by
  have hrun : RegistryStep.run s (.unregister (offered h?)) =
      (.fault (if h = 0 then .nullHandle else .unknownHandle h), s) := by
    simp [RegistryStep.run, RegistryStep.Run.unregister, hoffered, bind, Except.bind, unregister_eq_error hf]
  rw [Request.exchange, Request.next, Request.step, hrun]
  refine ⟨?_, ha.quiet ?_ ?_, ?_, fun _ _ => rfl⟩
  · dsimp only [Exchange.Fits]
    rw [← hlookup, resolve, hf, if_neg (by simp)]
    refine ⟨_, rfl, ?_⟩
    -- the null handle has a message of its own
    split <;> rfl
  · cases h? <;> rfl
  · cases h? <;> rfl
  · exact .of_issued?_eq_none (by cases h? <;> rfl)

/-- A slot is emptied and moves on to its next generation, and the journal says so. -/
private theorem Agrees.empty (ha : Agrees t r) {h : Handle} {i : Nat} {value : α}
    (hf : r.find? h = some (i, value))
    (hs : r.Replaced r' i ⟨(r.generationAt i + 1) % slotLimit, none⟩) (hr' : r'.Regular)
    (hcount : r'.count = r.count - 1) (hsize : r'.slots.size = r.slots.size)
    (hunused : r'.unused.length = r.unused.length + 1) :
    Agrees (t ++ [⟨.unregister (some h), .done⟩]) r' := by
  have hmem : h ∈ live t := by
    rw [ha.mem_live, hf]
    rfl
  have hindex : indexOf h = i := (find?_eq_some_iff.mp hf).2.1
  refine ⟨hr', ?complete, fun h' => ?resolve, ?count, fun k => ?generation⟩
  -- something is live, so one can be taken off the count
  case complete =>
    have := ha.complete
    have := ha.count_eq
    have := List.length_pos_of_mem (AList.mem_keys.mp hmem)
    omega
  case resolve =>
    rw [live_concat]
    dsimp only [Exchange.revise]
    rw [resolve, hs.find?_empty hf]
    split
    · next heq => rw [heq, AList.lookup_erase]; rfl
    · next hne => rw [AList.lookup_erase_ne hne, ← ha.resolve_eq]; rfl
  case count =>
    rw [live_concat]
    dsimp only [Exchange.revise]
    rw [hcount, AList.keys_erase, List.length_erase_of_mem (AList.mem_keys.mp hmem), ha.count_eq]
  case generation =>
    have hone : removals k [(⟨.unregister (some h), .done⟩ : Exchange α)] = if (i : Int) = k then 1 else 0 := by
      simp [removals, removed, Exchange.removed?, hindex]
    rw [hs.generationAt_eq, removals_append, hone]
    split
    · next heq =>
      subst heq
      rw [if_pos rfl]
      dsimp only
      rw [ha.generation_eq, Int.emod_add_emod]
      rfl
    · next hne => rw [if_neg (by omega), ha.generation_eq, Nat.add_zero]

/-- A removal keeps the agreement, and is refused for handles that are not live. -/
theorem Agrees.unregister (ha : Agrees t s.registry) (h? : Option Handle) :
    Advances t s.registry ((Request.unregister h?).exchange s) ((Request.unregister h?).next s).registry := by
  obtain ⟨h, hoffered, hlookup⟩ := ha.handle_offered h?
  rcases hf : s.registry.find? h with _ | ⟨i, value⟩
  · exact ha.unregister_unknown hoffered hlookup hf
  obtain ⟨r', hun, hs, hr', hcount, hsize, hunused⟩ := unregister_cases ha.regular hf
  have hrun : RegistryStep.run s (.unregister (offered h?)) = (.done, { s with registry := r' }) := by
    simp [RegistryStep.run, RegistryStep.Run.unregister, hoffered, bind, Except.bind, hun, pure, Except.pure]
  -- zero is the handle of nothing, so what was offered is not null
  obtain rfl : h? = some h := by
    cases h? with
    | none => simp [resolve, hf] at hlookup
    | some h' => exact congrArg some (Except.ok.inj hoffered)
  rw [Request.exchange, Request.next, Request.step, hrun]
  refine ⟨?fits, ha.empty hf hs hr' hcount hsize hunused, .of_issued?_eq_none rfl, fun f hf => ?refused⟩
  case fits =>
    dsimp only [Exchange.Fits]
    rw [← hlookup, resolve, hf]
    simp
  case refused => cases hf

/-- **One request**: the answer is that of the finite map, the registry agrees with the longer journal, and
a handle that is given out counts. -/
theorem Agrees.exchange (ha : Agrees t s.registry) (q : Request α) :
    Advances t s.registry (q.exchange s) (q.next s).registry := by
  cases q with
  | register value => exact ha.register value
  | unregister h? => exact ha.unregister h?
  -- reading changes neither the registry nor what is live
  | resolve h? =>
    obtain ⟨h, hoffered, hlookup⟩ := ha.handle_offered h?
    have hrun : RegistryStep.run s (.resolve (offered h?)) = (.value (s.registry.resolve h), s) := by
      simp [RegistryStep.run, hoffered]
    rw [Request.exchange, Request.next, Request.step, hrun]
    exact ⟨congrArg _ hlookup, ha.quiet rfl rfl, .of_issued?_eq_none rfl, fun f hf => by cases hf⟩
  | size => exact ⟨congrArg _ ha.count_eq, ha.quiet rfl rfl, .of_issued?_eq_none rfl, fun f hf => by cases hf⟩

theorem journal_concat (qs : List (Request α)) (q : Request α) :
    journal (qs ++ [q]) = journal qs ++ [q.exchange (conclusion .start qs)] :=
  exchanges_append _ qs [q]

theorem after_concat (qs : List (Request α)) (q : Request α) :
    after (qs ++ [q]) = (q.next (conclusion .start qs)).registry :=
  congrArg _ (conclusion_append _ qs [q])

/-- **All requests**: the registry agrees with its journal. -/
theorem Agrees.exchanges (ha : Agrees t s.registry) (qs : List (Request α)) :
    Agrees (t ++ exchanges s qs) (conclusion s qs).registry := by
  induction qs generalizing t s with
  | nil => simpa using ha
  | cons q qs ih => simpa using ih (ha.exchange q).agrees

theorem agrees_journal (qs : List (Request α)) : Agrees (journal qs) (after qs) :=
  Agrees.exchanges (s := .start) agrees_start qs

/-- What is shown of one exchange, at every place of a journal. -/
theorem journal_advances {qs : List (Request α)} {u : List (Exchange α)} {e : Exchange α}
    (h : journal qs = t ++ e :: u) : ∃ r r', Advances t r e r' := by
  obtain ⟨xs, q, rfl, rfl⟩ := exchanges_eq_append_cons _ h
  exact ⟨_, _, (agrees_journal xs).exchange q⟩

theorem Agrees.leads (ha : Agrees t s.registry) {u : List (Exchange α)} {s' : RegistryStep.Run α}
    (h : Leads s u s') : Agrees (t ++ u) s'.registry := by
  obtain ⟨qs, rfl, rfl⟩ := h
  exact ha.exchanges qs

/-- What is shown of one exchange, at every place of a journal and what comes after it. -/
theorem Agrees.advances (ha : Agrees t s.registry) {u v : List (Exchange α)} {e : Exchange α}
    {s' : RegistryStep.Run α} (h : Leads s (u ++ e :: v) s') :
    ∃ r r', Agrees (t ++ u) r ∧ Advances (t ++ u) r e r' := by
  obtain ⟨m, hu, hv⟩ := h.split
  obtain ⟨q, rfl, -⟩ := hv.uncons
  exact ⟨_, _, ha.leads hu, (ha.leads hu).exchange q⟩

/-! ## §4 Handles do not come back -/

/-- The generation that a handle names is the one its slot is in, by the count of removals. -/
def Current (t : List (Exchange α)) (h : Handle) : Prop :=
  generationOf h = (removals (indexOf h) t : Int) % slotLimit

theorem Exchange.Numbered.current {e : Exchange α} (he : e.Numbered t) {h : Handle}
    (hissued : e.issued? = some h) : Current t h := by
  obtain ⟨i, hi, rfl⟩ := he h hissued
  rw [Current, generationOf_handleOf hi, indexOf_handleOf hi]

/-- Live handles are of the current generation of their slot. -/
theorem Agrees.current (ha : Agrees t r) {h : Handle} (hm : h ∈ live t) : Current t h := by
  obtain ⟨⟨i, value⟩, hf⟩ := Option.isSome_iff_exists.mp (ha.mem_live.mp hm)
  obtain ⟨-, hi, hslot⟩ := find?_eq_some_iff.mp hf
  have hg : r.generationAt i = generationOf h := by
    rw [generationAt, hslot]
    rfl
  rw [Current, ← hg, hi, ha.generation_eq]

/-- **The generations go round**: between two times when a handle is that of its slot's generation, the slot
was given up a multiple of `slotLimit` times. -/
theorem Current.dvd_removals {h : Handle} {u : List (Exchange α)} (h₁ : Current t h)
    (h₂ : Current (t ++ u) h) : slotLimit ∣ removals (indexOf h) u := by
  rw [Current] at h₁ h₂
  rw [removals_append, h₁] at h₂
  unfold slotLimit at *
  omega

/-- A registration lasts until it is removed. -/
theorem mem_live_append {h : Handle} {u : List (Exchange α)} (hm : h ∈ live t) (hu : h ∉ removed u) :
    h ∈ live (t ++ u) := by
  -- exchange by exchange: a registration inserts, and a removal takes away another handle
  induction u generalizing t with
  | nil => simpa using hm
  | cons e u ih =>
    rw [← List.singleton_append, removed_append, List.mem_append, not_or] at hu
    rw [← List.singleton_append, ← List.append_assoc]
    refine ih ?_ hu.2
    rw [live_concat]
    unfold Exchange.revise
    split
    · exact (AList.mem_insert _).mpr (Or.inr hm)
    · next h' hq hd =>
      refine AList.mem_erase.mpr ⟨?_, hm⟩
      rintro rfl
      exact hu.1 (by simp [removed, Exchange.removed?, hq, hd])
    · exact hm

/-- What was given out is live at first. -/
theorem Exchange.mem_live_of_issued {e : Exchange α} {h : Handle} (hissued : e.issued? = some h) :
    h ∈ live (t ++ [e]) := by
  rcases e with ⟨q, a⟩
  rw [live_concat]
  unfold Exchange.issued? at hissued
  split at hissued
  · next hq ha =>
    cases hissued
    dsimp only at hq ha
    -- only a registration that answers a handle issues one
    subst hq ha
    exact (AList.mem_insert _).mpr (Or.inl rfl)
  · cases hissued

theorem Exchange.not_removed_of_issued {e : Exchange α} {h : Handle} (hissued : e.issued? = some h) :
    e.removed? = none := by
  rcases e with ⟨q, a⟩
  cases q <;> first | rfl | cases hissued

/-- A handle that is issued is new to the map. -/
theorem Exchange.Fits.not_mem_of_issued {m : AList fun _ : Handle => α} {e : Exchange α} (hf : e.Fits m)
    {h : Handle} (hissued : e.issued? = some h) : h ∉ m := by
  rcases e with ⟨q, a⟩
  cases q with
  | register value =>
    rcases hf with ⟨-, h', rfl, -, -, hnew⟩ | ⟨-, rfl⟩
    · cases hissued
      exact hnew
    · cases hissued
  | _ => cases hissued

/-- A handle that is removed was in the map. -/
theorem Exchange.Fits.mem_of_removed {m : AList fun _ : Handle => α} {e : Exchange α} (hf : e.Fits m)
    {h : Handle} (hremoved : e.removed? = some h) : h ∈ m := by
  rcases e with ⟨q, a⟩
  unfold Exchange.removed? at hremoved
  split at hremoved
  · next hq ha =>
    cases hremoved
    dsimp only at hq ha
    subst hq ha
    dsimp only [Exchange.Fits, Option.bind_some] at hf
    -- a handle that is not live is refused, but this one was removed
    by_contra hm
    rw [if_neg (by rwa [AList.lookup_isSome])] at hf
    obtain ⟨f, hdone, -⟩ := hf
    cases hdone
  · cases hremoved

/-- A handle that was removed and is that of its slot's generation again. -/
theorem Exchange.Numbered.returned {e : Exchange α} (he : e.Numbered t) {h : Handle}
    (hissued : e.issued? = some h) {u : List (Exchange α)} (hremoved : h ∈ removed u)
    (hnow : Current (t ++ e :: u) h) : ∃ k, 0 < k ∧ removals (indexOf h) u = k * slotLimit := by
  have hskip : removals (indexOf h) (e :: u) = removals (indexOf h) u := by
    simp [removals, removed, not_removed_of_issued hissued]
  obtain ⟨k, hk⟩ := (he.current hissued).dvd_removals hnow
  rw [hskip] at hk
  refine ⟨k, Nat.pos_of_ne_zero ?_, by rw [hk, Nat.mul_comm]⟩
  rintro rfl
  -- it was removed at least once in between, so not zero times
  have := removals_pos hremoved
  omega

/-- A handle that is given out again was removed in between. -/
theorem removed_of_reissued {e e' : Exchange α} {h : Handle} {u : List (Exchange α)}
    (he : e.issued? = some h) (he' : e'.issued? = some h) (hf : e'.Fits (live (t ++ e :: u))) :
    h ∈ removed u := by
  by_contra hu
  refine hf.not_mem_of_issued he' ?_
  rw [← List.singleton_append, ← List.append_assoc]
  exact mem_live_append (Exchange.mem_live_of_issued he) hu

/-! ## §5 What comes and goes -/

section Conservation

variable {s' : RegistryStep.Run α} {u : List (Exchange α)} {h : Handle}

/-- **One exchange** gives out a handle, removes one, or does neither. -/
theorem Exchange.revise_cases (e : Exchange α) (m : AList fun _ : Handle => α) :
    (∃ h value, e.issued? = some h ∧ e.removed? = none ∧ e.revise m = m.insert h value) ∨
      (∃ h, e.issued? = none ∧ e.removed? = some h ∧ e.revise m = m.erase h) ∨
      e.issued? = none ∧ e.removed? = none ∧ e.revise m = m := by
  rcases e with ⟨q, a⟩
  cases q with
  | register value =>
    cases a with
    | handle h => exact Or.inl ⟨h, value, rfl, rfl, rfl⟩
    | _ => exact Or.inr (Or.inr ⟨rfl, rfl, rfl⟩)
  | unregister h? =>
    cases h? with
    | none => exact Or.inr (Or.inr ⟨rfl, rfl, rfl⟩)
    | some h =>
      cases a with
      | done => exact Or.inr (Or.inl ⟨h, rfl, rfl, rfl⟩)
      | _ => exact Or.inr (Or.inr ⟨rfl, rfl, rfl⟩)
  | resolve h? => exact Or.inr (Or.inr ⟨rfl, rfl, rfl⟩)
  | size => exact Or.inr (Or.inr ⟨rfl, rfl, rfl⟩)

/-- A live handle is removed when it is to be given up. -/
theorem Exchange.Fits.removed_of_mem {m : AList fun _ : Handle => α} {a : RegistryAnswer α}
    (hf : Exchange.Fits m ⟨.unregister (some h), a⟩) (hm : h ∈ m) :
    Exchange.removed? (⟨.unregister (some h), a⟩ : Exchange α) = some h := by
  dsimp only [Exchange.Fits, Option.bind_some] at hf
  rw [if_pos (AList.lookup_isSome.mpr hm)] at hf
  rw [hf]
  rfl

/-- What comes and goes in one exchange. -/
theorem Exchange.Fits.keys_perm {e : Exchange α} (hf : e.Fits (live t)) :
    ((live (t ++ [e])).keys ++ removed [e]).Perm ((live t).keys ++ issued [e]) := by
  rw [live_concat, removed_singleton, issued_singleton]
  rcases e.revise_cases (live t) with ⟨h, value, hissued, hremoved, hlive⟩ | ⟨h, hissued, hremoved, hlive⟩ |
    ⟨hissued, hremoved, hlive⟩ <;> rw [hissued, hremoved, hlive]
  · -- registered: a new key
    have hnew : h ∉ (live t).keys := hf.not_mem_of_issued hissued
    rw [AList.keys_insert, List.erase_of_not_mem hnew, Option.toList_none, List.append_nil]
    exact (List.perm_append_singleton h _).symm
  · -- unregistered: a key that was there
    have hmem : h ∈ (live t).keys := hf.mem_of_removed hremoved
    rw [AList.keys_erase, Option.toList_none, List.append_nil]
    exact (List.perm_append_singleton h _).trans (List.perm_cons_erase hmem).symm

/-- **Conservation**: what is live now, with what was removed since, is what was live then, with what was given out
since. -/
theorem Agrees.keys_perm (ha : Agrees t s.registry) (hl : Leads s u s') :
    ((live (t ++ u)).keys ++ removed u).Perm ((live t).keys ++ issued u) := by
  induction u generalizing t s with
  | nil => simp [removed, issued]
  | cons e u ih =>
    obtain ⟨q, rfl, hrest⟩ := hl.uncons
    have hstep := (ha.exchange q).fits.keys_perm
    have hrest := ih (ha.exchange q).agrees hrest
    generalize q.exchange s = e at hstep hrest ⊢
    rw [List.append_assoc] at hrest
    rw [← List.singleton_append, removed_append, issued_append]
    -- the exchanges that follow keep the law from the state after the first one on
    calc (live (t ++ ([e] ++ u))).keys ++ (removed [e] ++ removed u)
      _ ~ (live (t ++ ([e] ++ u))).keys ++ removed u ++ removed [e] := by
        rw [List.append_assoc]
        exact List.perm_append_comm.append_left _
      _ ~ (live (t ++ [e])).keys ++ issued u ++ removed [e] := hrest.append_right _
      _ ~ (live (t ++ [e])).keys ++ removed [e] ++ issued u := by
        rw [List.append_assoc, List.append_assoc]
        exact List.perm_append_comm.append_left _
      _ ~ (live t).keys ++ (issued [e] ++ issued u) := by
        rw [← List.append_assoc]
        exact hstep.append_right _

/-- What is neither given out nor removed stays as it is. -/
theorem lookup_live_append (hi : h ∉ issued u) (hr : h ∉ removed u) :
    (live (t ++ u)).lookup h = (live t).lookup h := by
  -- exchange by exchange; none of them is about `h`
  induction u generalizing t with
  | nil => rw [List.append_nil]
  | cons e u ih =>
    rw [← List.singleton_append, issued_append, issued_singleton, List.mem_append, not_or] at hi
    rw [← List.singleton_append, removed_append, removed_singleton, List.mem_append, not_or] at hr
    rw [← List.singleton_append, ← List.append_assoc, ih hi.2 hr.2, live_concat]
    rcases e.revise_cases (live t) with ⟨k, value, hissued, -, hlive⟩ | ⟨k, -, hremoved, hlive⟩ | ⟨-, -, hlive⟩ <;>
      rw [hlive]
    · exact AList.lookup_insert_ne (by simpa [hissued] using hi.1)
    · exact AList.lookup_erase_ne (by simpa [hremoved] using hr.1)

/-- A live handle that is given out again was removed before, as often as there are generations. -/
theorem Agrees.removed_of_issued (ha : Agrees t s.registry) (hl : Leads s u s') (hm : h ∈ live t)
    (hi : h ∈ issued u) : h ∈ removed u ∧ slotLimit ≤ removals (indexOf h) u := by
  obtain ⟨e, he, hissued⟩ := List.mem_filterMap.mp hi
  obtain ⟨before, rest, rfl⟩ := List.append_of_mem he
  obtain ⟨r, r', hbefore, hadv⟩ := ha.advances hl
  -- it must have been removed before it could be issued again
  have hremoved : h ∈ removed before := by
    by_contra hnot
    exact hadv.fits.not_mem_of_issued hissued (mem_live_append hm hnot)
  -- and the generation must have come full circle
  have hdvd := (ha.current hm).dvd_removals (hadv.numbered.current hissued)
  have hle := Nat.le_of_dvd (removals_pos hremoved) hdvd
  refine ⟨by simp [hremoved], ?_⟩
  rw [removals_append]
  omega

/-- With fewer removals in its slot than there are generations, a handle is given out at most once, and not at all if
it is live. -/
theorem Agrees.count_issued_le (ha : Agrees t s.registry) (hl : Leads s u s')
    (hfew : removals (indexOf h) u < slotLimit) : (live t).keys.count h + (issued u).count h ≤ 1 := by
  have hkeys (t : List (Exchange α)) : (live t).keys.count h ≤ 1 :=
    List.nodup_iff_count_le_one.mp (live t).keys_nodup h
  by_cases hm : h ∈ live t
  · have hissued : h ∉ issued u := fun hi => by
      have := (ha.removed_of_issued hl hm hi).2
      omega
    rw [List.count_eq_zero_of_not_mem hissued]
    exact hkeys t
  rw [List.count_eq_zero_of_not_mem hm, Nat.zero_add]
  -- after the exchange that gives it out, the handle is live
  clear hm
  induction u generalizing t s with
  | nil => simp [issued]
  | cons e u ih =>
    obtain ⟨q, rfl, hrest⟩ := hl.uncons
    have ha' := (ha.exchange q).agrees
    have hfew' : removals (indexOf h) u < slotLimit := by
      rw [← List.singleton_append, removals_append] at hfew
      omega
    rw [← List.singleton_append, issued_append, issued_singleton, List.count_append]
    cases hissued : (q.exchange s).issued? with
    | none => simpa using ih ha' hrest hfew'
    | some k =>
      by_cases hk : k = h
      · subst hk
        have hnot : k ∉ issued u := fun hi => by
          have := (ha'.removed_of_issued hrest (Exchange.mem_live_of_issued hissued) hi).2
          omega
        simp [List.count_eq_zero_of_not_mem hnot]
      · simpa [hk] using ih ha' hrest hfew'

/-- With fewer removals in its slot than there are generations, a handle that was removed is not live. -/
theorem Agrees.not_mem_live_of_removed (ha : Agrees t s.registry) (hl : Leads s u s')
    (hfew : removals (indexOf h) u < slotLimit) (hr : h ∈ removed u) : h ∉ live (t ++ u) := by
  have hperm := (ha.keys_perm hl).count_eq h
  rw [List.count_append, List.count_append] at hperm
  have hle := ha.count_issued_le hl hfew
  have hpos := List.count_pos_iff.mpr hr
  exact List.count_eq_zero.mp (by omega)

end Conservation

/-- With fewer removals in each slot than there are generations, no removed handle is live. -/
theorem not_mem_live_of_removed {qs : List (Request α)}
    (hfew : ∀ i, removals i (journal qs) < slotLimit) {h : Handle} (hremoved : h ∈ removed (journal qs)) :
    h ∉ live (journal qs) :=
  agrees_start.not_mem_live_of_removed ⟨qs, rfl, rfl⟩ (hfew (indexOf h)) hremoved

/-- With fewer removals in each slot than there are generations, no handle is given out twice. -/
theorem nodup_issued {qs : List (Request α)} (hfew : ∀ i, removals i (journal qs) < slotLimit) :
    (issued (journal qs)).Nodup :=
  List.nodup_iff_count_le_one.mpr fun h =>
    le_trans (Nat.le_add_left _ _) (agrees_start.count_issued_le ⟨qs, rfl, rfl⟩ (hfew (indexOf h)))

/-! ## §6 The finite map -/

/-- **The registry is a finite map.** Take any requests to a new registry.

* Each answer is the one of the finite map of the live registrations at that place of the journal, and what
  resolves afterwards is what is live then.
* A request that fails changes nothing.
* A handle that was given out and removed resolves, or is given out again, only after its slot was given up a
  positive multiple of `slotLimit` times since it was given out.
* With fewer removals in each slot, no handle is given out twice and none that was removed resolves at any
  later point. -/
theorem finite_map (requests : List (Request α)) :
    (∀ before e rest, journal requests = before ++ e :: rest → e.Fits (live before)) ∧
    (∀ h, (after requests).resolve h = (live (journal requests)).lookup h) ∧
    (∀ q f, journal (requests ++ [q]) = journal requests ++ [⟨q, .fault f⟩] →
      after (requests ++ [q]) = after requests) ∧
    (∀ before e since h, journal requests = before ++ e :: since → e.issued? = some h →
      h ∈ removed since → ((after requests).resolve h).isSome →
      ∃ k, 0 < k ∧ removals (indexOf h) since = k * slotLimit) ∧
    (∀ before e since e' rest h, journal requests = before ++ e :: since ++ e' :: rest →
      e.issued? = some h → e'.issued? = some h →
      ∃ k, 0 < k ∧ removals (indexOf h) since = k * slotLimit) ∧
    ((∀ i, removals i (journal requests) < slotLimit) →
      (issued (journal requests)).Nodup ∧
      ∀ earlier later, requests = earlier ++ later →
        ∀ h ∈ removed (journal earlier), (after earlier).resolve h = none) := by
  have ha := agrees_journal requests
  -- the journal agrees with the registry, and each of its exchanges with the map before it
  refine ⟨?fits, ha.resolve_eq, ?refused, ?resolves, ?reissued, fun hfew => ⟨nodup_issued hfew, ?stale⟩⟩
  case fits =>
    intro before e rest hj
    obtain ⟨r, r', hadv⟩ := journal_advances hj
    exact hadv.fits
  case refused =>
    intro q f hj
    have hadv := ha.exchange q
    rw [journal_concat] at hj
    rw [after_concat]
    exact hadv.refused f (congrArg Exchange.answer (List.cons.inj (List.append_cancel_left hj)).1)
  case resolves =>
    intro before e since h hj hissued hremoved hresolves
    obtain ⟨r, r', hadv⟩ := journal_advances hj
    refine hadv.numbered.returned hissued hremoved ?_
    rw [← hj]
    refine ha.current ?_
    rwa [← AList.lookup_isSome, ← ha.resolve_eq]
  case reissued =>
    intro before e since e' rest h hj hissued hissued'
    have hj₁ : journal requests = before ++ e :: (since ++ e' :: rest) := by simpa using hj
    obtain ⟨r, r', hadv⟩ := journal_advances hj₁
    obtain ⟨r₂, r₂', hadv'⟩ := journal_advances hj
    exact hadv.numbered.returned hissued (removed_of_reissued hissued hissued' hadv'.fits)
      (hadv'.numbered.current hissued')
  case stale =>
    rintro earlier later rfl h hremoved
    rw [(agrees_journal earlier).resolve_eq, AList.lookup_eq_none]
    refine not_mem_live_of_removed (fun i => ?_) hremoved
    have := hfew i
    rw [journal, exchanges_append, removals_append] at this
    exact Nat.lt_of_add_right_lt this

/-- A slot that is used twice. -/
def reuse : List (Request Nat) := [.register 7, .unregister (some 1), .register 8]

/-- The handle of the first use is not the one of the second, and does not resolve to its value. -/
theorem stale_after_reuse :
    issued (journal reuse) = [1, 4294967297] ∧ (after reuse).resolve 4294967297 = some 8 ∧
      1 ∈ removed (journal reuse) ∧ (∀ i, removals i (journal reuse) < slotLimit) ∧
      (after reuse).resolve 1 = none := by
  have hremoved : removed (journal reuse) = [1] := rfl
  -- one removal is far from a full circle of the generation
  have hfew (i : Int) : removals i (journal reuse) < slotLimit := by
    rw [removals, hremoved]
    exact Nat.lt_of_le_of_lt List.countP_le_length (by simp [slotLimit])
  have hmem : 1 ∈ removed (journal reuse) := by simp [hremoved]
  exact ⟨rfl, rfl, hmem, hfew,
    ((finite_map reuse).2.2.2.2.2 hfew).2 reuse [] (List.append_nil _).symm 1 hmem⟩

end Registry

end LinearProgram
