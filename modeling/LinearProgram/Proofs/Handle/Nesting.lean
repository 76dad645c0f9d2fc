import LinearProgram.Proofs.Handle.Record
import LinearProgram.Proofs.Model.Solving

/-!
# Blocks clean up after themselves

Leaving a block gives up the handle of the block and nothing else, and then passes on how the body ended. That is so
as long as the handle is live. A body that has given the handle up itself makes leaving fail, also when the slot was
used again in the meantime: the generation in the handle is not the one of the slot any more.

The law behind it is one of conservation: the handles that are live now, with those removed since, are the handles
that were live then, with those given out since. So programs restore what was live before them if the requests that
no block makes are in balance, whatever blocks there are around them and in between.
-/

namespace LinearProgram

open Registry
open scoped List

variable {α : Type}

/-! ## §1 Nested records -/

namespace RegistryStep

variable {s s' : Run α} {t : List (Exchange α)} {u v : List (Noted α)} {h : Handle}

/-- What blocks asked, on entering and on leaving. -/
def ofBlocks (u : List (Noted α)) : List (Exchange α) := asked (u.filter (·.byBlock))

/-- What was asked apart from entering and leaving blocks. -/
def ofBodies (u : List (Noted α)) : List (Exchange α) := asked (u.filter (!·.byBlock))

/-- The record of a block around the record of its body. -/
def around (value : α) (h : Handle) (u : List (Noted α)) (answer : RegistryAnswer α) : List (Noted α) :=
  ⟨⟨.register value, .handle h⟩, true⟩ :: (u ++ [⟨⟨.unregister (some h), answer⟩, true⟩])

/-- A record in which whatever a block registers it asks to give up after its body. A block that could not be entered
has registered nothing. -/
inductive Nested : List (Noted α) → Prop
  | nil : Nested []
  | request (e : Exchange α) {u : List (Noted α)} : Nested u → Nested (⟨e, false⟩ :: u)
  | refused (value : α) (f : Fault) {u : List (Noted α)} : Nested u → Nested (⟨⟨.register value, .fault f⟩, true⟩ :: u)
  | block (value : α) (h : Handle) (answer : RegistryAnswer α) {u v : List (Noted α)} :
    Nested u → Nested v → Nested (around value h u answer ++ v)

/-- Blocks after each other are nested. -/
theorem Nested.append (hu : Nested u) (hv : Nested v) : Nested (u ++ v) := by
  induction hu with
  | nil => exact hv
  | request e _ ih => exact .request e ih
  | refused value f _ ih => exact .refused value f ih
  | block value h answer hbody _ _ ih =>
    rw [List.append_assoc]
    exact .block value h answer hbody ih

theorem Nested.around (hu : Nested u) (value : α) (h : Handle) (answer : RegistryAnswer α) :
    Nested (around value h u answer) := by
  simpa using Nested.block value h answer hu .nil

/-- The exchange that a request to give up a handle brings about is such a request. -/
theorem exchange_unregister (h : Handle) (s : Run α) :
    ∃ answer, (Request.unregister (some h)).exchange s = ⟨.unregister (some h), answer⟩ := ⟨_, rfl⟩

mutual

/-- The record of an operation is nested. -/
theorem record_nested (s : Run α) : (step : RegistryStep α) → Nested (record s step)
  | .register value => .request _ .nil
  | .resolve reference => by
    unfold record
    split
    · exact .request _ .nil
    · exact .nil
  | .unregister reference => by
    unfold record
    split
    · exact .request _ .nil
    · exact .nil
  | .size => .request _ .nil
  | .display => .nil
  | .setGeneration .. => .nil
  | .block value body raises => by
    unfold record
    -- a block that is refused leaves its request alone, another one encloses its body
    cases hreg : s.register value with
    | error f =>
      rw [(register_exchange_of_error hreg).1]
      exact .refused value f .nil
    | ok p =>
      rw [(register_exchange_of_ok hreg).1]
      exact (recordAll_nested p.2 body).around value p.1 _

/-- The record of a program is nested. -/
theorem recordAll_nested (s : Run α) : (program : List (RegistryStep α)) → Nested (recordAll s program)
  | [] => .nil
  | step :: rest => by
    unfold recordAll
    exact (record_nested s step).append (recordAll_nested _ rest)

end

/-- What was asked was asked by a block or by a body. -/
theorem asked_perm (u : List (Noted α)) : asked u ~ ofBlocks u ++ ofBodies u := by
  rw [ofBlocks, ofBodies, asked, asked, asked, ← List.map_append]
  exact ((List.filter_append_perm (·.byBlock) u).map _).symm

theorem issued_asked_perm (u : List (Noted α)) : issued (asked u) ~ issued (ofBlocks u) ++ issued (ofBodies u) := by
  rw [← issued_append]
  exact (asked_perm u).filterMap _

theorem removed_asked_perm (u : List (Noted α)) :
    removed (asked u) ~ removed (ofBlocks u) ++ removed (ofBodies u) := by
  rw [← removed_append]
  exact (asked_perm u).filterMap _

theorem asked_append (u v : List (Noted α)) : asked (u ++ v) = asked u ++ asked v := List.map_append

theorem ofBlocks_append (u v : List (Noted α)) : ofBlocks (u ++ v) = ofBlocks u ++ ofBlocks v := by
  simp [ofBlocks, asked]

theorem asked_around (value : α) (h : Handle) (u : List (Noted α)) (answer : RegistryAnswer α) :
    asked (around value h u answer) = ⟨.register value, .handle h⟩ :: asked u ++ [⟨.unregister (some h), answer⟩] := by
  simp [around, asked]

theorem ofBlocks_around (value : α) (h : Handle) (u : List (Noted α)) (answer : RegistryAnswer α) :
    ofBlocks (around value h u answer) =
      ⟨.register value, .handle h⟩ :: ofBlocks u ++ [⟨.unregister (some h), answer⟩] := by
  simp [around, ofBlocks, asked]

/-- A block has registered its handle, and what the blocks in its body have registered. -/
theorem mem_issued_around {value : α} {k : Handle} {answer : RegistryAnswer α} :
    k ∈ issued (ofBlocks (around value h u answer)) ↔ k = h ∨ k ∈ issued (ofBlocks u) := by
  simp [ofBlocks_around, issued, Exchange.issued?]

/-- A block can have removed its handle, and what the blocks in its body have removed. -/
theorem mem_removed_around {value : α} {k : Handle} {answer : RegistryAnswer α}
    (hk : k ∈ removed (ofBlocks (around value h u answer))) : k = h ∨ k ∈ removed (ofBlocks u) := by
  rw [ofBlocks_around, ← List.singleton_append, List.append_assoc, removed_append, removed_append,
    List.mem_append, List.mem_append] at hk
  rcases hk with hk | hk | hk
  · -- entering a block removes nothing
    cases hk
  · exact Or.inr hk
  · left
    cases answer <;> simp [removed_singleton, Exchange.removed?] at hk
    exact hk

/-- Blocks remove nothing but what blocks have registered. -/
theorem Nested.removed_subset (hu : Nested u) : removed (ofBlocks u) ⊆ issued (ofBlocks u) := by
  induction hu with
  | nil => exact List.Subset.refl _
  | request e _ ih => exact ih
  | refused value f _ ih => exact ih
  -- a block removes its own handle, which it was given, and what its body removes
  | block value h answer _ _ ihbody ih =>
    intro k hk
    rw [ofBlocks_append, removed_append, List.mem_append] at hk
    rw [ofBlocks_append, issued_append, List.mem_append, mem_issued_around]
    rcases hk with hk | hk
    · exact Or.inl ((mem_removed_around hk).imp_right fun hk => ihbody hk)
    · exact Or.inr (ih hk)

/-- A block that was entered asks to give up its handle later. -/
theorem Nested.exists_leaving (hu : Nested u) (hi : h ∈ issued (ofBlocks u)) :
    ∃ a e b answer c, asked u = a ++ [e] ++ b ++ ⟨.unregister (some h), answer⟩ :: c ∧ e.issued? = some h := by
  induction hu with
  | nil => cases hi
  | request e _ ih =>
    obtain ⟨a, e', b, answer, c, hu, he⟩ := ih hi
    exact ⟨e :: a, e', b, answer, c, congrArg (e :: ·) hu, he⟩
  | refused value f _ ih =>
    obtain ⟨a, e', b, answer, c, hu, he⟩ := ih hi
    exact ⟨⟨.register value, .fault f⟩ :: a, e', b, answer, c, congrArg (_ :: ·) hu, he⟩
  | @block value k answer body rest _ _ ihbody ih =>
    rw [ofBlocks_append, issued_append, List.mem_append, mem_issued_around] at hi
    rw [asked_append, asked_around]
    -- the block itself, one in its body, or one after it
    rcases hi with (rfl | hi) | hi
    · exact ⟨[], ⟨.register value, .handle h⟩, asked body, answer, asked rest, by simp, rfl⟩
    · obtain ⟨a, e, b, answer', c, hbody, he⟩ := ihbody hi
      exact ⟨⟨.register value, .handle k⟩ :: a, e, b, answer', c ++ ⟨.unregister (some k), answer⟩ :: asked rest,
        by rw [hbody]; simp, he⟩
    · obtain ⟨a, e, b, answer', c, hrest, he⟩ := ih hi
      exact ⟨⟨.register value, .handle k⟩ :: asked body ++ [⟨.unregister (some k), answer⟩] ++ a, e, b, answer', c,
        by rw [hrest]; simp, he⟩

/-! ## §2 Programs in balance -/

/-- What bodies register is what bodies give up. -/
def InBalance (u : List (Noted α)) : Prop := ∀ h, h ∈ issued (ofBodies u) ↔ h ∈ removed (ofBodies u)

/-- A handle that was given out between two states of a balanced record was removed in between. -/
theorem Nested.removed_of_issued (hu : Nested u) (hbalance : InBalance u) (ha : Agrees t s.registry)
    (hl : Leads s (asked u) s') (hi : h ∈ issued (asked u)) : h ∈ removed (asked u) := by
  rcases List.mem_append.mp ((issued_asked_perm u).mem_iff.mp hi) with hi | hi
  · -- the block asks to give the handle up; if it is live then, that is when it is removed
    obtain ⟨a, e, b, answer, c, hasked, hissued⟩ := hu.exists_leaving hi
    rw [hasked] at hl ⊢
    by_contra hnot
    simp only [removed_append, List.mem_append, not_or] at hnot
    obtain ⟨r, r', -, hadv⟩ := ha.advances hl
    have hlive : h ∈ live (t ++ (a ++ [e] ++ b)) := by
      rw [← List.append_assoc, ← List.append_assoc]
      exact mem_live_append (Exchange.mem_live_of_issued hissued) hnot.1.2
    have hremoved := hadv.fits.removed_of_mem hlive
    exact hnot.2 (by rw [removed, List.filterMap_cons_some hremoved]; exact List.mem_cons_self)
  · exact (removed_asked_perm u).mem_iff.mpr (List.mem_append.mpr (Or.inr ((hbalance h).mp hi)))

/-- **Balance**: a nested record in which the bodies register what they give up restores what was live before. -/
theorem Nested.restores (hu : Nested u) (hbalance : InBalance u) (ha : Agrees t s.registry)
    (hl : Leads s (asked u) s') (hfew : ∀ i, removals i (asked u) < slotLimit) (h : Handle) :
    s'.registry.resolve h = s.registry.resolve h := by
  rw [(ha.leads hl).resolve_eq, ha.resolve_eq]
  by_cases hm : h ∈ live t
  · -- what was live then is not given out again, so neither a block nor a balanced body has removed it
    have hissued : h ∉ issued (asked u) := fun hi => by
      have := (ha.removed_of_issued hl hm hi).2
      have := hfew (indexOf h)
      omega
    refine lookup_live_append hissued fun hr => hissued ?_
    rw [(issued_asked_perm u).mem_iff, List.mem_append]
    rw [(removed_asked_perm u).mem_iff, List.mem_append] at hr
    exact hr.imp (fun hr => hu.removed_subset hr) (hbalance h).mpr
  · -- what is live now and was not then was given out since, and so it was removed
    have hgone : h ∉ live (t ++ asked u) := fun hlive => by
      have hmem := (ha.keys_perm hl).mem_iff.mp (List.mem_append.mpr (Or.inl hlive))
      have hissued := (List.mem_append.mp hmem).resolve_left hm
      exact ha.not_mem_live_of_removed hl (hfew _) (hu.removed_of_issued hbalance ha hl hissued) hlive
    rw [AList.lookup_eq_none.mpr hgone, AList.lookup_eq_none.mpr hm]

/-! ## §3 Leaving a block -/

/-- How a block is left that registered `value` in `before` under the handle `h`, when its body has asked `u` and has
ended with `atEnd`, a result and a registry. `left` is what the block ends with. -/
structure Left {ρ : Type} (fails : Fault → ρ) (before : Registry α) (value : α) (h : Handle) (u : List (Noted α))
    (atEnd left : ρ × Registry α) : Prop where
  cleaned : (atEnd.2.resolve h).isSome →
    left.1 = atEnd.1 ∧ ∀ k, left.2.resolve k = if k = h then none else atEnd.2.resolve k
  refused : atEnd.2.resolve h = none → left = (fails (.unknownHandle h), atEnd.2)
  kept : h ∉ removed (asked u) → atEnd.2.resolve h = some value
  given_up : h ∈ removed (asked u) → removals (indexOf h) (asked u) < slotLimit → atEnd.2.resolve h = none
  restored : Nested u → InBalance u → (∀ i, removals i (asked u) < slotLimit) →
    left.1 = atEnd.1 ∧ ∀ k, left.2.resolve k = before.resolve k

/-- The end of a block: its handle is given up, and a fault of that takes the place of the result. -/
def leave {ρ : Type} (fails : Fault → ρ) (h : Handle) (atEnd : ρ × Registry α) : ρ × Registry α :=
  match atEnd.2.unregister h with
  | .error f => (fails f, atEnd.2)
  | .ok r => (atEnd.1, r)

section Leaving

variable {ρ : Type} {fails : Fault → ρ} {result : ρ} {r : Registry α} {value : α}

/-- A live handle is given up, and no other. -/
theorem leave_of_isSome (hr : r.Regular) (hsome : (r.resolve h).isSome) :
    ∃ r', leave fails h (result, r) = (result, r') ∧ ∀ k, r'.resolve k = if k = h then none else r.resolve k := by
  rw [Registry.resolve, Option.isSome_map] at hsome
  obtain ⟨⟨i, v⟩, hf⟩ := Option.isSome_iff_exists.mp hsome
  obtain ⟨r', hun, hs, -⟩ := unregister_cases hr hf
  refine ⟨r', by rw [leave, hun], fun k => ?_⟩
  rw [Registry.resolve, hs.find?_empty hf]
  split <;> rfl

theorem leave_of_none (hne : h ≠ 0) (hnone : r.resolve h = none) :
    leave fails h (result, r) = (fails (.unknownHandle h), r) := by
  have hf : r.find? h = none := Option.map_eq_none_iff.mp hnone
  rw [leave, unregister_eq_error hf, if_neg hne]

/-- **Entering a block**: its handle is a new one, and nothing else has changed. -/
theorem entered (ha : Agrees t s.registry) {s₁ : Run α} (hreg : s.register value = .ok (h, s₁)) :
    Agrees (t ++ [⟨.register value, .handle h⟩]) s₁.registry ∧ h ≠ 0 ∧ s.registry.resolve h = none ∧
      ∀ k, s₁.registry.resolve k = if k = h then some value else s.registry.resolve k := by
  obtain ⟨hexchange, hnext⟩ := register_exchange_of_ok hreg
  have hadv := ha.exchange (.register value)
  rw [hexchange, hnext] at hadv
  -- what the registration did, as the exchange tells it
  obtain ⟨hfits, ha₁, -, -⟩ := hadv
  refine ⟨ha₁, ?_, ?_, fun k => ?_⟩
  · rcases hfits with ⟨-, k, hk, hpos, -⟩ | ⟨-, hk⟩ <;> cases hk
    exact hpos.ne'
  · rw [ha.resolve_eq, AList.lookup_eq_none.mpr (hfits.not_mem_of_issued rfl)]
  · rw [ha₁.resolve_eq, live_concat, ha.resolve_eq]
    dsimp only [Exchange.revise]
    split
    · next heq => rw [heq, AList.lookup_insert]
    · next hkh => rw [AList.lookup_insert_ne hkh]

/-- **Leaving a block**, whatever its body has asked and however it has ended. -/
theorem left_leave (fails : Fault → ρ) (ha : Agrees t s.registry) {s₁ s₂ : Run α}
    (hreg : s.register value = .ok (h, s₁)) (hl : Leads s₁ (asked u) s₂) (result : ρ) :
    Left fails s.registry value h u (result, s₂.registry) (leave fails h (result, s₂.registry)) := by
  obtain ⟨ha₁, hne, hnew, hentered⟩ := entered ha hreg
  have ha₂ := ha₁.leads hl
  have hlive : h ∈ live (t ++ [(⟨.register value, .handle h⟩ : Exchange α)]) := Exchange.mem_live_of_issued rfl
  refine ⟨fun hsome => ?cleaned, leave_of_none hne, fun hnot => ?kept, fun hremoved hfew => ?given_up,
    fun hu hbalance hfew => ?restored⟩
  case cleaned =>
    obtain ⟨r', hleave, hr'⟩ := leave_of_isSome ha₂.regular hsome
    rw [hleave]
    exact ⟨rfl, hr'⟩
  case kept =>
    -- the handle is live throughout, so it cannot be given out again
    have hissued : h ∉ issued (asked u) := fun hi => hnot (ha₁.removed_of_issued hl hlive hi).1
    rw [ha₂.resolve_eq, lookup_live_append hissued hnot, ← ha₁.resolve_eq, hentered, if_pos rfl]
  case given_up =>
    rw [ha₂.resolve_eq, AList.lookup_eq_none]
    exact ha₁.not_mem_live_of_removed hl hfew hremoved
  case restored =>
    have hsame := hu.restores hbalance ha₁ hl hfew
    have hsome : (s₂.registry.resolve h).isSome := by
      rw [hsame, hentered, if_pos rfl]
      rfl
    obtain ⟨r', hleave, hr'⟩ := leave_of_isSome ha₂.regular hsome
    rw [hleave]
    refine ⟨rfl, fun k => ?_⟩
    rw [hr', hsame, hentered]
    split
    · next heq => rw [heq, hnew]
    · rfl

end Leaving

/-- A block of a program is left as any block. -/
theorem run_block_left (ha : Agrees t s.registry) {value : α} {s₁ : Run α} (hreg : s.register value = .ok (h, s₁))
    {body : List (RegistryStep α)} (hbody : AllOrdinary body) (raises : Option String) :
    Left .fault s.registry value h (recordAll s₁ body)
        (blockAnswer (runAll s₁ body).1 raises, (runAll s₁ body).2.registry)
        ((run s (.block value body raises)).1, (run s (.block value body raises)).2.registry) ∧
      (run s (.block value body raises)).2.issued = (runAll s₁ body).2.issued := by
  have hleft := left_leave .fault ha hreg (recordAll_leads s₁ body hbody) (blockAnswer (runAll s₁ body).1 raises)
  rw [run_block_of_ok hreg, Run.unregister]
  rw [leave] at hleft
  -- the body may have removed the handle of the block itself
  cases hun : (runAll s₁ body).2.registry.unregister h <;> rw [hun] at hleft <;> exact ⟨hleft, rfl⟩

/-- A registration for the duration of an action is given up as that of a block, however the action ended; and all of
it is again one course of requests, so that actions with blocks in them may be the body of a block. -/
theorem on_registered_left {β : Type} {w : World} {given given' : Array Handle} {before : List (Exchange Target)}
    (hs : Leads .start before ⟨w.registry, given⟩) {target : Target} {h : Handle} {r : Registry Target}
    (hreg : w.registry.register target = .ok (h, r)) {body : Handle → Action β} {u : List (Noted Target)}
    {result : Except Fault β} {w₁ : World} (hbody : (body h).on { w with registry := r } = (result, w₁))
    (hl : Leads ⟨r, given.push h⟩ (asked u) ⟨w₁.registry, given'⟩) :
    ∃ answer left r', (Action.registered target body).on w = (left, { w₁ with registry := r' }) ∧
      Left .error w.registry target h u (result, w₁.registry) (left, r') ∧
      Leads ⟨w.registry, given⟩ (asked (around target h u answer)) ⟨r', given'⟩ := by
  have hrun : Run.register ⟨w.registry, given⟩ target = .ok (h, ⟨r, given.push h⟩) := Run.register_of_ok hreg
  have hleft := left_leave .error (agrees_start.leads hs) hrun hl result
  -- the exchanges of the body between the registration and its removal
  have hall := Leads.cons (.register target)
    (((register_exchange_of_ok hrun).2 ▸ hl).append (.single (.unregister (some h)) ⟨w₁.registry, given'⟩))
  obtain ⟨answer, hanswer⟩ := exchange_unregister h (⟨w₁.registry, given'⟩ : Run Target)
  rw [(register_exchange_of_ok hrun).1, hanswer, next_unregister, Run.unregister] at hall
  rw [Action.on_registered, hreg]
  simp only [hbody, asked_around]
  rw [leave] at hleft
  cases hun : w₁.registry.unregister h <;> rw [hun] at hleft hall <;> exact ⟨answer, _, _, rfl, hleft, hall⟩

/-- **Blocks clean up after themselves**, in every state `s` that requests lead to.

* A block that cannot be entered changes nothing. What was registered by one that was entered is given up when it is
  left, and nothing else is; the block then answers as its body ended. If the body has given up the handle itself,
  leaving fails and changes nothing. The body has done so when its record says so, unless the slot went through all
  generations.
* A program in which the bodies register what they give up leaves what was live as it was, however its blocks are
  nested, and whether they raise or not.
* The same goes for an action that runs while something is registered: whatever it asks of the registry, what it
  answers or how it fails is passed on. -/
theorem blocks_clean_up {s : Run α} {t : List (Exchange α)} (hs : Leads .start t s) :
    (∀ value body raises, AllOrdinary body →
      (∀ f, s.register value = .error f → run s (.block value body raises) = (.fault f, s)) ∧
      ∀ h s₁, s.register value = .ok (h, s₁) →
        let atEnd := runAll s₁ body
        let left := run s (.block value body raises)
        Nested (recordAll s₁ body) ∧
          Left .fault s.registry value h (recordAll s₁ body) (blockAnswer atEnd.1 raises, atEnd.2.registry)
            (left.1, left.2.registry) ∧
          left.2.issued = atEnd.2.issued) ∧
    (∀ program, AllOrdinary program → InBalance (recordAll s program) →
      (∀ i, removals i (asked (recordAll s program)) < slotLimit) →
      ∀ h, (runAll s program).2.registry.resolve h = s.registry.resolve h) ∧
    ∀ {β : Type} (w : World) (given : Array Handle) (before : List (Exchange Target)) (target : Target)
      (body : Handle → Action β), Leads .start before ⟨w.registry, given⟩ →
      (∀ f, w.registry.register target = .error f → (Action.registered target body).on w = (.error f, w)) ∧
      ∀ h r result w₁ u given', w.registry.register target = .ok (h, r) →
        (body h).on { w with registry := r } = (result, w₁) → Leads ⟨r, given.push h⟩ (asked u) ⟨w₁.registry, given'⟩ →
        ∃ answer left r', (Action.registered target body).on w = (left, { w₁ with registry := r' }) ∧
          Left .error w.registry target h u (result, w₁.registry) (left, r') ∧
          Leads ⟨w.registry, given⟩ (asked (around target h u answer)) ⟨r', given'⟩ := by
  have ha := agrees_start.leads hs
  refine ⟨fun value body raises hbody => ⟨fun f hreg => run_block_of_error hreg body raises, fun h s₁ hreg => ?_⟩,
    fun program hprogram hbalance hfew h => ?_, fun w given before target body hw => ⟨fun f hreg => ?_, ?_⟩⟩
  · -- each part is the case of one kind of caller
    exact ⟨recordAll_nested s₁ body, run_block_left ha hreg hbody raises⟩
  · exact (recordAll_nested s program).restores hbalance ha (recordAll_leads s program hprogram) hfew h
  · rw [Action.on_registered, hreg]
  · exact fun h r result w₁ u given' hreg hbody hl => on_registered_left hw hreg hbody hl

/-- One value is registered. -/
private def occupied : Run Nat := (Request.register 9).next .start

/-- A body that gives up the handle of its block and uses the slot again. -/
private def selfish : List (RegistryStep Nat) := [.unregister (.issued 1), .register 6]

/-- Blocks that raise, with a registration that comes and goes. -/
private def nested : List (RegistryStep Nat) :=
  [.block 5 [.block 6 [] (some "stop"), .register 7, .unregister (.issued 3)] (some "stop")]

/-- The block of a selfish body fails and leaves alone what is in its slot now; after the nested blocks the value
that was registered before is still there, and nothing else; and an action that fails while something is registered
fails in the same way, with nothing registered after it. -/
theorem blocks_clean_up_after_selfish :
    (run occupied (.block 5 selfish none)).1 = .fault (.unknownHandle 2) ∧
      (run occupied (.block 5 selfish none)).2.registry.resolve 4294967298 = some 6 ∧
      (∀ h, (runAll occupied nested).2.registry.resolve h = occupied.registry.resolve h) ∧
      ∃ r, (Action.registered (.plain .null) fun _ => (Action.fail .closed : Action Unit)).on World.initial =
        (.error .closed, { World.initial with registry := r }) ∧ ∀ h, r.resolve h = none := by
  have hs : Leads .start [(Request.register 9).exchange .start] occupied := .single (.register 9) .start
  obtain ⟨hblock, hnested, haction⟩ := blocks_clean_up hs
  refine ⟨?fault, ?other, ?same, ?failed⟩
  case fault =>
    obtain ⟨-, hleft, -⟩ := (hblock 5 selfish none (by simp [selfish, AllOrdinary, Ordinary])).2 2 _ rfl
    exact congrArg Prod.fst (hleft.refused rfl)
  case other =>
    obtain ⟨-, hleft, -⟩ := (hblock 5 selfish none (by simp [selfish, AllOrdinary, Ordinary])).2 2 _ rfl
    exact congrArg (fun p => p.2.resolve 4294967298) (hleft.refused rfl)
  case same =>
    -- three removals in all, each of a slot of its own
    have hremoved : removed (asked (recordAll occupied nested)) = [3, 4294967299, 2] := rfl
    have hissued : issued (ofBodies (recordAll occupied nested)) = [4294967299] := rfl
    have hgiven : removed (ofBodies (recordAll occupied nested)) = [4294967299] := rfl
    refine hnested nested (by simp [nested, AllOrdinary, Ordinary]) (fun h => by rw [hissued, hgiven]) fun i => ?_
    rw [removals, hremoved]
    exact Nat.lt_of_le_of_lt List.countP_le_length (by simp [slotLimit])
  case failed =>
    obtain ⟨-, hfail⟩ := haction World.initial #[] [] (.plain .null)
      (fun _ => (Action.fail .closed : Action Unit)) (.nil _)
    obtain ⟨answer, left, r, hon, hleft, -⟩ := hfail 1 _ (.error .closed) _ [] #[1] rfl rfl (.nil _)
    obtain ⟨hresult, hsame⟩ := hleft.restored .nil (fun h => Iff.rfl) fun i => (by decide : 0 < slotLimit)
    have hleft : left = .error .closed := hresult
    rw [hon, hleft]
    exact ⟨r, rfl, fun h => (hsame h).trans (by simp [World.initial, Registry.resolve, find?, Registry.empty])⟩

end RegistryStep

end LinearProgram
