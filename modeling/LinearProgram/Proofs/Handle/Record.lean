import LinearProgram.Proofs.Handle.Journal

/-!
# The record of a program

A program of registry operations, blocks included, comes down to requests that are made one after the other:
entering a block registers, and leaving it gives up. The record of a program lists these requests with their
answers, and notes which of them were made by a block. What is known of journals therefore holds at every moment of
every program, also in the middle of a block.

Only the operation that sets a generation from outside is no request. A program without it is *ordinary*.
-/

namespace LinearProgram

open Registry

variable {α : Type}

/-! ## §1 The record -/

namespace RegistryStep

mutual

/-- Nothing sets a generation from outside. -/
def Ordinary : RegistryStep α → Prop
  | .setGeneration .. => False
  | .block _ body _ => AllOrdinary body
  | .register _ | .resolve _ | .unregister _ | .size | .display => True

def AllOrdinary : List (RegistryStep α) → Prop
  | [] => True
  | step :: rest => step.Ordinary ∧ AllOrdinary rest

end

/-- A request with its answer. `byBlock` tells whether it was made on entering or leaving a block. -/
structure Noted (α : Type) where
  exchange : Exchange α
  byBlock : Bool

/-- The exchanges in a record. -/
def asked (u : List (Noted α)) : List (Exchange α) := u.map (·.exchange)

mutual

/-- What an operation asks of the registry. -/
def record (s : Run α) : RegistryStep α → List (Noted α)
  | .register value => [⟨(Request.register value).exchange s, false⟩]
  | .resolve reference =>
    match s.handle reference with
    | .ok h => [⟨(Request.resolve (some h)).exchange s, false⟩]
    | .error _ => []
  | .unregister reference =>
    match s.handle reference with
    | .ok h => [⟨(Request.unregister (some h)).exchange s, false⟩]
    | .error _ => []
  | .size => [⟨Request.size.exchange s, false⟩]
  | .display | .setGeneration .. => []
  | .block value body _ =>
    let entry : Noted α := ⟨(Request.register value).exchange s, true⟩
    match s.register value with
    | .error _ => [entry]
    | .ok (h, s) => entry :: (recordAll s body ++ [⟨(Request.unregister (some h)).exchange (runAll s body).2, true⟩])

def recordAll (s : Run α) : List (RegistryStep α) → List (Noted α)
  | [] => []
  | step :: rest => record s step ++ recordAll (run s step).2 rest

end

/-! ## §2 Operations as requests -/

/-- What a block answers when it could be left: its own fault, if it has one, and otherwise the answers of the
body. -/
def blockAnswer (answers : List (RegistryAnswer α)) : Option String → RegistryAnswer α
  | some text => .fault (.raised text)
  | none => .entries answers

/-- A block that could be entered, inverted: it is left by giving up its handle. -/
theorem run_block_of_ok {s s₁ : Run α} {value : α} {h : Handle} (hreg : s.register value = .ok (h, s₁))
    (body : List (RegistryStep α)) (raises : Option String) :
    run s (.block value body raises) =
      match (runAll s₁ body).2.unregister h with
      | .error f => (.fault f, (runAll s₁ body).2)
      | .ok s' => (blockAnswer (runAll s₁ body).1 raises, s') := by
  simp only [run, hreg]
  cases (runAll s₁ body).2.unregister h <;> cases raises <;> rfl

theorem run_block_of_error {s : Run α} {value : α} {f : Fault} (hreg : s.register value = .error f)
    (body : List (RegistryStep α)) (raises : Option String) :
    run s (.block value body raises) = (.fault f, s) := by
  simp only [run, hreg]

/-- Resolving by reference is resolving the handle that the reference names. -/
theorem run_resolve_of_handle {s : Run α} {reference : HandleReference} {h : Handle}
    (hh : s.handle reference = .ok h) :
    run s (.resolve reference) = run s (Request.resolve (some h)).step := by
  have hnumber : s.handle (.number h) = .ok h := rfl
  simp only [run, hh, Request.step, offered, hnumber]

/-- Giving up by reference is giving up the handle that the reference names. -/
theorem run_unregister_of_handle {s : Run α} {reference : HandleReference} {h : Handle}
    (hh : s.handle reference = .ok h) :
    run s (.unregister reference) = run s (Request.unregister (some h)).step := by
  have hnumber : s.handle (.number h) = .ok h := rfl
  simp only [run, hh, Request.step, offered, hnumber]

/-- What the request to give up a handle leads to. -/
theorem next_unregister (s : Run α) (h : Handle) :
    (Request.unregister (some h)).next s =
      match s.unregister h with
      | .error _ => s
      | .ok s' => s' := by
  have hbind : (s.handle (offered (some h)) >>= s.unregister) = s.unregister h := rfl
  simp only [Request.next, Request.step, run, hbind]
  cases s.unregister h <;> rfl

/-- A run notes the handle that its registry gives out. -/
theorem Run.register_of_ok {s : Run α} {value : α} {h : Handle} {r : Registry α}
    (hreg : s.registry.register value = .ok (h, r)) : s.register value = .ok (h, ⟨r, s.issued.push h⟩) := by
  rw [Run.register, hreg]
  rfl

theorem Run.register_of_error {s : Run α} {value : α} {f : Fault} (hreg : s.registry.register value = .error f) :
    s.register value = .error f := by
  rw [Run.register, hreg]
  rfl

/-- Registering succeeds as a request. -/
theorem register_exchange_of_ok {s s₁ : Run α} {value : α} {h : Handle} (hreg : s.register value = .ok (h, s₁)) :
    (Request.register value).exchange s = ⟨.register value, .handle h⟩ ∧ (Request.register value).next s = s₁ := by
  simp [Request.exchange, Request.next, Request.step, run, hreg]

/-- Registering fails as a request. -/
theorem register_exchange_of_error {s : Run α} {value : α} {f : Fault} (hreg : s.register value = .error f) :
    (Request.register value).exchange s = ⟨.register value, .fault f⟩ ∧ (Request.register value).next s = s := by
  simp [Request.exchange, Request.next, Request.step, run, hreg]

/-! ## §3 Where a record leads -/

mutual

/-- **The record of an operation** leads to the state after it. -/
theorem record_leads (s : Run α) : (step : RegistryStep α) → step.Ordinary →
    Leads s (asked (record s step)) (run s step).2
  | .register value, _ => .single (.register value) s
  | .resolve reference, _ => by
    unfold record
    cases hh : s.handle reference with
    | ok h =>
      rw [run_resolve_of_handle hh]
      exact .single (.resolve (some h)) s
    | error f =>
      simp only [run, hh]
      exact .nil s
  | .unregister reference, _ => by
    unfold record
    cases hh : s.handle reference with
    | ok h =>
      rw [run_unregister_of_handle hh]
      exact .single (.unregister (some h)) s
    | error f =>
      simp only [run, hh]
      exact .nil s
  | .size, _ => .single .size s
  | .display, _ => .nil s
  | .block value body raises, hbody => by
    unfold record
    cases hreg : s.register value with
    | error f =>
      have hend : (run s (.block value body raises)).2 = (Request.register value).next s := by
        rw [run_block_of_error hreg, (register_exchange_of_error hreg).2]
      rw [hend]
      exact .single (.register value) s
    | ok p =>
      -- the requests of the body stand between the two of the block
      obtain ⟨h, s₁⟩ := p
      -- whether the block raises makes no difference to the registry
      have hend : (run s (.block value body raises)).2 = (Request.unregister (some h)).next (runAll s₁ body).2 := by
        rw [run_block_of_ok hreg, next_unregister]
        cases (runAll s₁ body).2.unregister h <;> rfl
      rw [hend]
      simp only [asked, List.map_cons, List.map_append]
      refine .cons (.register value) ?_
      rw [(register_exchange_of_ok hreg).2]
      exact (recordAll_leads s₁ body hbody).append (.single (.unregister (some h)) _)

/-- **The record of a program** leads to the state after it. -/
theorem recordAll_leads (s : Run α) : (program : List (RegistryStep α)) → AllOrdinary program →
    Leads s (asked (recordAll s program)) (runAll s program).2
  | [], _ => .nil s
  | step :: rest, h => by
    unfold recordAll
    rw [asked, List.map_append]
    exact (record_leads s step h.1).append (recordAll_leads _ rest h.2)

end

end RegistryStep

end LinearProgram
