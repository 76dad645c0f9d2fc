import LinearProgram.Handle.Registry

/-!
# Registrations for the duration of a block

A block registers a value, runs its body and gives the registration up again however the body ended. A
body is a program of registry operations, and blocks may be nested. The programs are run on a registry
together with the list of all handles given out so far, because an operation may name one of those by
its position.

Leaving a block gives up the handle of that block and no other. If the handle is no longer live then,
leaving fails with the fault of `Registry.unregister`, whatever the body did.
-/

namespace LinearProgram

/-- How an operation names a handle: by its position among the handles given out, as a number, or not at
all. -/
inductive HandleReference where
  | issued (position : Int)
  | number (handle : Handle)
  | null
deriving DecidableEq, Repr

/-- An operation on a registry of values of type `α`. A `block` registers `value` around its body, and
raises a fault of its own after the body when `raises` is set. -/
inductive RegistryStep (α : Type) where
  | register (value : α)
  | resolve (handle : HandleReference)
  | unregister (handle : HandleReference)
  | size
  | display
  | setGeneration (index generation : Int)
  | block (value : α) (body : List (RegistryStep α)) (raises : Option String)

/-- What an operation answers. -/
inductive RegistryAnswer (α : Type) where
  | done
  | handle (handle : Handle)
  | value (value : Option α)
  | size (count : Nat)
  | text (text : String)
  | entries (answers : List (RegistryAnswer α))
  | fault (fault : Fault)

namespace RegistryStep

variable {α : Type}

/-- A registry with the handles it has given out, in order. -/
structure Run (α : Type) where
  registry : Registry α
  issued : Array Handle

/-- The run before any operation. -/
def Run.start : Run α := ⟨.empty, #[]⟩

/-- The handle that a reference names. Positions wrap around the handles given out, as long as there are
any; null is zero. -/
def Run.handle (s : Run α) : HandleReference → Except Fault Handle
  | .issued k =>
    match s.issued[(k % (s.issued.size : Int)).toNat]? with
    | some h => .ok h
    | none => .error (.unknownReference k)
  | .number h => .ok h
  | .null => .ok 0

/-- Register a value and note its handle. -/
def Run.register (s : Run α) (value : α) : Except Fault (Handle × Run α) := do
  let (h, r) ← s.registry.register value
  return (h, ⟨r, s.issued.push h⟩)

def Run.unregister (s : Run α) (h : Handle) : Except Fault (Run α) := do
  return { s with registry := ← s.registry.unregister h }

mutual

def run (s : Run α) : RegistryStep α → RegistryAnswer α × Run α
  | .register value =>
    match s.register value with
    | .ok (h, s) => (.handle h, s)
    | .error f => (.fault f, s)
  | .resolve reference =>
    match s.handle reference with
    | .ok h => (.value (s.registry.resolve h), s)
    | .error f => (.fault f, s)
  | .unregister reference =>
    match s.handle reference >>= s.unregister with
    | .ok s => (.done, s)
    | .error f => (.fault f, s)
  | .size => (.size s.registry.count, s)
  | .display => (.text s.registry.display, s)
  | .setGeneration index generation =>
    match s.registry.setGeneration index generation with
    | .ok r => (.done, { s with registry := r })
    | .error f => (.fault f, s)
  | .block value body raises =>
    match s.register value with
    | .error f => (.fault f, s)
    | .ok (h, s) =>
      let (answers, s) := runAll s body
      -- the block is left before its own fault is passed on, so a fault of leaving hides it
      match s.unregister h with
      | .error f => (.fault f, s)
      | .ok s =>
        match raises with
        | some text => (.fault (.raised text), s)
        | none => (.entries answers, s)

/-- Run operations one after the other. A fault of one does not stop the next. -/
def runAll (s : Run α) : List (RegistryStep α) → List (RegistryAnswer α) × Run α
  | [] => ([], s)
  | step :: rest =>
    let (answer, s) := run s step
    let (answers, s) := runAll s rest
    (answer :: answers, s)

end

end RegistryStep

end LinearProgram
