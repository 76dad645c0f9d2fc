import LinearProgram.Fault
import LinearProgram.Position

/-!
# Handles

What a native library may hand back in a callback is a number, so the objects that callbacks need are
registered, and a handle stands for each. The registry is an arena of slots. A handle joins the number
of a slot, counted from one, with the generation of the slot, which moves on whenever the slot is given
up: a handle that outlived its registration does not resolve, even when its slot is in use again. No
handle is zero, which means "none".

Slot numbers and generations take 32 bits each.
-/

namespace LinearProgram

/-! ## §1 Handles and slots -/

/-- A handle, or whatever number is offered as one. -/
abbrev Handle := Int

/-- Slot numbers and generations stay below this: they have 32 bits. -/
def slotLimit : Nat := 4294967296

/-- A place in the arena. It is occupied as long as it has a value. -/
structure Slot (α : Type) where
  generation : Int
  value : Option α

/-- The arena: its slots, the indices of the unoccupied ones in the order of their next use, and the
number of registrations. -/
structure Registry (α : Type) where
  slots : Array (Slot α)
  unused : List Nat
  count : Nat

namespace Registry

variable {α : Type}

def empty : Registry α := ⟨#[], [], 0⟩

instance : Inhabited (Registry α) := ⟨empty⟩

/-- The handle of the slot at `index` in a generation. -/
def handleOf (generation : Int) (index : Nat) : Handle := generation * slotLimit + (index + 1)

/-- The index of the slot that a handle names. -/
def indexOf (h : Handle) : Int := h % (slotLimit : Int) - 1

/-- The generation that a handle names. -/
def generationOf (h : Handle) : Int := h / (slotLimit : Int)

/-! ## §2 Operations -/

/-- The index of the occupied slot behind a handle, with its value; `none` for a handle that is zero,
unknown or stale. -/
def find? (r : Registry α) (h : Handle) : Option (Nat × α) :=
  if h = 0 ∨ indexOf h < 0 then none
  else
    let index := (indexOf h).toNat
    match r.slots[index]? with
    | none => none
    | some slot =>
      match slot.value with
      | none => none
      -- the generation tells a stale handle from the live one of the same slot
      | some value => if slot.generation = generationOf h then some (index, value) else none

def resolve (r : Registry α) (h : Handle) : Option α := (r.find? h).map (·.2)

/-- Put a value into the slot at `index`. -/
def occupy (r : Registry α) (index : Nat) (value : α) : Registry α :=
  { r with
    slots := r.slots.modify index fun slot => { slot with value := some value }
    count := r.count + 1 }

/-- Register a value. A slot that was given up is used before a new one is made; it fails when all slot
numbers are in use. -/
def register (r : Registry α) (value : α) : Except Fault (Handle × Registry α) :=
  match r.unused with
  | index :: rest =>
    let generation := (r.slots[index]?.map (·.generation)).getD 0
    .ok (handleOf generation index, { r with unused := rest }.occupy index value)
  | [] =>
    let index := r.slots.size
    if slotLimit ≤ index + 1 then .error .noSlot
    else .ok (handleOf 0 index, { r with slots := r.slots.push ⟨0, none⟩ }.occupy index value)

/-- Give up the registration of a handle. Its slot moves on to the next generation. -/
def unregister (r : Registry α) (h : Handle) : Except Fault (Registry α) :=
  match r.find? h with
  | none => .error (if h = 0 then .nullHandle else .unknownHandle h)
  | some (index, _) =>
    .ok { slots := r.slots.modify index fun slot =>
            { generation := (slot.generation + 1) % slotLimit, value := none }
          unused := index :: r.unused
          count := r.count - 1 }

/-- Set the generation of the slot at `index`, which counts from the end when it is negative. -/
def setGeneration (r : Registry α) (index generation : Int) : Except Fault (Registry α) :=
  match place? r.slots.size index with
  | some i => .ok { r with slots := r.slots.modify i fun slot => { slot with generation := generation } }
  | none => .error (.noItem index)

def display (r : Registry α) : String := "<HandleRegistry entries=" ++ toString r.count ++ ">"

end Registry

end LinearProgram
