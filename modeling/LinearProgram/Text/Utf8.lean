/-!
# Reading UTF-8 that may be damaged

Solver libraries send messages as bytes. They are read as UTF-8, and each longest piece of the bytes
that cannot be completed to a character becomes one replacement character, so that reading never fails.

The reader is a fold over the bytes: its state is the sequence that has been begun, if any.
-/

namespace LinearProgram.Text

/-- The character that stands for undecodable bytes. -/
def replacement : Char := '\uFFFD'

/-- A sequence that has been begun: the bits read so far, how many bytes are still to come, and the
range that the next one has to lie in. -/
structure Pending where
  bits : Nat
  missing : Nat
  low : Nat
  high : Nat
deriving DecidableEq, Repr

/-- What a first byte of two or more begins. The range of the second byte excludes overlong forms,
surrogates and codes above the last one. -/
def Pending.ofLead? (b : Nat) : Option Pending :=
  if b < 0xC2 then none
  else if b < 0xE0 then some ⟨b - 0xC0, 1, 0x80, 0xBF⟩
  else if b = 0xE0 then some ⟨b - 0xE0, 2, 0xA0, 0xBF⟩
  else if b = 0xED then some ⟨b - 0xE0, 2, 0x80, 0x9F⟩
  else if b < 0xF0 then some ⟨b - 0xE0, 2, 0x80, 0xBF⟩
  else if b = 0xF0 then some ⟨b - 0xF0, 3, 0x90, 0xBF⟩
  else if b = 0xF4 then some ⟨b - 0xF0, 3, 0x80, 0x8F⟩
  else if b < 0xF4 then some ⟨b - 0xF0, 3, 0x80, 0xBF⟩
  else none

/-- Read a byte outside any sequence: the characters it completes and the sequence it begins. -/
def beginSequence (b : Nat) : List Char × Option Pending :=
  if b < 0x80 then ([Char.ofNat b], none)
  else match Pending.ofLead? b with
    | some p => ([], some p)
    | none => ([replacement], none)

/-- Read one byte. A byte that does not fit ends the begun sequence, which is replaced, and is read
again on its own. -/
def readByte (state : Option Pending) (b : Nat) : List Char × Option Pending :=
  match state with
  | none => beginSequence b
  | some p =>
    if p.low ≤ b ∧ b ≤ p.high then
      let bits := p.bits * 64 + (b - 0x80)
      if p.missing ≤ 1 then ([Char.ofNat bits], none)
      else ([], some ⟨bits, p.missing - 1, 0x80, 0xBF⟩)
    else
      let (chars, next) := beginSequence b
      (replacement :: chars, next)

/-- The characters of the bytes that follow `state`. -/
def readBytes : Option Pending → List UInt8 → List Char
  | none, [] => []
  | some _, [] => [replacement]
  | state, b :: rest =>
    let (chars, next) := readByte state b.toNat
    chars ++ readBytes next rest

/-- Read bytes as UTF-8 with replacements. -/
def ofUtf8 (bytes : List UInt8) : String := String.ofList (readBytes none bytes)

end LinearProgram.Text
