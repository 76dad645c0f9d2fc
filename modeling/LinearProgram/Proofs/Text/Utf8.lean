import LinearProgram.Text.Utf8

/-!
# Text that comes as bytes

A text that was written in UTF-8 is read back as it was, character by character. The first byte of a character
begins a sequence, and says in which range the next byte has to lie; each byte after it adds six bits, until the
last one completes the character.
-/

namespace LinearProgram.Text

variable {bits n m low high : Nat}

/-! ## §1 Bytes of a character -/

/-- A byte that is read adds its characters and leaves a state to go on from. -/
theorem readBytes_ofNat {state next : Option Pending} {chars : List Char} (hn : n < 256)
    (h : readByte state n = (chars, next)) (rest : List UInt8) :
    readBytes state (UInt8.ofNat n :: rest) = chars ++ readBytes next rest := by
  have hbyte : (UInt8.ofNat n).toNat = n := UInt8.toNat_ofNat_of_lt' hn
  cases state <;> rw [readBytes, hbyte, h]

/-- A byte that is a character. -/
theorem readBytes_ascii (hn : n < 0x80) (rest : List UInt8) :
    readBytes none (UInt8.ofNat n :: rest) = Char.ofNat n :: readBytes none rest :=
  readBytes_ofNat (n := n) (by omega) (by rw [readByte, beginSequence, if_pos hn]) rest

/-- A first byte. -/
theorem readBytes_lead {p : Pending} (hn : 0x80 ≤ n ∧ n < 256) (h : Pending.ofLead? n = some p)
    (rest : List UInt8) : readBytes none (UInt8.ofNat n :: rest) = readBytes (some p) rest :=
  readBytes_ofNat (n := n) (by omega) (by rw [readByte, beginSequence, if_neg (by omega), h]) rest

/-- A byte with more to come after it. -/
theorem readBytes_middle {missing : Nat} (hm : m < 64) (hrange : low ≤ m + 0x80 ∧ m + 0x80 ≤ high)
    (hmore : ¬ missing ≤ 1) (rest : List UInt8) :
    readBytes (some ⟨bits, missing, low, high⟩) (UInt8.ofNat (m + 0x80) :: rest) =
      readBytes (some ⟨bits * 64 + m, missing - 1, 0x80, 0xBF⟩) rest := by
  have hread : readByte (some ⟨bits, missing, low, high⟩) (m + 0x80) =
      ([], some ⟨bits * 64 + m, missing - 1, 0x80, 0xBF⟩) := by
    simp only [readByte, if_pos hrange, if_neg hmore, Nat.add_sub_cancel]
  exact readBytes_ofNat (by omega) hread rest

/-- The last byte. -/
theorem readBytes_last (hm : m < 64) (hrange : low ≤ m + 0x80 ∧ m + 0x80 ≤ high) (rest : List UInt8) :
    readBytes (some ⟨bits, 1, low, high⟩) (UInt8.ofNat (m + 0x80) :: rest) =
      Char.ofNat (bits * 64 + m) :: readBytes none rest := by
  have hread : readByte (some ⟨bits, 1, low, high⟩) (m + 0x80) = ([Char.ofNat (bits * 64 + m)], none) := by
    simp only [readByte, if_pos hrange, if_pos (Nat.le_refl 1), Nat.add_sub_cancel]
  exact readBytes_ofNat (by omega) hread rest

/-! ## §2 First bytes -/

theorem ofLead?_two (hlong : 2 ≤ n) (hn : n < 32) : Pending.ofLead? (n + 0xC0) = some ⟨n, 1, 0x80, 0xBF⟩ := by
  rw [Pending.ofLead?, if_neg (by omega), if_pos (by omega), Nat.add_sub_cancel]

/-- What follows the first byte of three is neither an overlong form nor a surrogate. -/
theorem ofLead?_three (hn : n < 16) (hm : m < 64) (hlong : n = 0 → 32 ≤ m) (hsurrogate : n = 13 → m < 32) :
    ∃ low high, Pending.ofLead? (n + 0xE0) = some ⟨n, 2, low, high⟩ ∧ low ≤ m + 0x80 ∧ m + 0x80 ≤ high := by
  unfold Pending.ofLead?
  rw [if_neg (by omega), if_neg (by omega), Nat.add_sub_cancel]
  -- E0 rules out overlong forms, ED the surrogates; other leads take any second byte
  split
  · exact ⟨_, _, rfl, by omega, by omega⟩
  split
  · exact ⟨_, _, rfl, by omega, by omega⟩
  · rw [if_pos (by omega)]
    exact ⟨_, _, rfl, by omega, by omega⟩

/-- What follows the first byte of four is neither an overlong form nor beyond the last code. -/
theorem ofLead?_four (hn : n < 5) (hm : m < 64) (hlong : n = 0 → 16 ≤ m) (hbeyond : n = 4 → m < 16) :
    ∃ low high, Pending.ofLead? (n + 0xF0) = some ⟨n, 3, low, high⟩ ∧ low ≤ m + 0x80 ∧ m + 0x80 ≤ high := by
  unfold Pending.ofLead?
  rw [if_neg (by omega), if_neg (by omega), if_neg (by omega), if_neg (by omega), if_neg (by omega),
    Nat.add_sub_cancel]
  -- F0 rules out overlong forms, F4 what lies beyond the last scalar
  split
  · exact ⟨_, _, rfl, by omega, by omega⟩
  split
  · exact ⟨_, _, rfl, by omega, by omega⟩
  · rw [if_pos (by omega)]
    exact ⟨_, _, rfl, by omega, by omega⟩

/-! ## §3 Characters and texts -/

/-- **A character** is read from the bytes that it is written in. -/
theorem readBytes_utf8EncodeChar (c : Char) (rest : List UInt8) :
    readBytes none (String.utf8EncodeChar c ++ rest) = c :: readBytes none rest := by
  have hchar : Char.ofNat c.val.toNat = c := Char.ofNat_toNat c
  have hvalid : c.val.toNat < 0xD800 ∨ 0xDFFF < c.val.toNat ∧ c.val.toNat < 0x110000 := c.valid
  unfold String.utf8EncodeChar
  dsimp only
  generalize c.val.toNat = v at hchar hvalid ⊢
  have hsix : v % 64 < 64 := Nat.mod_lt _ (by decide)
  have htwelve : v / 64 % 64 < 64 := Nat.mod_lt _ (by decide)
  have heighteen : v / 4096 % 64 < 64 := Nat.mod_lt _ (by decide)
  -- one case for each number of bytes
  split
  · rw [List.singleton_append, readBytes_ascii (by omega), hchar]
  split
  · rw [Nat.mod_eq_of_lt (show v / 64 < 32 by omega)]
    have hlead := ofLead?_two (n := v / 64) (by omega) (by omega)
    have hcode : v / 64 * 64 + v % 64 = v := by omega
    simp only [List.cons_append, List.nil_append]
    rw [readBytes_lead (by omega) hlead, readBytes_last hsix (by omega), hcode, hchar]
  split
  · rw [Nat.mod_eq_of_lt (show v / 4096 < 16 by omega)]
    obtain ⟨low, high, hlead, hrange⟩ :=
      ofLead?_three (n := v / 4096) (m := v / 64 % 64) (by omega) htwelve (by omega) (by omega)
    have hcode : (v / 4096 * 64 + v / 64 % 64) * 64 + v % 64 = v := by omega
    simp only [List.cons_append, List.nil_append]
    rw [readBytes_lead (by omega) hlead, readBytes_middle htwelve hrange (by decide),
      readBytes_last hsix (by omega), hcode, hchar]
  · rw [Nat.mod_eq_of_lt (show v / 262144 < 8 by omega)]
    obtain ⟨low, high, hlead, hrange⟩ :=
      ofLead?_four (n := v / 262144) (m := v / 4096 % 64) (by omega) heighteen (by omega) (by omega)
    have hcode : ((v / 262144 * 64 + v / 4096 % 64) * 64 + v / 64 % 64) * 64 + v % 64 = v := by omega
    simp only [List.cons_append, List.nil_append]
    rw [readBytes_lead (by omega) hlead, readBytes_middle heighteen hrange (by decide),
      readBytes_middle htwelve (by omega) (by decide), readBytes_last hsix (by omega), hcode, hchar]

/-- Characters are read from the bytes that they are written in. -/
theorem readBytes_flatMap (cs : List Char) : readBytes none (cs.flatMap String.utf8EncodeChar) = cs := by
  induction cs with
  | nil => rfl
  | cons c cs ih => rw [List.flatMap_cons, readBytes_utf8EncodeChar, ih]

/-- **A text** that was written in UTF-8 is read back as it was. -/
theorem ofUtf8_toUTF8 (s : String) : ofUtf8 s.toUTF8.data.toList = s := by
  have hbytes : s.toUTF8.data.toList = s.toList.flatMap String.utf8EncodeChar := by
    rw [String.toUTF8_eq_toByteArray, ← String.utf8Encode_toList]
    exact List.toList_data_toByteArray
  rw [ofUtf8, hbytes, readBytes_flatMap, String.ofList_toList]

end LinearProgram.Text
