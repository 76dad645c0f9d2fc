import LinearProgram.Bound
import Mathlib

/-!
# Doubles as real numbers

`Double.value?` reads a finite double from its bits. Here it is shown to be the reading that the logical
model of `Float` itself has, `value?_eq_ofUnpacked`, so that what `Float` says about infinities, about no
numbers and about equality can be said of values. `toReal` is the value as a real number.

With it, the stored form of a pair of bounds is shown to mean the pair: `Bound.admits_iff_within`.
-/

namespace LinearProgram

namespace Double

open Float.Model UnpackedFloat

/-! ## §1 The model of doubles -/

/-- The exact value of an unpacked double, unless it is infinite or no number. -/
def ofUnpacked : UnpackedFloat → Option Exact
  | .infinity _ | .notANumber => none
  | .zero sign => some ⟨sign == .negative, 0, -1074⟩
  | .finite sign significand exponent _ => some ⟨sign == .negative, significand, exponent⟩

/-- The exponent is held by the eleven bits over the mantissa. -/
private theorem toNat_unpackExponent (b : BitVec Format.binary64.numBits) :
    (@unpackExponent Format.binary64 b).toNat = b.toNat / leadingBit % 2048 := by
  unfold unpackExponent leadingBit
  rw [BitVec.toNat_cast, BitVec.extractLsb_toNat, Nat.shiftRight_eq_div_pow]
  rfl

/-- The mantissa is held by the lowest bits. -/
private theorem toNat_unpackMantissa (b : BitVec Format.binary64.numBits) :
    (@unpackMantissa Format.binary64 b).toNat = b.toNat % leadingBit := by
  unfold unpackMantissa leadingBit
  rw [BitVec.toNat_cast, BitVec.extractLsb_toNat, Nat.shiftRight_zero]
  rfl

/-- A double is negative if its highest bit is set. -/
private theorem isNegative_unpackSign (b : BitVec Format.binary64.numBits) :
    (Sign.ofBitVec (@unpackSign Format.binary64 b) == .negative) =
      decide (signBit ≤ b.toNat) := by
  have hsign : (@unpackSign Format.binary64 b).toNat = b.toNat / signBit % 2 := by
    unfold unpackSign signBit
    rw [BitVec.toNat_cast, BitVec.extractLsb_toNat, Nat.shiftRight_eq_div_pow]
    rfl
  -- 64 bits, of which the sign bit is the highest
  have hlt : b.toNat < 2 * signBit := b.isLt
  have hzero : @unpackSign Format.binary64 b = 0#1 ↔ ¬ signBit ≤ b.toNat := by
    rw [← BitVec.toNat_inj, hsign]
    show b.toNat / signBit % 2 = 0 ↔ _
    unfold signBit at *
    omega
  unfold Sign.ofBitVec
  by_cases hb : signBit ≤ b.toNat
  · rw [if_neg fun h => hzero.mp h hb, decide_eq_true hb]
    rfl
  · rw [if_pos (hzero.mpr hb), decide_eq_false hb]
    rfl

/-- The value that is read from the bits is the one that the model of doubles means. -/
theorem value?_eq_ofUnpacked (x : Float) : value? x = ofUnpacked x.toModel.unpack := by
  let bits := x.toModel.toBits.toBitVec
  have hexponent : (@unpackExponent Format.binary64 bits).toNat =
    x.toBits.toNat / leadingBit % 2048 := toNat_unpackExponent bits
  have hmantissa : (@unpackMantissa Format.binary64 bits).toNat =
    x.toBits.toNat % leadingBit := toNat_unpackMantissa bits
  have hsign : (Sign.ofBitVec (@unpackSign Format.binary64 bits) == .negative) =
    decide (signBit ≤ x.toBits.toNat) := isNegative_unpackSign bits
  have hones : @unpackExponent Format.binary64 bits = -1#_ ↔
      x.toBits.toNat / leadingBit % 2048 = 2047 := by
    rw [← BitVec.toNat_inj, hexponent]
    rfl
  have hzeros : @unpackExponent Format.binary64 bits = 0#_ ↔
      x.toBits.toNat / leadingBit % 2048 = 0 := by
    rw [← BitVec.toNat_inj, hexponent]
    rfl
  have hempty : @unpackMantissa Format.binary64 bits = 0#_ ↔
      x.toBits.toNat % leadingBit = 0 := by
    rw [← BitVec.toNat_inj, hmantissa]
    rfl
  unfold value? Float.Model.unpack UnpackedFloat.unpack
  dsimp only
  by_cases hinfinite : x.toBits.toNat / leadingBit % 2048 = 2047
  · rw [if_pos hinfinite, if_pos (hones.mpr hinfinite)]
    split <;> rfl
  rw [if_neg hinfinite, if_neg (mt hones.mp hinfinite)]
  by_cases hsmall : x.toBits.toNat / leadingBit % 2048 = 0
  · rw [if_pos hsmall, if_pos (hzeros.mpr hsmall)]
    by_cases hzero : x.toBits.toNat % leadingBit = 0
    · rw [dif_pos (hempty.mpr hzero)]
      simp only [ofUnpacked, bits, hsign, hzero, isNegative]
    · rw [dif_neg (mt hempty.mp hzero)]
      simp only [ofUnpacked, bits, hsign, hmantissa, isNegative, hexponent, hsmall]
      rfl
  · -- a normal double has the hidden leading bit before its fraction
    have hnormal : (1#1 ++ @unpackMantissa Format.binary64 bits).toNat =
        leadingBit + x.toBits.toNat % leadingBit := by
      have hlt : x.toBits.toNat % leadingBit < 2 ^ 52 := Nat.mod_lt _ (by decide)
      rw [BitVec.toNat_append, hmantissa, ← Nat.shiftLeft_add_eq_or_of_lt hlt]
      rfl
    rw [if_neg hsmall, if_neg (mt hzeros.mp hsmall)]
    simp only [ofUnpacked, bits, hsign, hnormal, isNegative, hexponent]
    rfl

/-- A double has no value exactly if it is infinite or no number. -/
theorem value?_eq_none_iff (x : Float) : value? x = none ↔ x.isNaN = true ∨ x.isInf = true := by
  have hnan : x.isNaN = x.toModel.unpack.isNaN := rfl
  have hinf : x.isInf = x.toModel.unpack.isInf := rfl
  rw [value?_eq_ofUnpacked, hnan, hinf]
  cases x.toModel.unpack <;> simp [ofUnpacked, UnpackedFloat.isNaN, UnpackedFloat.isInf]

/-- An infinite double is a number. -/
theorem isNaN_of_isInf {x : Float} (h : x.isInf = true) : x.isNaN = false := by
  have hinf : x.toModel.unpack.isInf = true := h
  show x.toModel.unpack.isNaN = false
  revert hinf
  cases x.toModel.unpack <;> simp [UnpackedFloat.isNaN, UnpackedFloat.isInf]

/-! ## §2 Real values -/

/-- How many units of the smallest positive double a finite double is. -/
def units (x : Float) : Int :=
  match value? x with
  | some v => v.units
  | none => 0

noncomputable def toReal (x : Float) : ℝ := units x / unitsPerOne

private theorem unitsPerOne_pos : (0 : ℝ) < unitsPerOne := by
  have hpos : 0 < unitsPerOne := by decide +kernel
  exact Nat.cast_pos.mpr hpos

/-- A double is less than another if it is fewer units. -/
theorem toReal_lt_toReal_iff {x y : Float} : toReal x < toReal y ↔ units x < units y := by
  unfold toReal
  rw [div_lt_div_iff_of_pos_right unitsPerOne_pos, Int.cast_lt]

theorem toReal_eq_neg_iff {x y : Float} : toReal x = -toReal y ↔ units x = -units y := by
  unfold toReal
  rw [← neg_div, div_left_inj' unitsPerOne_pos.ne', ← Int.cast_neg, Int.cast_inj]

/-- Whether a double is the sum of others can be said in units. -/
theorem toReal_eq_sum_iff {x : Float} {vs : List Float} :
    toReal x = (vs.map toReal).sum ↔ units x = (vs.map units).sum := by
  -- a double is a whole number of units, so the sum is one over the integers
  have hsum : (vs.map toReal).sum = ((vs.map units).sum : Int) / unitsPerOne := by
    induction vs with
    | nil => rw [List.map_nil, List.map_nil, List.sum_nil, List.sum_nil, Int.cast_zero, zero_div]
    | cons v rest ih =>
      rw [List.map_cons, List.sum_cons, ih, List.map_cons, List.sum_cons, Int.cast_add, add_div]
      rfl
  rw [hsum, toReal, div_left_inj' unitsPerOne_pos.ne', Int.cast_inj]

/-- Comparing exponents and then significands finds equal numbers equal. -/
private theorem eq_of_compare {e e' : Int} {m m' : Nat}
    (h : (compare e e').then (compare m m') = .eq) : e = e' ∧ m = m' := by
  rw [Ordering.then_eq_eq] at h
  exact ⟨Std.compare_eq_iff_eq.mp h.1, Std.compare_eq_iff_eq.mp h.2⟩

/-- Unpacked doubles that are equal have as many units. The two zeros have the same number, none. -/
private theorem units_eq_of_beq {u v : UnpackedFloat} (h : u.beq v = true) :
    (ofUnpacked u).map Exact.units = (ofUnpacked v).map Exact.units := by
  have hcompare : u.compare v = some .eq := by simpa [UnpackedFloat.beq] using h
  -- doubles of different forms are unequal, apart from a zero of the other sign
  cases u with
  | notANumber => cases hcompare
  | infinity s =>
    cases v with
    | notANumber | infinity => rfl
    | zero | finite => cases s <;> cases hcompare
  | zero s =>
    cases v with
    | notANumber => cases hcompare
    | infinity s' => cases s' <;> cases hcompare
    | zero s' => simp [ofUnpacked, Exact.units]
    | finite s' => cases s' <;> cases hcompare
  | finite s m e hm =>
    cases v with
    | notANumber => cases s <;> cases hcompare
    | infinity s' => cases s <;> cases s' <;> cases hcompare
    | zero s' => cases s <;> cases hcompare
    | finite s' m' e' hm' =>
      cases s <;> cases s' <;> simp only [UnpackedFloat.compare, Option.some.injEq, reduceCtorEq] at hcompare
      · rw [Ordering.swap_eq_eq] at hcompare
        obtain ⟨rfl, rfl⟩ := eq_of_compare hcompare
        rfl
      · obtain ⟨rfl, rfl⟩ := eq_of_compare hcompare
        rfl

/-- Doubles that are equal have one value. -/
theorem toReal_eq_of_beq {x y : Float} (h : (x == y) = true) : toReal x = toReal y := by
  have hunits := units_eq_of_beq (u := x.toModel.unpack) (v := y.toModel.unpack) h
  rw [← value?_eq_ofUnpacked, ← value?_eq_ofUnpacked] at hunits
  have hgetD (z : Float) : units z = ((value? z).map Exact.units).getD 0 := by
    unfold units
    cases value? z <;> rfl
  unfold toReal
  rw [hgetD x, hgetD y, hunits]

@[simp] theorem toReal_zero : toReal 0 = 0 := by
  have hzero : units 0 = 0 := rfl
  rw [toReal, hzero, Int.cast_zero, zero_div]

/-- A sum that is found to be zero has the value zero. -/
theorem toReal_eq_zero_of_beq {x : Float} (h : (x == 0) = true) : toReal x = 0 :=
  (toReal_eq_of_beq h).trans toReal_zero

/-- A finite double whose value is zero is found to be zero, whatever its sign. -/
theorem beq_zero_of_toReal_eq_zero {x : Float} (hfinite : value? x ≠ none) (h : toReal x = 0) :
    (x == 0) = true := by
  have hsum : toReal x = (([] : List Float).map toReal).sum := h
  have hunits : units x = 0 := toReal_eq_sum_iff.mp hsum
  have hzero : (0 : Float).toModel.unpack = .zero .positive := rfl
  have hbeq : (x == 0) = x.toModel.unpack.beq (.zero .positive) := hzero ▸ rfl
  unfold units at hunits
  rw [value?_eq_ofUnpacked] at hfinite hunits
  rw [hbeq]
  revert hfinite hunits
  cases x.toModel.unpack with
  | notANumber | infinity s => exact fun hfinite => absurd rfl hfinite
  | zero s => exact fun _ _ => by cases s <;> rfl
  | finite s m e hm =>
    -- the significand of an unpacked double that is not zero is positive
    intro _ hunits
    have hpow : 0 < Nat.pow 2 (e + 1074).toNat := Nat.pow_pos (by decide)
    have hpos : (0 : Int) < m * (Nat.pow 2 (e + 1074).toNat : Nat) := by positivity
    cases s <;> simp [ofUnpacked, Exact.units] at hunits <;> omega

end Double

/-! ## §3 Bounds -/

/-- The value lies between two doubles. An infinite one, of either sign, is no condition. -/
def Double.Within (lower upper : Float) (s : ℝ) : Prop :=
  (lower.isInf = false → Double.toReal lower ≤ s) ∧ (upper.isInf = false → s ≤ Double.toReal upper)

namespace Bound

/-- The value satisfies a stored bound. -/
def Admits (b : Bound) (s : ℝ) : Prop :=
  match b.kind with
  | .free => True
  | .lower => Double.toReal b.lower ≤ s
  | .upper => s ≤ Double.toReal b.upper
  | .double => Double.toReal b.lower ≤ s ∧ s ≤ Double.toReal b.upper
  | .fixed => s = Double.toReal b.lower

/-- Two infinities, of whichever signs, are no bound. -/
theorem encode_of_isInf {lower upper : Float} (hlower : lower.isInf = true) (hupper : upper.isInf = true) :
    encode lower upper = .ok ⟨.free, 0, 0⟩ := by
  unfold encode
  rw [Double.isNaN_of_isInf hlower, Double.isNaN_of_isInf hupper, hlower, hupper]
  rfl

/-- The five stored forms. -/
theorem encode_cases {lower upper : Float} {b : Bound} (h : encode lower upper = .ok b) :
    (lower.isInf = true ∧ upper.isInf = true ∧ b = ⟨.free, 0, 0⟩) ∨
    (lower.isInf = true ∧ upper.isInf = false ∧ b = ⟨.upper, 0, upper⟩) ∨
    (lower.isInf = false ∧ upper.isInf = true ∧ b = ⟨.lower, lower, 0⟩) ∨
    (lower.isInf = false ∧ upper.isInf = false ∧ (lower == upper) = true ∧ b = ⟨.fixed, lower, upper⟩) ∨
    (lower.isInf = false ∧ upper.isInf = false ∧ b = ⟨.double, lower, upper⟩) := by
  unfold encode at h
  -- what remains without NaN is settled by which sides are infinite
  by_cases hnan : (lower.isNaN || upper.isNaN) = true
  · rw [if_pos hnan] at h
    cases h
  rw [if_neg hnan] at h
  cases hlower : lower.isInf <;> cases hupper : upper.isInf <;> rw [hlower, hupper] at h
  · simp only [Bool.false_eq_true, if_false] at h
    by_cases hsame : (lower == upper) = true
    · rw [if_pos hsame] at h
      cases h
      simp [hsame]
    · rw [if_neg hsame] at h
      cases h
      simp
  · cases h
    simp
  · cases h
    simp
  · cases h
    simp

/-- **The stored form of a pair of bounds means the pair.** -/
theorem admits_iff_within {lower upper : Float} {b : Bound} (h : encode lower upper = .ok b) (s : ℝ) :
    b.Admits s ↔ Double.Within lower upper s := by
  unfold Double.Within
  rcases encode_cases h with ⟨hl, hu, rfl⟩ | ⟨hl, hu, rfl⟩ | ⟨hl, hu, rfl⟩ | ⟨hl, hu, hsame, rfl⟩ |
    ⟨hl, hu, rfl⟩
  · simp [Admits, hl, hu]
  · simp [Admits, hl, hu]
  · simp [Admits, hl, hu]
  · -- the two sides are equal doubles
    simp only [Admits, hl, hu, true_implies, ← Double.toReal_eq_of_beq hsame]
    exact ⟨fun hs => ⟨hs.ge, hs.le⟩, fun hs => le_antisymm hs.2 hs.1⟩
  · simp [Admits, hl, hu]

end Bound

end LinearProgram
