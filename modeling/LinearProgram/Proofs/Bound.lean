import LinearProgram.Proofs.Double

/-!
# Storing bounds and reading them back

Bounds are compared by value, with the equality of doubles: the two zeros are one number, and NaN, which equals
nothing, is left out. What is stored for a pair of bounds is decided by the sides that it means, and decides
them: two pairs are stored alike exactly if they mean the same. Reading a stored pair back gives what was meant,
so storing that again changes nothing.

On the way back only the sides are looked at that the kind leaves finite.
-/

namespace LinearProgram

/-! ## §1 Doubles that are equal -/

namespace Double

variable {x y z : Float}

theorem beq_self (h : x.isNaN = false) : (x == x) = true := by simpa using h

theorem isNaN_of_beq (h : (x == y) = true) : x.isNaN = false := by
  simpa using (Float.beq_iff_ne_nan_and_eq.mp h).1

/-- Equality of doubles can be turned round; NaN is equal to nothing, on either side. -/
theorem beq_symm (h : (x == y) = true) : (y == x) = true := by
  obtain ⟨hx, hy, heq | ⟨rfl, rfl⟩ | ⟨rfl, rfl⟩⟩ := Float.beq_iff_ne_nan_and_eq.mp h
  · exact Float.beq_iff_ne_nan_and_eq.mpr ⟨hy, hx, Or.inl heq.symm⟩
  · rfl
  · rfl

theorem beq_trans (hxy : (x == y) = true) (hyz : (y == z) = true) : (x == z) = true := by
  rw [Float.beq_iff_ne_nan_and_eq] at hxy hyz ⊢
  grind

/-- Equal doubles are infinite together. -/
theorem isInf_eq_of_beq (h : (x == y) = true) : x.isInf = y.isInf := by
  obtain ⟨-, -, rfl | ⟨rfl, rfl⟩ | ⟨rfl, rfl⟩⟩ := Float.beq_iff_ne_nan_and_eq.mp h <;> rfl

/-! ## §2 Sides that mean the same -/

/-- Two sides of bounds mean the same: both are infinite, whatever their signs, or they are equal numbers. -/
def SameSide (x y : Float) : Prop :=
  (x.isInf = true ∧ y.isInf = true) ∨ (x.isInf = false ∧ y.isInf = false ∧ (x == y) = true)

namespace SameSide

theorem isInf_eq (h : SameSide x y) : x.isInf = y.isInf := by
  rcases h with ⟨hx, hy⟩ | ⟨hx, hy, -⟩ <;> rw [hx, hy]

/-- Finite sides that mean the same are equal. -/
theorem beq (h : SameSide x y) (hx : x.isInf = false) : (x == y) = true := by
  rcases h with ⟨hinf, -⟩ | ⟨-, -, heq⟩
  · rw [hx] at hinf
    cases hinf
  · exact heq

/-- Equal doubles stand for the same side of a bound. -/
theorem of_beq (h : (x == y) = true) : SameSide x y := by
  have hinf := isInf_eq_of_beq h
  cases hx : x.isInf with
  | true => exact Or.inl ⟨hx, hinf ▸ hx⟩
  | false => exact Or.inr ⟨hx, hinf ▸ hx, h⟩

theorem trans (h₁ : SameSide x y) (h₂ : SameSide y z) : SameSide x z := by
  cases hx : x.isInf with
  | true => exact Or.inl ⟨hx, by rw [← h₂.isInf_eq, ← h₁.isInf_eq, hx]⟩
  | false => exact of_beq (beq_trans (h₁.beq hx) (h₂.beq (h₁.isInf_eq ▸ hx)))

end SameSide

end Double

/-! ## §3 The stored form -/

/-- Whether the stored lower side is looked at when a bound of the kind is read. -/
def BoundKind.readsLower : BoundKind → Bool
  | .free | .upper => false
  | .lower | .double | .fixed => true

/-- Whether the stored upper side is looked at. A fixed bound has its value on the lower side. -/
def BoundKind.readsUpper : BoundKind → Bool
  | .free | .lower | .fixed => false
  | .upper | .double => true

namespace Bound

open Double

variable {lower upper lower' upper' : Float} {b b' : Bound}

/-- Two stored bounds are the same number for number. -/
def Same (b b' : Bound) : Prop :=
  b.kind = b'.kind ∧ (b.lower == b'.lower) = true ∧ (b.upper == b'.upper) = true

/-- Two pairs of bounds are the same number for number. -/
def SamePair (p q : Float × Float) : Prop := (p.1 == q.1) = true ∧ (p.2 == q.2) = true

/-- The pair that a pair of bounds means: an infinite side stands for no bound on that side. -/
def meant (lower upper : Float) : Float × Float :=
  (if lower.isInf then negInfinity else lower, if upper.isInf then infinity else upper)

def kindOf (lower upper : Float) : BoundKind :=
  if lower.isInf then (if upper.isInf then .free else .upper)
  else if upper.isInf then .lower
  else if lower == upper then .fixed
  else .double

def stored (x : Float) : Float := if x.isInf then 0 else x

theorem encode_of_isNaN (h : lower.isNaN = true ∨ upper.isNaN = true) :
    encode lower upper = .error (.nanBound lower upper) := by
  unfold encode
  rw [if_pos (by simpa using h)]

/-- **The stored form**: a kind, and the two sides on their own. -/
theorem encode_eq (hl : lower.isNaN = false) (hu : upper.isNaN = false) :
    encode lower upper = .ok ⟨kindOf lower upper, stored lower, stored upper⟩ := by
  unfold encode kindOf stored
  rw [hl, hu]
  cases lower.isInf <;> cases upper.isInf <;> simp only [Bool.or_self, Bool.false_eq_true, if_false, if_true]
  -- two finite sides are stored alike, whether they are equal or not
  split <;> rfl

/-- Bounds that are taken are numbers or infinities. -/
theorem not_isNaN_of_encode (h : encode lower upper = .ok b) :
    lower.isNaN = false ∧ upper.isNaN = false := by
  by_contra hnan
  rw [encode_of_isNaN (by simpa [← Bool.not_eq_true, imp_iff_not_or] using hnan)] at h
  cases h

/-- The kind tells which sides are infinite. -/
theorem kindOf_eq_iff :
    kindOf lower upper = kindOf lower' upper' ↔
      lower.isInf = lower'.isInf ∧ upper.isInf = upper'.isInf ∧
        (lower.isInf = false → upper.isInf = false → ((lower == upper) = true ↔ (lower' == upper') = true)) := by
  unfold kindOf
  cases lower.isInf <;> cases upper.isInf <;> cases lower'.isInf <;> cases upper'.isInf <;>
    cases lower == upper <;> cases lower' == upper' <;> simp

/-- A side is stored as the number that it is, unless it is infinite. -/
theorem sameSide_iff (hx : lower.isInf = lower'.isInf) :
    SameSide lower lower' ↔ (stored lower == stored lower') = true := by
  have hzero : ((0 : Float) == 0) = true := rfl
  unfold SameSide stored
  rw [← hx]
  cases lower.isInf <;> simp [hzero]

/-- **Two pairs are stored alike exactly if they mean the same.** -/
theorem same_iff (h : encode lower upper = .ok b) (h' : encode lower' upper' = .ok b') :
    b.Same b' ↔ SameSide lower lower' ∧ SameSide upper upper' := by
  obtain ⟨hl, hu⟩ := not_isNaN_of_encode h
  obtain ⟨hl', hu'⟩ := not_isNaN_of_encode h'
  rw [encode_eq hl hu] at h
  rw [encode_eq hl' hu'] at h'
  cases h
  cases h'
  constructor
  · rintro ⟨hkind, hlower, hupper⟩
    obtain ⟨hlinf, huinf, -⟩ := kindOf_eq_iff.mp hkind
    exact ⟨(sameSide_iff hlinf).mpr hlower, (sameSide_iff huinf).mpr hupper⟩
  · rintro ⟨hlower, hupper⟩
    refine ⟨kindOf_eq_iff.mpr ⟨hlower.isInf_eq, hupper.isInf_eq, fun hl hu => ?_⟩,
      (sameSide_iff hlower.isInf_eq).mp hlower, (sameSide_iff hupper.isInf_eq).mp hupper⟩
    -- sides that are equal to one another stay so when both are replaced by equal numbers
    have hlbeq := hlower.beq hl
    have hubeq := hupper.beq hu
    exact ⟨fun heq => beq_trans (beq_symm hlbeq) (beq_trans heq hubeq),
      fun heq => beq_trans hlbeq (beq_trans heq (beq_symm hubeq))⟩

/-! ## §4 Reading back -/

/-- An infinite side means the same as the infinity that stands for it. -/
theorem meant_sameSide (hl : lower.isNaN = false) (hu : upper.isNaN = false) :
    SameSide (meant lower upper).1 lower ∧ SameSide (meant lower upper).2 upper := by
  have hbottom : negInfinity.isInf = true := rfl
  have htop : infinity.isInf = true := rfl
  unfold meant
  refine ⟨?_, ?_⟩
  · -- either infinity means that there is no bound on the side
    cases h : lower.isInf with
    | true => exact Or.inl ⟨hbottom, h⟩
    | false => exact .of_beq (beq_self hl)
  · cases h : upper.isInf with
    | true => exact Or.inl ⟨htop, h⟩
    | false => exact .of_beq (beq_self hu)

/-- **Reading back** gives the pair that was meant. -/
theorem decode_samePair (hl : lower.isNaN = false) (hu : upper.isNaN = false) :
    SamePair (decode ⟨kindOf lower upper, stored lower, stored upper⟩) (meant lower upper) := by
  have hbottom : (negInfinity == negInfinity) = true := rfl
  have htop : (infinity == infinity) = true := rfl
  have hlower := beq_self hl
  have hupper := beq_self hu
  unfold kindOf stored meant
  -- four cases, as each side is bounded or not; two finite bounds may still coincide
  cases hlinf : lower.isInf <;> cases huinf : upper.isInf
  · cases hequal : lower == upper with
    | true => exact ⟨hlower, hequal⟩
    | false => exact ⟨hlower, hupper⟩
  · exact ⟨hlower, htop⟩
  · exact ⟨hbottom, hupper⟩
  · exact ⟨hbottom, htop⟩

/-- Storing what was read back gives the same bound. -/
theorem encode_decode (h : encode lower upper = .ok b) :
    SamePair b.decode (meant lower upper) ∧ ∃ b', encode b.decode.1 b.decode.2 = .ok b' ∧ b'.Same b := by
  obtain ⟨hl, hu⟩ := not_isNaN_of_encode h
  have hb := h
  rw [encode_eq hl hu] at hb
  cases hb
  have hread := decode_samePair hl hu
  -- what was read is no NaN either, so it encodes
  have hagain := encode_eq (isNaN_of_beq hread.1) (isNaN_of_beq hread.2)
  obtain ⟨hlower, hupper⟩ := meant_sameSide hl hu
  exact ⟨hread, _, hagain,
    (same_iff hagain h).mpr ⟨(SameSide.of_beq hread.1).trans hlower, (SameSide.of_beq hread.2).trans hupper⟩⟩

/-- A side that is not looked at may hold any number. -/
theorem decodeNumbers_congr {kind : BoundKind} {l u l' u' : Number}
    (hl : kind.readsLower = true → l = l') (hu : kind.readsUpper = true → u = u') :
    decodeNumbers kind l u = decodeNumbers kind l' u' := by
  unfold decodeNumbers
  cases kind with
  | free => rfl
  | lower => rw [hl rfl]; rfl
  | upper => rw [hu rfl]; rfl
  | double => rw [hl rfl, hu rfl]
  | fixed => rw [hl rfl]; rfl

/-- **Bounds are stored as they are meant.** Storing fails exactly on NaN. Otherwise reading back gives the pair
that was meant, and storing that gives the same bound. Two pairs are stored alike exactly if they mean the same:
their finite sides are equal numbers, and the same sides are infinite. And what is read back depends on the sides
that the kind leaves finite, a fixed bound on its lower side alone, whatever numbers are stored elsewhere. -/
theorem stored_as_meant :
    (∀ lower upper fault, encode lower upper = .error fault ↔
      fault = .nanBound lower upper ∧ (lower.isNaN = true ∨ upper.isNaN = true)) ∧
    (∀ lower upper, lower.isNaN = false → upper.isNaN = false →
      ∃ b b', encode lower upper = .ok b ∧ SamePair b.decode (meant lower upper) ∧
        encode b.decode.1 b.decode.2 = .ok b' ∧ b'.Same b) ∧
    (∀ lower upper lower' upper' b b', encode lower upper = .ok b → encode lower' upper' = .ok b' →
      (b.Same b' ↔ SameSide lower lower' ∧ SameSide upper upper')) ∧
    (∀ b : Bound, decodeNumbers b.kind (.float b.lower) (.float b.upper) = .ok b.decode) ∧
    ∀ (kind : BoundKind) (lower upper lower' upper' : Number), (kind.readsLower = true → lower = lower') →
      (kind.readsUpper = true → upper = upper') →
        decodeNumbers kind lower upper = decodeNumbers kind lower' upper' := by
  refine ⟨fun lower upper fault => ⟨fun h => ?_, ?_⟩, fun lower upper hl hu => ?_,
    fun _ _ _ _ _ _ => same_iff, ?_, fun _ _ _ _ _ => decodeNumbers_congr⟩
  · -- only NaN makes the storing fail
    by_cases hnan : lower.isNaN = true ∨ upper.isNaN = true
    · rw [encode_of_isNaN hnan] at h
      cases h
      exact ⟨rfl, hnan⟩
    · rw [not_or, Bool.not_eq_true, Bool.not_eq_true] at hnan
      rw [encode_eq hnan.1 hnan.2] at h
      cases h
  · rintro ⟨rfl, hnan⟩
    exact encode_of_isNaN hnan
  · have hencode := encode_eq hl hu
    obtain ⟨hread, b', hagain, hsame⟩ := encode_decode hencode
    exact ⟨_, b', hencode, hread, hagain, hsame⟩
  · rintro ⟨kind, lower, upper⟩
    cases kind <;> rfl

/-- An upper bound of zero, with an infinity of the wrong sign below it, is the same as one of minus zero with the
right one; and nothing that is stored below it is looked at. -/
theorem stored_as_meant_of_wrong_infinity :
    (∃ b b', encode infinity (-0) = .ok b ∧ SamePair b.decode (negInfinity, 0) ∧
      encode b.decode.1 b.decode.2 = .ok b' ∧ b'.Same b) ∧
    (∃ b b', encode infinity (-0) = .ok b ∧ encode negInfinity 0 = .ok b' ∧ b.Same b') ∧
    decodeNumbers .upper (.float nan) (.float 5) = decodeNumbers .upper (.int 7) (.float 5) := by
  have hzero : (0 : Float).isNaN = false := rfl
  have hminus : (-0 : Float).isNaN = false := rfl
  have hinf : infinity.isNaN = false := rfl
  have hneg : negInfinity.isNaN = false := rfl
  -- plus infinity below means no lower bound, and minus zero is zero
  have hmeant : meant infinity (-0) = (negInfinity, -0) := rfl
  have hzeros : ((-0 : Float) == 0) = true := rfl
  obtain ⟨-, hread, hsame, -, hunread⟩ := stored_as_meant
  obtain ⟨b, b', hencode, hpair, hagain⟩ := hread infinity (-0) hinf hminus
  obtain ⟨c, -, hencode', -⟩ := hread negInfinity 0 hneg hzero
  rw [hmeant] at hpair
  refine ⟨⟨b, b', hencode, ⟨hpair.1, beq_trans hpair.2 hzeros⟩, hagain⟩, ⟨b, c, hencode, hencode', ?_⟩,
    hunread .upper _ _ _ _ (by decide) fun _ => rfl⟩
  exact (hsame _ _ _ _ _ _ hencode hencode').mpr
    ⟨Or.inl ⟨rfl, rfl⟩, .of_beq hzeros⟩

end Bound

end LinearProgram
