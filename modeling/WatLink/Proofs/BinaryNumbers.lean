import WatLink.Binary64.Arithmetic
import WatLink.Proofs.NearestValues

/-!
# Parts of double-precision numbers

A number is its sign and its magnitude, and a finite one is its sign with a
significand and an exponent in the form of the format.  What is computed exactly is
therefore found again: numbers of single precision are not changed by rounding to
single precision, and multiplying by one keeps the magnitude.
-/

namespace WatLink

namespace Binary64

open BinaryFormat

/-! ## Signs and magnitudes -/

theorem magnitude_lt (number : Binary64) : number.magnitude < 2 ^ 63 :=
  Nat.mod_lt _ (by decide)

theorem toNat_bits (number : Binary64) :
    number.bits.toNat = (if number.isNegative then 2 ^ 63 else 0) + number.magnitude := by
  have bound := number.bits.isLt
  simp only [isNegative, BitVec.msb_eq_decide, magnitude, Nat.pow_eq, decide_eq_true_eq]
  split <;> omega

@[simp]
theorem isNegative_ofMagnitude (negative : Bool) (magnitude : Nat) :
    (ofMagnitude negative magnitude).isNegative = negative := by
  simp only [ofMagnitude, isNegative, BitVec.msb_eq_decide, BitVec.toNat_ofNat, Nat.pow_eq]
  cases negative <;> simp <;> omega

theorem magnitude_ofMagnitude_mod (negative : Bool) (magnitude : Nat) :
    (ofMagnitude negative magnitude).magnitude = magnitude % 2 ^ 63 := by
  simp only [ofMagnitude, Binary64.magnitude, BitVec.toNat_ofNat, Nat.pow_eq]
  cases negative <;> simp

theorem magnitude_ofMagnitude (negative : Bool) {magnitude : Nat} (small : magnitude < 2 ^ 63) :
    (ofMagnitude negative magnitude).magnitude = magnitude := by
  rw [magnitude_ofMagnitude_mod, Nat.mod_eq_of_lt small]

theorem ofMagnitude_magnitude (negative negative' : Bool) (magnitude : Nat) :
    ofMagnitude negative (ofMagnitude negative' magnitude).magnitude =
      ofMagnitude negative magnitude := by
  rw [magnitude_ofMagnitude_mod, ofMagnitude, ofMagnitude, Nat.pow_eq, Nat.mod_mod]

theorem ext_parts {first second : Binary64} (sameSign : first.isNegative = second.isNegative)
    (sameMagnitude : first.magnitude = second.magnitude) : first = second := by
  have sameBits : first.bits = second.bits := by
    apply BitVec.eq_of_toNat_eq
    rw [toNat_bits, toNat_bits, sameSign, sameMagnitude]
  cases first
  cases second
  exact congrArg _ sameBits

@[simp]
theorem ofMagnitude_self (number : Binary64) :
    ofMagnitude number.isNegative number.magnitude = number :=
  ext_parts (isNegative_ofMagnitude _ _) (magnitude_ofMagnitude _ number.magnitude_lt)

/-- Equal numbers of one sign are the same. -/
theorem eq_of_eq {first second : Binary64} (equal : first.eq second = true)
    (sameSign : first.isNegative = second.isNegative) : first = second := by
  apply ext_parts sameSign
  simp only [eq, orderKey, Bool.and_eq_true, beq_iff_eq] at equal
  have sameKey := equal.2
  rw [sameSign] at sameKey
  split at sameKey <;> omega

theorem eq_signedZero {number : Binary64} (isZero : number.isZero = true) :
    number = signedZero number.isNegative := by
  have noMagnitude : number.magnitude = 0 := eq_of_beq isZero
  rw [signedZero, ← noMagnitude, ofMagnitude_self]

theorem isZero_signedZero (negative : Bool) : (signedZero negative).isZero = true := by
  cases negative <;> rfl

theorem eq_infinity {number : Binary64} (isInfinite : number.isInfinite = true) :
    number = infinity number.isNegative := by
  have same : number.magnitude = infiniteMagnitude := eq_of_beq isInfinite
  rw [infinity, ← same, ofMagnitude_self]

theorem isFinite_of_ordinary {number : Binary64} (notNaN : number.isNaN = false)
    (notInfinite : number.isInfinite = false) : number.isFinite = true := by
  have atMost := of_decide_eq_false notNaN
  have other := beq_eq_false_iff_ne.mp notInfinite
  exact decide_eq_true (by omega)

/-! ## Significands and exponents -/

/-- The magnitude of the number with a significand and an exponent. -/
def partsMagnitude (significand : Nat) (exponent : Int) : Nat :=
  if significand < 2 ^ 52 then significand
  else (exponent + 1075).toNat * 2 ^ 52 + (significand - 2 ^ 52)

theorem ofParts_eq (negative : Bool) (significand : Nat) (exponent : Int) :
    ofParts negative significand exponent =
      ofMagnitude negative (partsMagnitude significand exponent) := by
  simp only [ofParts, partsMagnitude, Nat.pow_eq]
  split_ifs <;> rfl

section Canonical

variable {significand : Nat} {exponent : Int}

theorem partsMagnitude_lt (canonical : doubleFormat.Canonical significand exponent) :
    partsMagnitude significand exponent < infiniteMagnitude := by
  obtain ⟨bound, least, greatest, -⟩ := canonical
  simp only [doubleFormat] at bound least greatest
  simp only [partsMagnitude, infiniteMagnitude, Nat.pow_eq]
  split <;> omega

theorem magnitude_ofParts (negative : Bool)
    (canonical : doubleFormat.Canonical significand exponent) :
    (ofParts negative significand exponent).magnitude = partsMagnitude significand exponent := by
  have below := partsMagnitude_lt canonical
  rw [ofParts_eq]
  apply magnitude_ofMagnitude
  simp only [infiniteMagnitude, Nat.pow_eq] at below
  omega

theorem isNegative_ofParts (negative : Bool) :
    (ofParts negative significand exponent).isNegative = negative := by
  rw [ofParts_eq, isNegative_ofMagnitude]

theorem isFinite_ofParts (negative : Bool)
    (canonical : doubleFormat.Canonical significand exponent) :
    (ofParts negative significand exponent).isFinite = true := by
  rw [isFinite, magnitude_ofParts negative canonical]
  exact decide_eq_true (partsMagnitude_lt canonical)

theorem significand_ofParts (negative : Bool)
    (canonical : doubleFormat.Canonical significand exponent) :
    (ofParts negative significand exponent).significand = significand := by
  rw [Binary64.significand, magnitude_ofParts negative canonical]
  obtain ⟨bound, least, greatest, -⟩ := canonical
  simp only [doubleFormat] at bound least greatest
  simp only [partsMagnitude, Nat.pow_eq]
  split_ifs <;> omega

theorem exponent_ofParts (negative : Bool)
    (canonical : doubleFormat.Canonical significand exponent) :
    (ofParts negative significand exponent).exponent = exponent := by
  rw [Binary64.exponent, magnitude_ofParts negative canonical]
  obtain ⟨bound, least, greatest, normal⟩ := canonical
  simp only [doubleFormat] at bound least greatest normal
  simp only [partsMagnitude, Nat.pow_eq]
  split_ifs <;> omega

end Canonical

theorem significand_pos {number : Binary64} (nonzero : number.isZero = false) :
    0 < number.significand := by
  have notZero := beq_eq_false_iff_ne.mp nonzero
  simp only [significand, Nat.pow_eq]
  split_ifs <;> omega

/-- The parts of a finite number have the form of the format. -/
theorem canonical_of_isFinite {number : Binary64} (finite : number.isFinite = true) :
    doubleFormat.Canonical number.significand number.exponent := by
  have below := of_decide_eq_true finite
  simp only [infiniteMagnitude, Nat.pow_eq] at below
  simp only [significand, exponent, Nat.pow_eq]
  split
  · refine ⟨?_, le_rfl, by decide, .inr rfl⟩
    simp only [doubleFormat]
    omega
  · refine ⟨?_, ?_, ?_, .inl ?_⟩
    all_goals
      simp only [doubleFormat]
      omega

theorem partsMagnitude_self (number : Binary64) :
    partsMagnitude number.significand number.exponent = number.magnitude := by
  simp only [partsMagnitude, significand, exponent, Nat.pow_eq]
  split_ifs <;> omega

theorem ofParts_self (number : Binary64) :
    ofParts number.isNegative number.significand number.exponent = number := by
  rw [ofParts_eq, partsMagnitude_self, ofMagnitude_self]

/-! ## Exact results -/

theorem quotient_pos (number : Binary64) : 0 < number.quotient.2 :=
  divideByPowerOfTwo_pos _ _ Nat.one_pos

theorem quotient_value (number : Binary64) :
    (number.quotient.1 : ℚ) / number.quotient.2 = number.significand * 2 ^ number.exponent := by
  rw [quotient, divideByPowerOfTwo_value, Nat.cast_one, div_one, zpow_neg, div_inv_eq_mul]

section Exact

variable {significand numerator denominator : Nat} {exponent : Int}

theorem ofQuotient?_of_exact (negative : Bool)
    (canonical : doubleFormat.Canonical significand exponent) (positive : 0 < denominator)
    (exact : (numerator : ℚ) / denominator = significand * 2 ^ exponent) :
    ofQuotient? negative numerator denominator = some (ofParts negative significand exponent) := by
  rw [ofQuotient?, nearest_of_exact (by decide) canonical positive exact]
  rfl

theorem ofScaled_of_exact (negative : Bool)
    (canonical : doubleFormat.Canonical significand exponent) {units : Nat} {unit : Int}
    (exact : (units : ℚ) * 2 ^ unit = significand * 2 ^ exponent) :
    ofScaled negative units unit = ofParts negative significand exponent := by
  have value := @divideByPowerOfTwo_value 1 units (-unit)
  rw [Nat.cast_one, div_one, zpow_neg, div_inv_eq_mul, exact] at value
  simp only [ofScaled, ofQuotient]
  rw [ofQuotient?_of_exact negative canonical (divideByPowerOfTwo_pos _ _ Nat.one_pos) value]
  rfl

/-- Numbers of single precision are numbers of double precision. -/
theorem exists_double_of_single (canonical : singleFormat.Canonical significand exponent) :
    ∃ significand' exponent', doubleFormat.Canonical significand' exponent' ∧
      (significand' : ℚ) * 2 ^ exponent' = significand * 2 ^ exponent := by
  obtain ⟨bound, least, greatest, -⟩ := canonical
  simp only [singleFormat] at bound least greatest
  rcases Nat.eq_zero_or_pos significand with rfl | positive
  · exact ⟨0, -1074, ⟨by decide, by decide, by decide, .inr rfl⟩, by simp⟩
  · -- the leading bit moves to its place
    have lower := Nat.log2_self_le positive.ne'
    have upper := @Nat.lt_log2_self significand
    have few : significand.log2 < 24 := (Nat.log2_lt positive.ne').mpr bound
    obtain ⟨shift, total⟩ : ∃ shift, significand.log2 + shift = 52 :=
      ⟨52 - significand.log2, by omega⟩
    refine ⟨significand * 2 ^ shift, exponent - shift, ⟨?_, ?_, ?_, .inl ?_⟩, ?_⟩
    · calc significand * 2 ^ shift
        _ < 2 ^ (significand.log2 + 1) * 2 ^ shift :=
            Nat.mul_lt_mul_of_pos_right upper (Nat.two_pow_pos _)
        _ = 2 ^ 53 := by rw [← pow_add]; congr 1; omega
    · simp only [doubleFormat]
      omega
    · simp only [doubleFormat]
      omega
    · calc 2 ^ 52
        _ = 2 ^ significand.log2 * 2 ^ shift := by rw [← pow_add, total]
        _ ≤ significand * 2 ^ shift := Nat.mul_le_mul_right _ lower
    · rw [zpow_sub₀ two_ne_zero, zpow_natCast]
      push_cast
      field_simp

end Exact

theorem toSingle_of_isFinite {number : Binary64} (finite : number.isFinite = true) :
    number.toSingle = (singleFormat.nearest number.quotient.1 number.quotient.2).elim
      (infinity number.isNegative) fun parts => ofScaled number.isNegative parts.1 parts.2 := by
  rw [toSingle, if_pos finite]
  dsimp only
  cases singleFormat.nearest number.quotient.1 number.quotient.2 <;> rfl

/-- Rounding to single precision a second time changes nothing. -/
theorem toSingle_toSingle (number : Binary64) : number.toSingle.toSingle = number.toSingle := by
  cases finite : number.isFinite with
  | false =>
      have same : number.toSingle = number := by rw [toSingle, finite]; rfl
      rw [same, same]
  | true =>
      rw [toSingle_of_isFinite finite]
      cases rounded : singleFormat.nearest number.quotient.1 number.quotient.2 with
      | none => cases number.isNegative <;> rfl
      | some parts =>
          obtain ⟨significand, exponent⟩ := parts
          have canonical := canonical_of_nearest sound_singleFormat number.quotient_pos rounded
          obtain ⟨significand', exponent', canonical', exact⟩ := exists_double_of_single canonical
          have isParts : ofScaled number.isNegative significand exponent =
              ofParts number.isNegative significand' exponent' :=
            ofScaled_of_exact _ canonical' exact.symm
          have value := quotient_value (ofParts number.isNegative significand' exponent')
          rw [significand_ofParts _ canonical', exponent_ofParts _ canonical', exact] at value
          rw [Option.elim_some, isParts, toSingle_of_isFinite (isFinite_ofParts _ canonical'),
            nearest_of_exact (by decide) canonical (quotient_pos _) value, isNegative_ofParts]
          exact isParts

theorem isNegative_ofQuotient (negative : Bool) (numerator denominator : Nat) :
    (ofQuotient negative numerator denominator).isNegative = negative := by
  rw [ofQuotient, ofQuotient?]
  cases doubleFormat.nearest numerator denominator with
  | none => exact isNegative_ofMagnitude _ _
  | some parts => exact isNegative_ofParts negative

theorem isNegative_toSingle (number : Binary64) :
    number.toSingle.isNegative = number.isNegative := by
  cases finite : number.isFinite with
  | false => rw [toSingle, finite, if_neg (by decide)]
  | true =>
      rw [toSingle_of_isFinite finite]
      cases singleFormat.nearest number.quotient.1 number.quotient.2 with
      | none => exact isNegative_ofMagnitude _ _
      | some parts => exact isNegative_ofQuotient _ _ _

theorem isFinite_of_toSingle {number : Binary64} (finite : number.toSingle.isFinite = true) :
    number.isFinite = true := by
  by_contra infinite
  rw [toSingle, if_neg infinite] at finite
  exact infinite finite

theorem toSingle_signedZero (negative : Bool) :
    (signedZero negative).toSingle = signedZero negative := by
  cases negative <;> rfl

/-! ## Multiplying by one -/

/-- One with a sign. -/
def signedOne (negative : Bool) : Binary64 :=
  (ofInt 1).copySign (signedZero negative)

theorem isNegative_signedOne (negative : Bool) : (signedOne negative).isNegative = negative := by
  cases negative <;> rfl

theorem significand_signedOne (negative : Bool) : (signedOne negative).significand = 2 ^ 52 := by
  cases negative <;> rfl

theorem exponent_signedOne (negative : Bool) : (signedOne negative).exponent = -52 := by
  cases negative <;> rfl

theorem isFinite_signedOne (negative : Bool) : (signedOne negative).isFinite = true := by
  cases negative <;> rfl

section Finite

variable {number : Binary64} (finite : number.isFinite = true)
include finite

theorem isNaN_of_isFinite : number.isNaN = false := by
  have below := of_decide_eq_true finite
  exact decide_eq_false (by omega)

theorem isInfinite_of_isFinite : number.isInfinite = false := by
  have below := of_decide_eq_true finite
  exact beq_eq_false_iff_ne.mpr (by omega)

end Finite

theorem signedOne_mul (negative : Bool) {number : Binary64} (finite : number.isFinite = true) :
    (signedOne negative).mul number =
      ofMagnitude (negative != number.isNegative) number.magnitude := by
  have one := isFinite_signedOne negative
  have exact : ((2 ^ 52 * number.significand : ℕ) : ℚ) * 2 ^ (-52 + number.exponent) =
      number.significand * 2 ^ number.exponent := by
    rw [zpow_add₀ two_ne_zero]
    push_cast
    norm_num
    ring
  simp only [mul, isNaN_of_isFinite one, isNaN_of_isFinite finite, isInfinite_of_isFinite one,
    isInfinite_of_isFinite finite, isNegative_signedOne, significand_signedOne, exponent_signedOne,
    Bool.false_eq_true, if_false, Bool.or_self]
  rw [ofScaled_of_exact _ (canonical_of_isFinite finite) exact, ofParts_eq, partsMagnitude_self]

end Binary64

end WatLink
