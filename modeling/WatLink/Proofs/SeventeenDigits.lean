import WatLink.Proofs.BinaryNumbers

/-!
# Seventeen digits

Seventeen significant digits tell any two double-precision numbers apart: the unit
of the last one is less than the unit of the significand, because `10 ^ 16` is more
than `2 ^ 53`.  The shortest decimal of a finite number therefore reads back as the
number.
-/

namespace WatLink

/-! ## Lengths of decimals -/

theorem decimalLength_le_iff {number count : Nat} (positive : 0 < count) :
    decimalLength number ≤ count ↔ number < 10 ^ count :=
  Nat.length_toDigits_le_iff (by decide) positive

theorem decimalLength_pos (number : Nat) : 0 < decimalLength number :=
  List.length_pos_iff.mpr Nat.toDigits_ne_nil

theorem lt_pow_decimalLength (number : Nat) : number < 10 ^ decimalLength number :=
  (decimalLength_le_iff (decimalLength_pos number)).mp le_rfl

theorem pow_decimalLength_le {number : Nat} (positive : 0 < number) :
    10 ^ (decimalLength number - 1) ≤ number := by
  by_contra below
  have hasDigit := decimalLength_pos number
  rcases Nat.eq_zero_or_pos (decimalLength number - 1) with isZero | isPositive
  · rw [isZero, pow_zero] at below
    omega
  · have shorter := (decimalLength_le_iff isPositive).mpr (not_le.mp below)
    omega

/-! ## Powers of ten below a quotient -/

theorem exists_power_of_quotient {numerator denominator : Nat} (positive : 0 < denominator)
    (atLeastOne : denominator ≤ numerator) :
    ∃ power, decimalLength (numerator / denominator) = power + 1 ∧
      10 ^ power * denominator ≤ numerator ∧ numerator < 10 ^ (power + 1) * denominator := by
  have wholePositive : 0 < numerator / denominator := Nat.div_pos atLeastOne positive
  have lower := pow_decimalLength_le wholePositive
  have upper := lt_pow_decimalLength (numerator / denominator)
  obtain ⟨power, length_eq⟩ :=
    Nat.exists_eq_add_one.mpr (decimalLength_pos (numerator / denominator))
  rw [length_eq, Nat.add_sub_cancel] at lower
  rw [length_eq] at upper
  exact ⟨power, length_eq, (Nat.le_div_iff_mul_le positive).mp lower,
    (Nat.div_lt_iff_lt_mul positive).mp upper⟩

theorem floorLog10_eq {numerator denominator : Nat} (positive : 0 < numerator)
    (positive' : 0 < denominator) :
    floorLog10 numerator denominator = Int.log 10 ((numerator : ℚ) / denominator) := by
  have castPositive : (0 : ℚ) < denominator := by exact_mod_cast positive'
  rw [eq_comm]
  unfold floorLog10
  split
  · rename_i atLeastOne
    obtain ⟨power, length_eq, lower, upper⟩ := exists_power_of_quotient positive' atLeastOne
    rw [length_eq]
    push_cast
    rw [add_sub_cancel_right]
    apply log_eq_of_bounds (by decide)
    · rw [le_div_iff₀ castPositive, zpow_natCast]
      exact_mod_cast lower
    · rw [div_lt_iff₀ castPositive]
      exact_mod_cast upper
  · rename_i belowOne
    obtain ⟨power, length_eq, lower, upper⟩ :=
      exists_power_of_quotient positive (not_le.mp belowOne).le
    -- comparing with a negative power of ten is comparing without it
    have compares : ∀ count : Nat, (numerator : ℚ) / denominator < ((10 : ℕ) : ℚ) ^ (-(count : ℤ)) ↔
        10 ^ count * numerator < denominator := by
      intro count
      rw [div_lt_iff₀ castPositive, zpow_neg, zpow_natCast, lt_inv_mul_iff₀ (by positivity)]
      exact_mod_cast Iff.rfl
    rw [length_eq]
    dsimp only
    rw [Nat.add_sub_cancel]
    split
    · rename_i isPower
      rw [Nat.pow_eq, Nat.mul_comm] at isPower
      have exponent_eq : (1 : ℤ) - (power + 1 : ℕ) = -power := by omega
      rw [exponent_eq]
      apply log_eq_of_bounds (by decide)
      · exact not_lt.mp fun below => absurd ((compares power).mp below) (not_lt.mpr isPower)
      · rw [zpow_add_one₀ (by norm_num), zpow_neg, zpow_natCast, div_lt_iff₀ castPositive,
          mul_assoc, lt_inv_mul_iff₀ (by positivity)]
        have below : 10 ^ power * numerator < 10 * denominator := by omega
        exact_mod_cast below
    · rename_i notPower
      rw [Nat.pow_eq, Nat.mul_comm, not_le] at notPower
      apply log_eq_of_bounds (by decide)
      · exact not_lt.mp fun below => absurd ((compares (power + 1)).mp below) (by omega)
      · have exponent_eq : -((power + 1 : ℕ) : ℤ) + 1 = -power := by omega
        rw [exponent_eq]
        exact (compares power).mpr notPower

/-! ## Numbers nearest to a decimal -/

namespace Decimal

/-- The rational number that a decimal stands for. -/
def value (decimal : Decimal) : ℚ :=
  decimal.digits * 10 ^ decimal.exponent

theorem value_pos {decimal : Decimal} (positive : 0 < decimal.digits) : 0 < decimal.value := by
  have castPositive : (0 : ℚ) < decimal.digits := by exact_mod_cast positive
  exact mul_pos castPositive (zpow_pos (by norm_num) _)

theorem value_eq_zero_iff {decimal : Decimal} : decimal.value = 0 ↔ decimal.digits = 0 := by
  rcases Nat.eq_zero_or_pos decimal.digits with isZero | positive
  · simp [value, isZero]
  · simp [(value_pos positive).ne', positive.ne']

theorem length_add_exponent {decimal : Decimal} (positive : 0 < decimal.digits) :
    (decimalLength decimal.digits : ℤ) + decimal.exponent = Int.log 10 decimal.value + 1 := by
  obtain ⟨power, length_eq⟩ := Nat.exists_eq_add_one.mpr (decimalLength_pos decimal.digits)
  have lower := pow_decimalLength_le positive
  have upper := lt_pow_decimalLength decimal.digits
  rw [length_eq, Nat.add_sub_cancel] at lower
  rw [length_eq] at upper
  have unitPositive : (0 : ℚ) < 10 ^ decimal.exponent := zpow_pos (by norm_num) _
  have isLog : Int.log 10 decimal.value = power + decimal.exponent := by
    apply log_eq_of_bounds (by decide)
    · rw [value, Nat.cast_ofNat, zpow_add₀ (by norm_num), zpow_natCast]
      apply mul_le_mul_of_nonneg_right _ unitPositive.le
      exact_mod_cast lower
    · rw [value, Nat.cast_ofNat, add_right_comm, zpow_add₀ (by norm_num)]
      apply mul_lt_mul_of_pos_right _ unitPositive
      exact_mod_cast upper
  rw [isLog, length_eq]
  omega

theorem scaled_value (decimal : Decimal) :
    ((divideByPowerOfTen decimal.digits 1 (-decimal.exponent)).1 : ℚ) /
      (divideByPowerOfTen decimal.digits 1 (-decimal.exponent)).2 = decimal.value := by
  rw [divideByPowerOfTen_value, Nat.cast_one, div_one, zpow_neg, div_inv_eq_mul, value]

/-- The number nearest to a decimal depends on its value alone. -/
theorem nearest_congr {first second : Decimal} (same : first.value = second.value) :
    first.nearest = second.nearest := by
  have zeroTogether : first.digits = 0 ↔ second.digits = 0 := by
    rw [← value_eq_zero_iff, same, value_eq_zero_iff]
  rcases Nat.eq_zero_or_pos first.digits with isZero | positive
  · simp only [nearest, isZero, zeroTogether.mp isZero, true_or, if_true]
  · have positive' : 0 < second.digits := by omega
    have sameLength : (decimalLength first.digits : ℤ) + first.exponent =
        decimalLength second.digits + second.exponent := by
      rw [length_add_exponent positive, length_add_exponent positive', same]
    have sameNearest := @BinaryFormat.nearest_congr doubleFormat _ _ _ _
      (divideByPowerOfTen_pos first.digits (-first.exponent) Nat.one_pos)
      (divideByPowerOfTen_pos second.digits (-second.exponent) Nat.one_pos)
      (by rw [scaled_value, scaled_value, same])
    simp only [nearest, zeroTogether, sameLength, sameNearest]

theorem toBinary64_congr (negative : Bool) {first second : Decimal}
    (same : first.value = second.value) :
    first.toBinary64 negative = second.toBinary64 negative := by
  rw [toBinary64, toBinary64, nearest_congr same]

theorem toBinary64_eq_ofMagnitude (negative negative' : Bool) (decimal : Decimal) :
    decimal.toBinary64 negative =
      Binary64.ofMagnitude negative (decimal.toBinary64 negative').magnitude := by
  unfold toBinary64
  split
  · rw [Binary64.infinity, Binary64.infinity, Binary64.ofMagnitude_magnitude]
  · rw [Binary64.ofParts_eq, Binary64.ofParts_eq, Binary64.ofMagnitude_magnitude]

@[simp]
theorem isNegative_toBinary64 (negative : Bool) (decimal : Decimal) :
    (decimal.toBinary64 negative).isNegative = negative := by
  rw [toBinary64_eq_ofMagnitude negative negative, Binary64.isNegative_ofMagnitude]

theorem toBinary64_of_zero {decimal : Decimal} (isZero : decimal.digits = 0) (negative : Bool) :
    decimal.toBinary64 negative = .signedZero negative := by
  rw [toBinary64, nearest]
  simp only [isZero, true_or, if_true]
  rfl

/-- Between the decisive powers of ten a decimal is rounded as a quotient. -/
theorem nearest_eq {decimal : Decimal} (lower : 10 ^ (-401 : ℤ) ≤ decimal.value)
    (upper : decimal.value < 10 ^ (400 : ℤ)) :
    decimal.nearest =
      doubleFormat.nearest (divideByPowerOfTen decimal.digits 1 (-decimal.exponent)).1
        (divideByPowerOfTen decimal.digits 1 (-decimal.exponent)).2 := by
  have valuePositive : 0 < decimal.value := lt_of_lt_of_le (zpow_pos (by norm_num) _) lower
  have nonzero : decimal.digits ≠ 0 := fun isZero =>
    valuePositive.ne' (value_eq_zero_iff.mpr isZero)
  have logLower : -401 ≤ Int.log 10 decimal.value :=
    (Int.zpow_le_iff_le_log (by decide) valuePositive).mp lower
  have logUpper : Int.log 10 decimal.value < 400 :=
    (Int.lt_zpow_iff_log_lt (by decide) valuePositive).mp upper
  simp only [nearest, length_add_exponent (Nat.pos_of_ne_zero nonzero), decisiveExponent]
  rw [if_neg (by omega), if_neg (by omega)]

theorem two_pow_le_ten_pow (count : Nat) : (2 : ℚ) ^ (3 * count) ≤ 10 ^ count := by
  rw [pow_mul]
  exact pow_le_pow_left₀ (by norm_num) (by norm_num) count

/-- No number comes near the decisive powers of ten. -/
theorem between_decisive {value : ℚ} {exponent : Int} (least : -1074 ≤ exponent)
    (greatest : exponent ≤ 971) (lower : 2⁻¹ ≤ value / 2 ^ exponent)
    (upper : value / 2 ^ exponent ≤ 2 ^ 54) :
    10 ^ (-401 : ℤ) ≤ value ∧ value < 10 ^ (400 : ℤ) := by
  have unitPositive : (0 : ℚ) < 2 ^ exponent := zpow_pos two_pos _
  have inUnits : value / 2 ^ exponent * 2 ^ exponent = value := div_mul_cancel₀ _ unitPositive.ne'
  constructor
  · have leastUnit : (2 : ℚ) ^ (-1074 : ℤ) ≤ 2 ^ exponent := zpow_le_zpow_right₀ one_le_two least
    calc (10 : ℚ) ^ (-401 : ℤ)
      _ = (10 ^ 401)⁻¹ := by rw [zpow_neg, zpow_ofNat]
      _ ≤ (2 ^ (3 * 401))⁻¹ := inv_anti₀ (by positivity) (two_pow_le_ten_pow 401)
      _ = 2 ^ (-1203 : ℤ) := by rw [zpow_neg, zpow_ofNat]
      _ ≤ 2 ^ (-1 + -1074 : ℤ) := zpow_le_zpow_right₀ one_le_two (by decide)
      _ = 2⁻¹ * 2 ^ (-1074 : ℤ) := by rw [zpow_add₀ two_ne_zero, zpow_neg_one]
      _ ≤ value / 2 ^ exponent * 2 ^ exponent :=
          mul_le_mul lower leastUnit (zpow_pos two_pos _).le (by linarith)
      _ = value := inUnits
  · have greatestUnit : (2 : ℚ) ^ exponent ≤ 2 ^ (971 : ℤ) :=
      zpow_le_zpow_right₀ one_le_two greatest
    calc value
      _ = value / 2 ^ exponent * 2 ^ exponent := inUnits.symm
      _ ≤ 2 ^ 54 * 2 ^ (971 : ℤ) := mul_le_mul upper greatestUnit unitPositive.le (by norm_num)
      _ = 2 ^ (54 + 971 : ℤ) := by rw [zpow_add₀ two_ne_zero, zpow_ofNat, zpow_ofNat]
      _ < 2 ^ (1200 : ℤ) := zpow_lt_zpow_right₀ one_lt_two (by decide)
      _ = 2 ^ (3 * 400) := by rw [zpow_ofNat]
      _ ≤ 10 ^ 400 := two_pow_le_ten_pow 400
      _ = 10 ^ (400 : ℤ) := by rw [zpow_ofNat]

/-- A decimal nearer to a number than half a unit of its seventeenth digit is
rounded to the number. -/
theorem nearest_of_close {decimal : Decimal} {significand : Nat} {exponent : Int}
    (canonical : doubleFormat.Canonical significand exponent) (nonzero : 0 < significand)
    (close : |decimal.value - significand * 2 ^ exponent| * (2 * 10 ^ 16) ≤
      significand * 2 ^ exponent) :
    decimal.nearest = some (significand, exponent) := by
  have unitPositive : (0 : ℚ) < 2 ^ exponent := zpow_pos two_pos _
  have atLeastOne : (1 : ℚ) ≤ significand := by exact_mod_cast nonzero
  have bound : (significand : ℚ) < 2 ^ 53 := by exact_mod_cast canonical.bound
  have inUnits : |decimal.value / 2 ^ exponent - significand| * (2 * 10 ^ 16) ≤ significand := by
    have scaled : decimal.value / 2 ^ exponent - significand =
        (decimal.value - significand * 2 ^ exponent) / 2 ^ exponent := by field_simp
    rw [scaled, abs_div, abs_of_pos unitPositive, div_mul_eq_mul_div, div_le_iff₀ unitPositive]
    exact close
  obtain ⟨below, above⟩ := abs_le.mp ((le_div_iff₀ (by norm_num)).mpr inUnits)
  have atLeastHalf : 2⁻¹ ≤ decimal.value / 2 ^ exponent := by linarith
  obtain ⟨lower, upper⟩ :=
    between_decisive canonical.least canonical.greatest atLeastHalf (by linarith)
  rw [nearest_eq lower upper]
  apply BinaryFormat.nearest_of_close (by decide) canonical nonzero
    (divideByPowerOfTen_pos _ _ Nat.one_pos)
  · rw [scaled_value, abs_lt]
    constructor <;> linarith
  · intro isPower _
    have castPower : (significand : ℚ) = 2 ^ 52 := by exact_mod_cast isPower
    rw [scaled_value]
    linarith

end Decimal

/-! ## Decimals of a number -/

namespace Binary64

theorem readsBack_of_nearest {number : Binary64} {decimal : Decimal}
    (rounded : decimal.nearest = some (number.significand, number.exponent)) :
    number.readsBack decimal = true := by
  rw [readsBack, Decimal.toBinary64, rounded, beq_iff_eq]
  exact ofParts_self number

theorem readsBack_of_decimalOfLength? {number : Binary64} {count : Nat} {decimal : Decimal}
    (found : number.decimalOfLength? count = some decimal) :
    number.readsBack decimal = true := by
  simp only [decimalOfLength?] at found
  split_ifs at found with nearer below above
  · cases found
    exact nearer
  · cases found
    exact below
  · cases found
    exact above

section Nonzero

variable {number : Binary64} (nonzero : number.isZero = false)
include nonzero

/-- The decimal with a given number of significant digits is off by at most half a
unit of its last digit. -/
theorem significantDecimal_close (count : Nat) :
    |(number.significantDecimal (count + 1)).value - number.significand * 2 ^ number.exponent| *
      (2 * 10 ^ count) ≤ number.significand * 2 ^ number.exponent := by
  have positive := significand_pos nonzero
  have castPositive : (0 : ℚ) < number.significand := by exact_mod_cast positive
  have valuePositive : (0 : ℚ) < number.significand * 2 ^ number.exponent :=
    mul_pos castPositive (zpow_pos two_pos _)
  have numeratorPositive : 0 < number.quotient.1 := by
    apply Nat.pos_of_ne_zero
    intro isZero
    have value := number.quotient_value
    rw [isZero, Nat.cast_zero, zero_div] at value
    exact valuePositive.ne value
  have isLog := floorLog10_eq numeratorPositive number.quotient_pos
  rw [number.quotient_value] at isLog
  generalize unit_eq :
    Int.log 10 ((number.significand : ℚ) * 2 ^ number.exponent) - count = unit at *
  have isDecimal : number.significantDecimal (count + 1) =
      ⟨roundQuotient (divideByPowerOfTen number.quotient.1 number.quotient.2 unit).1
        (divideByPowerOfTen number.quotient.1 number.quotient.2 unit).2, unit⟩ := by
    have exponent_eq :
        floorLog10 number.quotient.1 number.quotient.2 - (count + 1 : ℕ) + 1 = unit := by omega
    simp only [significantDecimal, nonzero, Bool.false_eq_true, if_false, exponent_eq]
  have unitPositive : (0 : ℚ) < 10 ^ unit := zpow_pos (by norm_num) _
  have rounded := abs_roundQuotient_sub_le
    (divideByPowerOfTen number.quotient.1 number.quotient.2 unit).1
    (divideByPowerOfTen_pos number.quotient.1 unit number.quotient_pos)
  rw [divideByPowerOfTen_value, number.quotient_value] at rounded
  -- the unit of the last digit, as a part of the number
  have small : (10 : ℚ) ^ unit * 10 ^ count ≤ number.significand * 2 ^ number.exponent := by
    rw [← zpow_natCast, ← zpow_add₀ (by norm_num), ← unit_eq, sub_add_cancel]
    exact_mod_cast Int.zpow_log_le_self (by decide : 1 < 10) valuePositive
  generalize number.significand * (2 : ℚ) ^ number.exponent = value at *
  rw [isDecimal, Decimal.value]
  generalize (roundQuotient _ _ : ℚ) = digits at *
  calc |digits * 10 ^ unit - value| * (2 * 10 ^ count)
    _ = |digits - value / 10 ^ unit| * 10 ^ unit * (2 * 10 ^ count) := by
        rw [← abs_of_pos unitPositive, ← abs_mul, abs_of_pos unitPositive, sub_mul,
          div_mul_cancel₀ _ unitPositive.ne']
    _ ≤ 1 / 2 * 10 ^ unit * (2 * 10 ^ count) := by gcongr
    _ = 10 ^ unit * 10 ^ count := by ring
    _ ≤ value := small

/-- The decimal with seventeen significant digits reads back. -/
theorem readsBack_significantDecimal (finite : number.isFinite = true) :
    number.readsBack (number.significantDecimal sufficientDigits) = true := by
  apply readsBack_of_nearest
  apply Decimal.nearest_of_close (canonical_of_isFinite finite) (significand_pos nonzero)
  exact significantDecimal_close nonzero 16

end Nonzero

/-- The shortest decimal of a finite number reads back. -/
theorem readsBack_shortestDecimal {number : Binary64} (finite : number.isFinite = true) :
    number.readsBack number.shortestDecimal = true := by
  cases isZero : number.isZero with
  | true =>
      rw [shortestDecimal, if_pos isZero, readsBack, beq_iff_eq]
      exact (eq_signedZero isZero).symm
  | false =>
      rw [shortestDecimal, if_neg (by simp [isZero])]
      cases search : (List.range sufficientDigits).findSome? fun index =>
          number.decimalOfLength? (index + 1) with
      | none => exact readsBack_significantDecimal isZero finite
      | some decimal =>
          obtain ⟨index, -, found⟩ := List.exists_of_findSome?_eq_some search
          exact readsBack_of_decimalOfLength? found

end Binary64

end WatLink
