import Mathlib
import WatLink.Binary64.Decimal

/-!
# Rounding to the nearest value

The rounding of quotients, stated over the rational numbers.  What a format gives
for a quotient depends on its value alone and has the form of that format, and a
quotient that is nearer to a number of the format than half the way to its
neighbours gives that number.
-/

namespace WatLink

/-! ## Scaling -/

section Scaling

variable {denominator : Nat} (numerator : Nat) (exponent : Int)

theorem divided_value (base : Nat) (nonzero : base ≠ 0) (numerator denominator : Nat)
    (exponent : Int) :
    let divided := if exponent < 0 then (numerator * base ^ (-exponent).toNat, denominator)
      else (numerator, denominator * base ^ exponent.toNat)
    (divided.1 : ℚ) / divided.2 = numerator / denominator / (base : ℚ) ^ exponent := by
  have castNonzero : (base : ℚ) ≠ 0 := by exact_mod_cast nonzero
  dsimp only
  split
  · rename_i negative
    obtain ⟨power, rfl⟩ : ∃ power : ℕ, exponent = -power := ⟨(-exponent).toNat, by omega⟩
    simp only [neg_neg, Int.toNat_natCast, zpow_neg, zpow_natCast, div_inv_eq_mul]
    push_cast
    ring
  · rename_i nonnegative
    obtain ⟨power, rfl⟩ : ∃ power : ℕ, exponent = power := ⟨exponent.toNat, by omega⟩
    simp only [Int.toNat_natCast, zpow_natCast]
    push_cast
    rw [div_div]

theorem divideByPowerOfTwo_value :
    ((divideByPowerOfTwo numerator denominator exponent).1 : ℚ) /
      (divideByPowerOfTwo numerator denominator exponent).2 =
        numerator / denominator / 2 ^ exponent :=
  divided_value 2 (by decide) numerator denominator exponent

theorem divideByPowerOfTen_value :
    ((divideByPowerOfTen numerator denominator exponent).1 : ℚ) /
      (divideByPowerOfTen numerator denominator exponent).2 =
        numerator / denominator / 10 ^ exponent :=
  divided_value 10 (by decide) numerator denominator exponent

theorem divideByPowerOfTwo_pos (positive : 0 < denominator) :
    0 < (divideByPowerOfTwo numerator denominator exponent).2 := by
  unfold divideByPowerOfTwo
  split
  · exact positive
  · exact Nat.mul_pos positive (Nat.pow_pos (by decide))

theorem divideByPowerOfTen_pos (positive : 0 < denominator) :
    0 < (divideByPowerOfTen numerator denominator exponent).2 := by
  unfold divideByPowerOfTen
  split
  · exact positive
  · exact Nat.mul_pos positive (Nat.pow_pos (by decide))

end Scaling

/-! ## Natural numbers nearest to a quotient -/

section RoundQuotient

variable {numerator denominator numerator' denominator' : Nat}

theorem roundQuotient_cases (numerator denominator : Nat) :
    (roundQuotient numerator denominator = numerator / denominator ∧
      2 * (numerator % denominator) ≤ denominator) ∨
    (roundQuotient numerator denominator = numerator / denominator + 1 ∧
      denominator ≤ 2 * (numerator % denominator)) := by
  simp only [roundQuotient]
  split
  · exact .inl ⟨rfl, by omega⟩
  · split
    · exact .inr ⟨rfl, by omega⟩
    · split
      · exact .inl ⟨rfl, by omega⟩
      · exact .inr ⟨rfl, by omega⟩

theorem abs_roundQuotient_sub_le (numerator : Nat) (positive : 0 < denominator) :
    |(roundQuotient numerator denominator : ℚ) - numerator / denominator| ≤ 1 / 2 := by
  have positiveCast : (0 : ℚ) < denominator := by exact_mod_cast positive
  have whole : (denominator : ℚ) * (numerator / denominator : ℕ) + (numerator % denominator : ℕ) =
      numerator := by
    exact_mod_cast Nat.div_add_mod numerator denominator
  have below : ((numerator % denominator : ℕ) : ℚ) < denominator := by
    exact_mod_cast Nat.mod_lt numerator positive
  have remainder : (0 : ℚ) ≤ (numerator % denominator : ℕ) := Nat.cast_nonneg _
  rw [← mul_le_mul_iff_of_pos_right positiveCast, ← abs_of_pos positiveCast, ← abs_mul, sub_mul,
    abs_of_pos positiveCast, div_mul_cancel₀ _ positiveCast.ne', ← whole, abs_le]
  rcases roundQuotient_cases numerator denominator with ⟨rounded, small⟩ | ⟨rounded, large⟩
  · have smallCast : 2 * ((numerator % denominator : ℕ) : ℚ) ≤ denominator := by
      exact_mod_cast small
    rw [rounded]
    constructor <;> linarith
  · have largeCast : (denominator : ℚ) ≤ 2 * (numerator % denominator : ℕ) := by
      exact_mod_cast large
    rw [rounded]
    push_cast
    constructor <;> linarith

/-- A quotient nearer than one half to a natural number is rounded to it. -/
theorem roundQuotient_eq {nearby : Nat} (positive : 0 < denominator)
    (close : |(numerator : ℚ) / denominator - nearby| < 1 / 2) :
    roundQuotient numerator denominator = nearby := by
  have rounded := abs_roundQuotient_sub_le numerator positive
  rw [abs_le] at rounded
  rw [abs_lt] at close
  have above : (roundQuotient numerator denominator : ℚ) < nearby + 1 := by linarith
  have below : (nearby : ℚ) < roundQuotient numerator denominator + 1 := by linarith
  have above : roundQuotient numerator denominator < nearby + 1 := by exact_mod_cast above
  have below : nearby < roundQuotient numerator denominator + 1 := by exact_mod_cast below
  omega

theorem roundQuotient_mul (numerator denominator : Nat) {factor : Nat} (positive : 0 < factor) :
    roundQuotient (numerator * factor) (denominator * factor) =
      roundQuotient numerator denominator := by
  have scaled : ∀ first second : Nat,
      2 * (first * factor) < second * factor ↔ 2 * first < second := by
    intro first second
    rw [← Nat.mul_assoc, Nat.mul_lt_mul_right positive]
  have scaled' : ∀ first second : Nat,
      first * factor < 2 * (second * factor) ↔ first < 2 * second := by
    intro first second
    rw [← Nat.mul_assoc, Nat.mul_lt_mul_right positive]
  simp only [roundQuotient, Nat.mul_div_mul_right _ _ positive, Nat.mul_mod_mul_right, scaled,
    scaled']

theorem roundQuotient_congr (positive : 0 < denominator) (positive' : 0 < denominator')
    (same : (numerator : ℚ) / denominator = numerator' / denominator') :
    roundQuotient numerator denominator = roundQuotient numerator' denominator' := by
  have crossed : numerator * denominator' = numerator' * denominator := by
    rw [div_eq_div_iff (by exact_mod_cast positive.ne') (by exact_mod_cast positive'.ne')] at same
    exact_mod_cast same
  calc roundQuotient numerator denominator
    _ = roundQuotient (numerator * denominator') (denominator * denominator') :=
        (roundQuotient_mul _ _ positive').symm
    _ = roundQuotient (numerator' * denominator) (denominator' * denominator) := by
        rw [crossed, Nat.mul_comm denominator]
    _ = roundQuotient numerator' denominator' := roundQuotient_mul _ _ positive

/-! ## Powers of two below a quotient -/

theorem log_eq_of_bounds {base : Nat} (oneLt : 1 < base) {value : ℚ} {exponent : Int}
    (lower : (base : ℚ) ^ exponent ≤ value) (upper : value < (base : ℚ) ^ (exponent + 1)) :
    Int.log base value = exponent := by
  have positive : 0 < value := lt_of_lt_of_le (zpow_pos (by positivity) _) lower
  have atLeast := (Int.zpow_le_iff_le_log oneLt positive).mp lower
  have below := (Int.lt_zpow_iff_log_lt oneLt positive).mp upper
  omega

theorem floorLog2_eq (positive : 0 < numerator) (positive' : 0 < denominator) :
    floorLog2 numerator denominator = Int.log 2 ((numerator : ℚ) / denominator) := by
  have castPositive : (0 : ℚ) < denominator := by exact_mod_cast positive'
  -- both numbers lie between powers of two, and so does their quotient
  have top : (2 : ℚ) ^ (numerator.log2 : ℤ) ≤ numerator := by
    exact_mod_cast Nat.log2_self_le positive.ne'
  have top' : (numerator : ℚ) < 2 ^ ((numerator.log2 : ℤ) + 1) := by
    exact_mod_cast @Nat.lt_log2_self numerator
  have bottom : (2 : ℚ) ^ (denominator.log2 : ℤ) ≤ denominator := by
    exact_mod_cast Nat.log2_self_le positive'.ne'
  have bottom' : (denominator : ℚ) < 2 ^ ((denominator.log2 : ℤ) + 1) := by
    exact_mod_cast @Nat.lt_log2_self denominator
  generalize estimate_eq : (numerator.log2 : ℤ) - denominator.log2 = estimate
  have above : (2 : ℚ) ^ (estimate - 1) ≤ numerator / denominator := by
    rw [le_div_iff₀ castPositive]
    calc (2 : ℚ) ^ (estimate - 1) * denominator
      _ ≤ 2 ^ (estimate - 1) * 2 ^ ((denominator.log2 : ℤ) + 1) := by gcongr
      _ = 2 ^ (numerator.log2 : ℤ) := by
          rw [← zpow_add₀ two_ne_zero]
          congr 1
          omega
      _ ≤ numerator := top
  have below : (numerator : ℚ) / denominator < 2 ^ (estimate + 1) := by
    rw [div_lt_iff₀ castPositive]
    calc (numerator : ℚ)
      _ < 2 ^ ((numerator.log2 : ℤ) + 1) := top'
      _ = 2 ^ (estimate + 1) * 2 ^ (denominator.log2 : ℤ) := by
          rw [← zpow_add₀ two_ne_zero]
          congr 1
          omega
      _ ≤ 2 ^ (estimate + 1) * denominator := by gcongr
  have compares : (divideByPowerOfTwo numerator denominator estimate).2 ≤
      (divideByPowerOfTwo numerator denominator estimate).1 ↔
        (2 : ℚ) ^ estimate ≤ numerator / denominator := by
    have dividedPositive : (0 : ℚ) < (divideByPowerOfTwo numerator denominator estimate).2 := by
      exact_mod_cast divideByPowerOfTwo_pos numerator estimate positive'
    rw [← @Nat.cast_le ℚ, ← one_le_div₀ dividedPositive, divideByPowerOfTwo_value,
      one_le_div₀ (zpow_pos two_pos _)]
  rw [eq_comm, floorLog2]
  simp only [estimate_eq]
  split
  · rename_i isEnough
    exact log_eq_of_bounds one_lt_two (compares.mp isEnough) below
  · rename_i tooMuch
    refine log_eq_of_bounds one_lt_two above ?_
    rw [sub_add_cancel]
    exact not_le.mp (fun isEnough => tooMuch (compares.mpr isEnough))

/-! ## Counting powers of two -/

/-- The number of powers of two that is nearest to a quotient. -/
def countOf (numerator denominator : Nat) (exponent : Int) : Nat :=
  roundQuotient (divideByPowerOfTwo numerator denominator exponent).1
    (divideByPowerOfTwo numerator denominator exponent).2

theorem abs_countOf_sub_le (numerator : Nat) (positive : 0 < denominator) (exponent : Int) :
    |(countOf numerator denominator exponent : ℚ) - numerator / denominator / 2 ^ exponent| ≤
      1 / 2 := by
  rw [← divideByPowerOfTwo_value]
  exact abs_roundQuotient_sub_le _ (divideByPowerOfTwo_pos _ _ positive)

theorem countOf_eq (positive : 0 < denominator) {exponent : Int} {count : Nat}
    (close : |(numerator : ℚ) / denominator / 2 ^ exponent - count| < 1 / 2) :
    countOf numerator denominator exponent = count := by
  rw [← divideByPowerOfTwo_value] at close
  exact roundQuotient_eq (divideByPowerOfTwo_pos _ _ positive) close

theorem countOf_congr (positive : 0 < denominator) (positive' : 0 < denominator')
    (same : (numerator : ℚ) / denominator = numerator' / denominator') (exponent : Int) :
    countOf numerator denominator exponent = countOf numerator' denominator' exponent := by
  apply roundQuotient_congr (divideByPowerOfTwo_pos _ _ positive)
    (divideByPowerOfTwo_pos _ _ positive')
  rw [divideByPowerOfTwo_value, divideByPowerOfTwo_value, same]

end RoundQuotient

/-! ## Numbers of a format -/

namespace BinaryFormat

variable {format : BinaryFormat}

/-- A format that holds numbers at all. -/
structure Sound (format : BinaryFormat) : Prop where
  precision : 0 < format.precision
  exponents : format.minExponent ≤ format.maxExponent

theorem sound_doubleFormat : doubleFormat.Sound := ⟨by decide, by decide⟩

theorem sound_singleFormat : singleFormat.Sound := ⟨by decide, by decide⟩

/-- A significand and an exponent in the form of a format. -/
structure Canonical (format : BinaryFormat) (significand : Nat) (exponent : Int) : Prop where
  bound : significand < 2 ^ format.precision
  least : format.minExponent ≤ exponent
  greatest : exponent ≤ format.maxExponent
  normal : 2 ^ (format.precision - 1) ≤ significand ∨ exponent = format.minExponent

/-- The exponent of the unit that a value is counted in. -/
def unitExponent (format : BinaryFormat) (value : ℚ) : Int :=
  max format.minExponent (Int.log 2 value - (format.precision - 1))

/-- A significand that was rounded up to the next power of two is written with the
next exponent. -/
def renormalize (format : BinaryFormat) (significand : Nat) (exponent : Int) : Nat × Int :=
  if significand = 2 ^ format.precision then (2 ^ (format.precision - 1), exponent + 1)
  else (significand, exponent)

/-- The parts that a positive quotient is rounded to. -/
def roundedParts (format : BinaryFormat) (numerator denominator : Nat) : Nat × Int :=
  let exponent := format.unitExponent (numerator / denominator)
  format.renormalize (countOf numerator denominator exponent) exponent

theorem nearest_eq {numerator denominator : Nat} (positive : 0 < numerator)
    (positive' : 0 < denominator) :
    format.nearest numerator denominator =
      if format.maxExponent < (format.roundedParts numerator denominator).2 then none
      else some (format.roundedParts numerator denominator) := by
  rw [nearest, if_neg positive.ne', floorLog2_eq positive positive']
  rfl

theorem nearest_zero (denominator : Nat) :
    format.nearest 0 denominator = some (0, format.minExponent) :=
  rfl

section Nearest

variable {numerator denominator numerator' denominator' : Nat}

theorem roundedParts_congr (positive : 0 < denominator) (positive' : 0 < denominator')
    (same : (numerator : ℚ) / denominator = numerator' / denominator') :
    format.roundedParts numerator denominator = format.roundedParts numerator' denominator' := by
  rw [roundedParts, roundedParts, same, countOf_congr positive positive' same]

/-- What a quotient is rounded to depends on its value alone. -/
theorem nearest_congr (positive : 0 < denominator) (positive' : 0 < denominator')
    (same : (numerator : ℚ) / denominator = numerator' / denominator') :
    format.nearest numerator denominator = format.nearest numerator' denominator' := by
  have castPositive : (denominator : ℚ) ≠ 0 := by exact_mod_cast positive.ne'
  have castPositive' : (denominator' : ℚ) ≠ 0 := by exact_mod_cast positive'.ne'
  have zeroTogether : numerator = 0 ↔ numerator' = 0 := by
    have both : (numerator : ℚ) / denominator = 0 ↔ (numerator' : ℚ) / denominator' = 0 := by
      rw [same]
    simpa [castPositive, castPositive'] using both
  rcases Nat.eq_zero_or_pos numerator with isZero | isPositive
  · rw [isZero, zeroTogether.mp isZero, nearest_zero, nearest_zero]
  · have isPositive' : 0 < numerator' := by omega
    rw [nearest_eq isPositive positive, nearest_eq isPositive' positive',
      roundedParts_congr positive positive' same]

/-- In its unit a value is below the power of two for the bits of a significand,
and not below half of it unless the unit is the least one. -/
theorem unit_bounds (format : BinaryFormat) (hasBits : 0 < format.precision) {value : ℚ}
    (positive : 0 < value) :
    value / 2 ^ format.unitExponent value < 2 ^ format.precision ∧
      (format.unitExponent value = format.minExponent ∨
        2 ^ (format.precision - 1) ≤ value / 2 ^ format.unitExponent value) := by
  have lower : (2 : ℚ) ^ Int.log 2 value ≤ value := Int.zpow_log_le_self one_lt_two positive
  have upper : value < (2 : ℚ) ^ (Int.log 2 value + 1) := Int.lt_zpow_succ_log_self one_lt_two value
  have unitPositive : (0 : ℚ) < 2 ^ format.unitExponent value := zpow_pos two_pos _
  rw [div_lt_iff₀ unitPositive, le_div_iff₀ unitPositive, ← zpow_natCast, ← zpow_natCast,
    ← zpow_add₀ two_ne_zero, ← zpow_add₀ two_ne_zero, unitExponent]
  constructor
  · refine upper.trans_le (zpow_le_zpow_right₀ one_le_two ?_)
    omega
  · rcases le_total format.minExponent (Int.log 2 value - (format.precision - 1)) with
      isAbove | isBelow
    · right
      refine le_trans (zpow_le_zpow_right₀ one_le_two ?_) lower
      rw [max_eq_right isAbove]
      omega
    · exact .inl (max_eq_left isBelow)

theorem quotient_pos (positive : 0 < numerator) (positive' : 0 < denominator) :
    (0 : ℚ) < numerator / denominator :=
  div_pos (by exact_mod_cast positive) (by exact_mod_cast positive')

/-- The significand that a quotient is rounded to in its unit. -/
theorem countOf_bounds (hasBits : 0 < format.precision) (positive : 0 < numerator)
    (positive' : 0 < denominator) {exponent : Int}
    (isUnit : format.unitExponent (numerator / denominator) = exponent) :
    countOf numerator denominator exponent ≤ 2 ^ format.precision ∧
      (2 ^ (format.precision - 1) ≤ countOf numerator denominator exponent ∨
        exponent = format.minExponent) := by
  have counted := abs_le.mp (abs_countOf_sub_le numerator positive' exponent)
  obtain ⟨below, above⟩ := unit_bounds format hasBits (quotient_pos positive positive')
  rw [isUnit] at below above
  constructor
  · have upper : (countOf numerator denominator exponent : ℚ) < (2 ^ format.precision : ℕ) + 1 := by
      push_cast
      linarith
    exact Nat.lt_succ_iff.mp (by exact_mod_cast upper)
  · rcases above with isLeast | above
    · exact .inr isLeast
    · have lower : ((2 ^ (format.precision - 1) : ℕ) : ℚ) <
          countOf numerator denominator exponent + 1 := by
        push_cast
        linarith
      exact .inl (Nat.lt_succ_iff.mp (by exact_mod_cast lower))

theorem canonical_of_nearest (sound : format.Sound) (positive : 0 < denominator)
    {significand : Nat} {exponent : Int}
    (rounded : format.nearest numerator denominator = some (significand, exponent)) :
    format.Canonical significand exponent := by
  rcases Nat.eq_zero_or_pos numerator with rfl | isPositive
  · cases rounded
    exact ⟨Nat.two_pow_pos _, le_rfl, sound.exponents, .inr rfl⟩
  · rw [nearest_eq isPositive positive] at rounded
    split at rounded
    · cases rounded
    · rename_i inRange
      rw [Option.some.injEq] at rounded
      rw [rounded] at inRange
      obtain ⟨atMost, normal⟩ := countOf_bounds sound.precision isPositive positive rfl
      have least : format.minExponent ≤ format.unitExponent (numerator / denominator) :=
        le_max_left _ _
      simp only [roundedParts, renormalize] at rounded
      split at rounded
      · cases rounded
        refine ⟨Nat.pow_lt_pow_right (by decide) ?_, by omega, not_lt.mp inRange, .inl le_rfl⟩
        have hasBits := sound.precision
        omega
      · rename_i notTop
        cases rounded
        exact ⟨lt_of_le_of_ne atMost notTop, least, not_lt.mp inRange, normal⟩

theorem nearest_of_count {significand : Nat} {exponent unit : Int} (positive : 0 < numerator)
    (positive' : 0 < denominator) (canonical : format.Canonical significand exponent)
    (isUnit : format.unitExponent (numerator / denominator) = unit)
    (counted : format.renormalize (countOf numerator denominator unit) unit =
      (significand, exponent)) :
    format.nearest numerator denominator = some (significand, exponent) := by
  have parts : format.roundedParts numerator denominator = (significand, exponent) := by
    simp only [roundedParts, isUnit, counted]
  rw [nearest_eq positive positive', parts, if_neg (not_lt.mpr canonical.greatest)]

theorem unitExponent_eq {value : ℚ} {exponent : Int} (hasBits : 0 < format.precision)
    (positive : 0 < value) (below : value / 2 ^ exponent < 2 ^ format.precision)
    (least : format.minExponent ≤ exponent)
    (above : exponent ≠ format.minExponent → 2 ^ (format.precision - 1) ≤ value / 2 ^ exponent) :
    format.unitExponent value = exponent := by
  have unitPositive : (0 : ℚ) < 2 ^ exponent := zpow_pos two_pos _
  rw [div_lt_iff₀ unitPositive, ← zpow_natCast, ← zpow_add₀ two_ne_zero] at below
  rw [le_div_iff₀ unitPositive, ← zpow_natCast, ← zpow_add₀ two_ne_zero] at above
  have logBelow : Int.log 2 value < format.precision + exponent :=
    (Int.lt_zpow_iff_log_lt one_lt_two positive).mp below
  rw [unitExponent]
  by_cases isLeast : exponent = format.minExponent
  · omega
  · have logAbove : ((format.precision - 1 : ℕ) : ℤ) + exponent ≤ Int.log 2 value :=
      (Int.zpow_le_iff_le_log one_lt_two positive).mp (above isLeast)
    omega

/-- A value just below a power of two is counted in the next smaller unit and rounded
up to the power. -/
theorem nearest_of_below_power {exponent : Int} (hasBits : 0 < format.precision)
    (canonical : format.Canonical (2 ^ (format.precision - 1)) exponent)
    (notLeast : exponent ≠ format.minExponent) (positive : 0 < numerator)
    (positive' : 0 < denominator)
    (below : (numerator : ℚ) / denominator / 2 ^ exponent < 2 ^ (format.precision - 1))
    (above : (2 : ℚ) ^ (format.precision - 1) - 1 / 4 < numerator / denominator / 2 ^ exponent) :
    format.nearest numerator denominator = some (2 ^ (format.precision - 1), exponent) := by
  have twice : (2 : ℚ) ^ format.precision = 2 * 2 ^ (format.precision - 1) := by
    rw [← pow_succ', Nat.sub_add_cancel hasBits]
  have atLeastOne : (1 : ℚ) ≤ 2 ^ (format.precision - 1) := one_le_pow₀ one_le_two
  have halfUnit : (numerator : ℚ) / denominator / 2 ^ (exponent - 1) =
      2 * (numerator / denominator / 2 ^ exponent) := by
    rw [zpow_sub_one₀ two_ne_zero]
    field_simp
  have isUnit : format.unitExponent (numerator / denominator) = exponent - 1 := by
    have least := canonical.least
    apply unitExponent_eq hasBits (quotient_pos positive positive')
    · rw [halfUnit, twice]
      linarith
    · omega
    · intro _
      rw [halfUnit]
      linarith
  have counted : countOf numerator denominator (exponent - 1) = 2 ^ format.precision := by
    apply countOf_eq positive'
    rw [halfUnit, abs_lt]
    push_cast
    constructor <;> linarith
  apply nearest_of_count positive positive' canonical isUnit
  rw [counted, renormalize, if_pos rfl, sub_add_cancel]

/-- A value that is nearer to a number of the format than half the way to its
neighbours is rounded to it.  The lower neighbour of a power of two is only half as
far away as the upper one. -/
theorem nearest_of_close {significand : Nat} {exponent : Int} (hasBits : 0 < format.precision)
    (canonical : format.Canonical significand exponent) (nonzero : 0 < significand)
    (positive : 0 < denominator)
    (close : |(numerator : ℚ) / denominator / 2 ^ exponent - significand| < 1 / 2)
    (above : significand = 2 ^ (format.precision - 1) → exponent ≠ format.minExponent →
      (significand : ℚ) - 1 / 4 < numerator / denominator / 2 ^ exponent) :
    format.nearest numerator denominator = some (significand, exponent) := by
  obtain ⟨closeBelow, closeAbove⟩ := abs_lt.mp close
  have unitPositive : (0 : ℚ) < 2 ^ exponent := zpow_pos two_pos _
  have castNonzero : (1 : ℚ) ≤ significand := by exact_mod_cast nonzero
  have bound : (significand : ℚ) + 1 ≤ 2 ^ format.precision := by exact_mod_cast canonical.bound
  have valuePositive : (0 : ℚ) < numerator / denominator := by
    have inUnits : (0 : ℚ) < numerator / denominator / 2 ^ exponent := by linarith
    exact (div_pos_iff_of_pos_right unitPositive).mp inUnits
  have isPositive : 0 < numerator := by
    apply Nat.pos_of_ne_zero
    rintro rfl
    simp at valuePositive
  by_cases inUnit : exponent ≠ format.minExponent →
      2 ^ (format.precision - 1) ≤ (numerator : ℚ) / denominator / 2 ^ exponent
  · -- the value is counted in the unit of the number
    have isUnit := unitExponent_eq hasBits valuePositive (by linarith) canonical.least inUnit
    apply nearest_of_count isPositive positive canonical isUnit
    rw [countOf_eq positive close, renormalize, if_neg canonical.bound.ne]
  · rw [Classical.not_imp, not_le] at inUnit
    obtain ⟨notLeast, belowPower⟩ := inUnit
    have normal := canonical.normal.resolve_right notLeast
    have isPower : significand = 2 ^ (format.precision - 1) := by
      have upper : (significand : ℚ) < (2 ^ (format.precision - 1) : ℕ) + 1 := by
        push_cast
        linarith
      have upper : significand < 2 ^ (format.precision - 1) + 1 := by exact_mod_cast upper
      omega
    have aboveQuarter := above isPower notLeast
    subst isPower
    push_cast at aboveQuarter
    exact nearest_of_below_power hasBits canonical notLeast isPositive positive belowPower aboveQuarter

/-- A number of the format is rounded to itself. -/
theorem nearest_of_exact {significand : Nat} {exponent : Int} (hasBits : 0 < format.precision)
    (canonical : format.Canonical significand exponent) (positive : 0 < denominator)
    (exact : (numerator : ℚ) / denominator = significand * 2 ^ exponent) :
    format.nearest numerator denominator = some (significand, exponent) := by
  have unitPositive : (0 : ℚ) < 2 ^ exponent := zpow_pos two_pos _
  have inUnits : (numerator : ℚ) / denominator / 2 ^ exponent = significand := by
    rw [exact, mul_div_assoc, div_self unitPositive.ne', mul_one]
  rcases Nat.eq_zero_or_pos significand with rfl | nonzero
  · have isLeast : exponent = format.minExponent := by
      rcases canonical.normal with isAbove | isLeast
      · exact absurd isAbove (not_le.mpr (Nat.two_pow_pos _))
      · exact isLeast
    have isZero : numerator = 0 := by
      have castPositive : (denominator : ℚ) ≠ 0 := by exact_mod_cast positive.ne'
      simpa [castPositive] using exact
    rw [isZero, nearest_zero, isLeast]
  · refine nearest_of_close hasBits canonical nonzero positive ?_ fun _ _ => ?_
    · rw [inUnits, sub_self, abs_zero]
      norm_num
    · rw [inUnits]
      linarith

end Nearest

end BinaryFormat

end WatLink
