import WatLink.Proofs.BinaryNumbers

/-!
# Nearest numbers with even ties

What a format gives for a quotient is the best that it can give: no number of the
format is nearer to the quotient, and if another one is as near, the significand of the
given one is even.
-/

namespace WatLink

/-! ## Natural numbers nearest to a value -/

theorem abs_mul_sub_eq {unit : ℚ} (positive : 0 < unit) (count value : ℚ) :
    |count * unit - value| = |count - value / unit| * unit := by
  rw [← abs_of_pos positive, ← abs_mul, abs_of_pos positive, sub_mul,
    div_mul_cancel₀ _ positive.ne']

section Counts

variable {numerator denominator count : Nat}

/-- A natural number within one half of a value is nearer to it than any other. -/
theorem half_le_abs_sub {nearby : Nat} {value : ℚ} (close : |(nearby : ℚ) - value| ≤ 1 / 2)
    (differ : count ≠ nearby) : 1 / 2 ≤ |(count : ℚ) - value| := by
  rw [abs_le] at close
  rcases Nat.lt_or_gt_of_ne differ with below | above
  · have step : (count : ℚ) + 1 ≤ nearby := by exact_mod_cast below
    rw [abs_of_nonpos (by linarith)]
    linarith
  · have step : (nearby : ℚ) + 1 ≤ count := by exact_mod_cast above
    rw [abs_of_nonneg (by linarith)]
    linarith

/-- Only a quotient with one half as its fraction is rounded by as much as one half. -/
theorem two_mul_mod_of_tie (positive : 0 < denominator)
    (tie : |(roundQuotient numerator denominator : ℚ) - numerator / denominator| = 1 / 2) :
    2 * (numerator % denominator) = denominator := by
  have positiveCast : (0 : ℚ) < denominator := by exact_mod_cast positive
  have whole : (denominator : ℚ) * (numerator / denominator : ℕ) + (numerator % denominator : ℕ) =
      numerator := by
    exact_mod_cast Nat.div_add_mod numerator denominator
  have remainder : (0 : ℚ) ≤ (numerator % denominator : ℕ) := Nat.cast_nonneg _
  have below : ((numerator % denominator : ℕ) : ℚ) < denominator := by
    exact_mod_cast Nat.mod_lt numerator positive
  have scaled : |(roundQuotient numerator denominator : ℚ) * denominator - numerator| =
      1 / 2 * denominator := by
    rw [abs_mul_sub_eq positiveCast, tie]
  have twice : 2 * ((numerator % denominator : ℕ) : ℚ) = denominator := by
    rcases roundQuotient_cases numerator denominator with ⟨rounded, -⟩ | ⟨rounded, -⟩
    · rw [rounded, abs_of_nonpos (by linarith)] at scaled
      linarith
    · rw [rounded, Nat.cast_add_one, abs_of_nonneg (by linarith)] at scaled
      linarith
  exact_mod_cast twice

theorem even_roundQuotient_of_tie (middle : 2 * (numerator % denominator) = denominator) :
    Even (roundQuotient numerator denominator) := by
  rw [roundQuotient, if_neg middle.not_lt, if_neg middle.not_gt, Nat.even_iff]
  split <;> omega

variable {exponent : Int}

theorem abs_countOf_sub_le_abs_sub (positive : 0 < denominator) (count : Nat) :
    |(countOf numerator denominator exponent : ℚ) - numerator / denominator / 2 ^ exponent| ≤
      |(count : ℚ) - numerator / denominator / 2 ^ exponent| := by
  have close := abs_countOf_sub_le numerator positive exponent
  by_cases same : count = countOf numerator denominator exponent
  · rw [same]
  · exact close.trans (half_le_abs_sub close same)

theorem even_countOf_of_tie (positive : 0 < denominator)
    (differ : count ≠ countOf numerator denominator exponent)
    (tie : |(count : ℚ) - numerator / denominator / 2 ^ exponent| =
      |(countOf numerator denominator exponent : ℚ) - numerator / denominator / 2 ^ exponent|) :
    Even (countOf numerator denominator exponent) := by
  have close := abs_countOf_sub_le numerator positive exponent
  have middle := le_antisymm close ((half_le_abs_sub close differ).trans tie.le)
  rw [← divideByPowerOfTwo_value] at middle
  exact even_roundQuotient_of_tie
    (two_mul_mod_of_tie (divideByPowerOfTwo_pos _ _ positive) middle)

end Counts

/-! ## Numbers of a format nearest to a quotient -/

namespace BinaryFormat

variable {format : BinaryFormat} {numerator denominator significand : Nat} {exponent : Int}

theorem renormalize_value (hasBits : 0 < format.precision) (significand : Nat) (exponent : Int) :
    ((format.renormalize significand exponent).1 : ℚ) *
        2 ^ (format.renormalize significand exponent).2 = significand * 2 ^ exponent := by
  rw [renormalize]
  split
  · rename_i isTop
    rw [isTop, zpow_add_one₀ two_ne_zero]
    push_cast
    rw [← Nat.sub_add_cancel hasBits, pow_succ, Nat.add_sub_cancel]
    ring
  · rfl

theorem roundedParts_of_nearest (positive : 0 < numerator) (positive' : 0 < denominator)
    (rounded : format.nearest numerator denominator = some (significand, exponent)) :
    format.roundedParts numerator denominator = (significand, exponent) := by
  rw [nearest_eq positive positive'] at rounded
  split at rounded
  · cases rounded
  · exact Option.some.inj rounded

/-- A positive quotient is rounded to its count of units. -/
theorem nearest_value (hasBits : 0 < format.precision) (positive : 0 < numerator)
    (positive' : 0 < denominator)
    (rounded : format.nearest numerator denominator = some (significand, exponent)) :
    (significand : ℚ) * 2 ^ exponent =
      countOf numerator denominator (format.unitExponent (numerator / denominator)) *
        2 ^ format.unitExponent (numerator / denominator) := by
  have parts := roundedParts_of_nearest positive positive' rounded
  rw [roundedParts] at parts
  rw [← renormalize_value hasBits (countOf _ _ _), parts]

theorem even_of_even_countOf (twoBits : 1 < format.precision) (positive : 0 < numerator)
    (positive' : 0 < denominator)
    (rounded : format.nearest numerator denominator = some (significand, exponent))
    (even : Even (countOf numerator denominator
      (format.unitExponent (numerator / denominator)))) : Even significand := by
  have parts := roundedParts_of_nearest positive positive' rounded
  simp only [roundedParts, renormalize] at parts
  split at parts
  · cases parts
    exact (Nat.even_pow' (by omega)).mpr even_two
  · cases parts
    exact even

/-- A number of a format is a count of the units of a value, or lies below such a count
that is not above the value. -/
theorem Canonical.count_or_below (hasBits : 0 < format.precision)
    (canonical : format.Canonical significand exponent) {value : ℚ} (positive : 0 < value) :
    (∃ count : Nat,
        (significand : ℚ) * 2 ^ exponent = count * 2 ^ format.unitExponent value) ∨
      ∃ count : Nat,
        (significand : ℚ) * 2 ^ exponent < count * 2 ^ format.unitExponent value ∧
          count * 2 ^ format.unitExponent value ≤ value := by
  rcases le_or_gt (format.unitExponent value) exponent with above | below
  · obtain ⟨shift, rfl⟩ := Int.le.dest above
    refine .inl ⟨significand * 2 ^ shift, ?_⟩
    rw [zpow_add₀ two_ne_zero, zpow_natCast]
    push_cast
    ring
  · -- the unit is not the least one, so that the value is not below half the top
    have notLeast : format.unitExponent value ≠ format.minExponent := by
      have least := canonical.least
      omega
    have atLeast := (unit_bounds format hasBits positive).2.resolve_left notLeast
    rw [le_div_iff₀ (zpow_pos two_pos _)] at atLeast
    refine .inr ⟨2 ^ (format.precision - 1), ?_, by exact_mod_cast atLeast⟩
    have bound : (significand : ℚ) < 2 ^ format.precision := by exact_mod_cast canonical.bound
    calc (significand : ℚ) * 2 ^ exponent
      _ < 2 ^ format.precision * 2 ^ exponent := by gcongr
      _ = (2 ^ (format.precision - 1) : ℕ) * 2 ^ (exponent + 1) := by
          rw [zpow_add_one₀ two_ne_zero]
          push_cast
          nth_rewrite 1 [← Nat.sub_add_cancel hasBits]
          rw [pow_succ]
          ring
      _ ≤ (2 ^ (format.precision - 1) : ℕ) * 2 ^ format.unitExponent value := by
          gcongr
          · exact one_le_two
          · omega

/-- No number of the format is nearer to a quotient than the one it is rounded to, and
one that is as near leaves that one with an even significand. -/
theorem nearest_best (twoBits : 1 < format.precision) (positive : 0 < denominator)
    (rounded : format.nearest numerator denominator = some (significand, exponent))
    {significand' : Nat} {exponent' : Int} (canonical : format.Canonical significand' exponent') :
    |(significand : ℚ) * 2 ^ exponent - numerator / denominator| ≤
        |(significand' : ℚ) * 2 ^ exponent' - numerator / denominator| ∧
      ((significand' : ℚ) * 2 ^ exponent' ≠ significand * 2 ^ exponent →
        |(significand' : ℚ) * 2 ^ exponent' - numerator / denominator| =
          |(significand : ℚ) * 2 ^ exponent - numerator / denominator| → Even significand) := by
  have hasBits : 0 < format.precision := by omega
  rcases Nat.eq_zero_or_pos numerator with rfl | isPositive
  · cases rounded
    refine ⟨?_, fun _ _ => Even.zero⟩
    rw [Nat.cast_zero, zero_mul, zero_div, sub_zero, abs_zero]
    exact abs_nonneg _
  · have unitPositive : (0 : ℚ) < 2 ^ format.unitExponent (numerator / denominator) :=
      zpow_pos two_pos _
    have isEven := even_of_even_countOf twoBits isPositive positive rounded
    rw [nearest_value hasBits isPositive positive rounded]
    rcases canonical.count_or_below hasBits (quotient_pos isPositive positive) with
      ⟨count, counted⟩ | ⟨count, below, atMost⟩
    · rw [counted, abs_mul_sub_eq unitPositive, abs_mul_sub_eq unitPositive,
        mul_le_mul_iff_of_pos_right unitPositive, mul_left_inj' unitPositive.ne']
      refine ⟨abs_countOf_sub_le_abs_sub positive count, fun differ tie => isEven ?_⟩
      refine even_countOf_of_tie positive ?_ tie
      rintro rfl
      exact differ rfl
    · -- the count is nearer than the number, and the rounded one is not farther
      have nearer : |(count : ℚ) * 2 ^ format.unitExponent (numerator / denominator) -
          numerator / denominator| <
            |(significand' : ℚ) * 2 ^ exponent' - numerator / denominator| := by
        rw [abs_of_nonpos (by linarith), abs_of_neg (by linarith)]
        linarith
      have best : |(countOf numerator denominator
            (format.unitExponent (numerator / denominator)) : ℚ) *
              2 ^ format.unitExponent (numerator / denominator) - numerator / denominator| <
            |(significand' : ℚ) * 2 ^ exponent' - numerator / denominator| := by
        refine lt_of_le_of_lt ?_ nearer
        rw [abs_mul_sub_eq unitPositive, abs_mul_sub_eq unitPositive,
          mul_le_mul_iff_of_pos_right unitPositive]
        exact abs_countOf_sub_le_abs_sub positive count
      exact ⟨best.le, fun _ tie => absurd tie best.ne'⟩

end BinaryFormat

/-! ## Single-precision numbers nearest to an integer -/

namespace Binary64

open BinaryFormat

/-- The value of a finite number. -/
def value (number : Binary64) : ℚ :=
  (if number.isNegative then -1 else 1) * (number.significand * 2 ^ number.exponent)

/-- A finite number with the magnitude of a significand and an exponent of single
precision. -/
structure IsSingle (number : Binary64) (significand : Nat) (exponent : Int) : Prop where
  finite : number.isFinite = true
  canonical : singleFormat.Canonical significand exponent
  magnitude : (number.significand : ℚ) * 2 ^ number.exponent = significand * 2 ^ exponent

/-- A number of single precision that is nearest to an integer: no other one is nearer, and
if another one is as near, its significand is even. -/
def NearestSingle (integer : Int) (number : Binary64) : Prop :=
  ∃ significand exponent, number.IsSingle significand exponent ∧
    ∀ other significand' exponent', IsSingle other significand' exponent' →
      |number.value - integer| ≤ |other.value - integer| ∧
        (other.value ≠ number.value → |other.value - integer| = |number.value - integer| →
          Even significand)

section Singles

variable {significand : Nat} {exponent : Int} {integer : Int} {number : Binary64}

theorem isSingle_ofScaled (negative : Bool)
    (canonical : singleFormat.Canonical significand exponent) :
    (ofScaled negative significand exponent).IsSingle significand exponent := by
  obtain ⟨significand', exponent', canonical', same⟩ := exists_double_of_single canonical
  rw [ofScaled_of_exact negative canonical' same.symm]
  refine ⟨isFinite_ofParts _ canonical', canonical, ?_⟩
  rw [significand_ofParts _ canonical', exponent_ofParts _ canonical', same]

theorem isNegative_ofScaled (negative : Bool) (significand : Nat) (exponent : Int) :
    (ofScaled negative significand exponent).isNegative = negative :=
  isNegative_ofQuotient _ _ _

theorem ofScaled_congr (negative : Bool) {significand' : Nat} {exponent' : Int}
    (canonical : singleFormat.Canonical significand exponent)
    (same : (significand' : ℚ) * 2 ^ exponent' = significand * 2 ^ exponent) :
    ofScaled negative significand' exponent' = ofScaled negative significand exponent := by
  obtain ⟨double, unit, canonical', exact⟩ := exists_double_of_single canonical
  rw [ofScaled_of_exact negative canonical' exact.symm,
    ofScaled_of_exact negative canonical' (same.trans exact.symm)]

theorem IsSingle.value_eq (isSingle : number.IsSingle significand exponent) :
    number.value = (if number.isNegative then -1 else 1) * (significand * 2 ^ exponent) := by
  rw [value, isSingle.magnitude]

theorem IsSingle.abs_value (isSingle : number.IsSingle significand exponent) :
    |number.value| = significand * 2 ^ exponent := by
  have nonnegative : (0 : ℚ) ≤ significand * 2 ^ exponent := by positivity
  rw [isSingle.value_eq]
  split
  · rw [neg_one_mul, abs_neg, abs_of_nonneg nonnegative]
  · rw [one_mul, abs_of_nonneg nonnegative]

theorem abs_intCast (integer : Int) : |(integer : ℚ)| = integer.natAbs := by
  rw [Nat.cast_natAbs, Int.cast_abs]

theorem sign_mul_natAbs (integer : Int) :
    (if decide (integer < 0) then -1 else 1) * (integer.natAbs : ℚ) = integer := by
  rw [← abs_intCast]
  split
  · rename_i isNegative
    have below : (integer : ℚ) < 0 := by exact_mod_cast of_decide_eq_true isNegative
    rw [abs_of_neg below, neg_one_mul, neg_neg]
  · rename_i notNegative
    have above : (0 : ℚ) ≤ integer := by
      exact_mod_cast not_lt.mp fun below => notNegative (decide_eq_true below)
    rw [abs_of_nonneg above, one_mul]

/-- A number with the sign of an integer is as far from it as their magnitudes are. -/
theorem IsSingle.abs_value_sub (isSingle : number.IsSingle significand exponent)
    (sameSign : number.isNegative = decide (integer < 0)) :
    |number.value - integer| = |(significand : ℚ) * 2 ^ exponent - integer.natAbs| := by
  rw [isSingle.value_eq, sameSign]
  nth_rewrite 1 [← sign_mul_natAbs integer]
  rw [← mul_sub, abs_mul]
  split <;> simp

theorem IsSingle.abs_sub_le (isSingle : number.IsSingle significand exponent) :
    |(significand : ℚ) * 2 ^ exponent - integer.natAbs| ≤ |number.value - integer| := by
  rw [← isSingle.abs_value, ← abs_intCast]
  exact abs_abs_sub_abs_le _ _

/-- Of a number and its opposite that are equally far from an integer, one is nearest to it
only if both are zero. -/
theorem value_eq_zero_of_opposite
    (rounded : singleFormat.nearest integer.natAbs 1 = some (significand, exponent))
    (isSingle : number.IsSingle significand exponent)
    (tie : |-number.value - integer| = |number.value - integer|) : number.value = 0 := by
  rcases abs_eq_abs.mp tie with same | opposite
  · linarith
  · have isZero : integer = 0 := by
      have castZero : (integer : ℚ) = 0 := by linarith
      exact_mod_cast castZero
    subst isZero
    cases rounded
    rw [← abs_eq_zero, isSingle.abs_value, Nat.cast_zero, zero_mul]

theorem nearestSingle_ofScaled
    (rounded : singleFormat.nearest integer.natAbs 1 = some (significand, exponent)) :
    NearestSingle integer (ofScaled (decide (integer < 0)) significand exponent) := by
  have canonical := canonical_of_nearest sound_singleFormat Nat.one_pos rounded
  have isSingle := isSingle_ofScaled (decide (integer < 0)) canonical
  have distance := isSingle.abs_value_sub (isNegative_ofScaled _ _ _)
  refine ⟨significand, exponent, isSingle, fun other significand' exponent' isSingle' => ?_⟩
  obtain ⟨nearer, isEven⟩ := nearest_best (by decide) Nat.one_pos rounded isSingle'.canonical
  rw [Nat.cast_one, div_one] at nearer isEven
  have distance' := @IsSingle.abs_sub_le _ _ integer _ isSingle'
  refine ⟨distance.trans_le (nearer.trans distance'), fun differ tie => ?_⟩
  -- the magnitudes differ, for opposite numbers are equally far only if both are zero
  refine isEven (fun same => differ ?_)
    (le_antisymm (distance'.trans (tie.trans distance).le) nearer)
  have magnitudes := isSingle'.abs_value.trans (same.trans isSingle.abs_value.symm)
  rcases abs_eq_abs.mp magnitudes with equal | opposite
  · exact equal
  · rw [opposite] at tie
    rw [opposite, value_eq_zero_of_opposite rounded isSingle tie, neg_zero]

end Singles

end Binary64

end WatLink
