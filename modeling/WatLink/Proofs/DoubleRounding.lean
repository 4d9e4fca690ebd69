import WatLink.Proofs.LiteralValues
import WatLink.Proofs.NearestEven
import WatLink.Proofs.NumberLimits

/-!
# Integers in single precision

An integer becomes a number of single precision by way of double precision, and so it is
rounded twice: to fifty-three leading bits and then to twenty-four.  The result is the
number of single precision that is nearest to the integer unless the first rounding moves
the integer to the middle between two numbers of single precision from the side of the odd
one, for the second rounding then goes to the even one.
-/

namespace WatLink

/-! ## Rounding to leading bits -/

/-- The unit of the last bit if so many leading bits of a number are kept. -/
def lastUnit (bits number : Nat) : Nat :=
  2 ^ (number.log2 + 1 - bits)

/-- A number rounded to so many leading bits. -/
def roundBits (bits number : Nat) : Nat :=
  roundQuotient number (lastUnit bits number) * lastUnit bits number

theorem lastUnit_pos (bits number : Nat) : 0 < lastUnit bits number :=
  Nat.two_pow_pos _

theorem roundQuotient_mul_self (count : Nat) {unit : Nat} (positive : 0 < unit) :
    roundQuotient (count * unit) unit = count := by
  simp [roundQuotient, positive]

theorem lastUnit_of_log2_lt {bits number : Nat} (few : number.log2 < bits) :
    lastUnit bits number = 1 := by
  rw [lastUnit, Nat.sub_eq_zero_of_le (by omega), pow_zero]

theorem roundBits_of_log2_lt {bits number : Nat} (few : number.log2 < bits) :
    roundBits bits number = number := by
  have exact := roundQuotient_mul_self number Nat.one_pos
  rw [mul_one] at exact
  rw [roundBits, lastUnit_of_log2_lt few, mul_one, exact]

theorem countOf_natCast (number places : Nat) :
    countOf number 1 places = roundQuotient number (2 ^ places) := by
  rw [countOf, divideByPowerOfTwo, if_neg (by omega), Nat.one_mul, Int.toNat_natCast]
  rfl

theorem countOf_neg (number places : Nat) :
    countOf number 1 (-places) = number * 2 ^ places := by
  apply countOf_eq Nat.one_pos
  rw [Nat.cast_one, div_one, zpow_neg, zpow_natCast, div_inv_eq_mul]
  push_cast
  rw [sub_self, abs_zero]
  norm_num

/-- A format rounds natural numbers to as many leading bits as its significands have. -/
theorem BinaryFormat.nearest_natural {format : BinaryFormat} {bits : Nat}
    (isPrecision : format.precision = bits) (hasBits : 0 < bits)
    (least : format.minExponent ≤ 0) {number significand : Nat} {exponent : Int}
    (rounded : format.nearest number 1 = some (significand, exponent)) :
    (significand : ℚ) * 2 ^ exponent = roundBits bits number := by
  subst isPrecision
  rcases Nat.eq_zero_or_pos number with rfl | positive
  · cases rounded
    rw [roundBits_of_log2_lt (by simpa using hasBits), Nat.cast_zero, zero_mul]
  · rw [nearest_value hasBits positive Nat.one_pos rounded, unitExponent, Nat.cast_one, div_one,
      Int.log_natCast, ← Nat.log2_eq_log_two]
    rcases Nat.lt_or_ge number.log2 format.precision with few | many
    · -- the number is a count of the unit
      generalize isUnit : max format.minExponent ((number.log2 : Int) - (format.precision - 1)) =
        unit
      obtain ⟨places, rfl⟩ : ∃ places : Nat, unit = -places := ⟨(-unit).toNat, by omega⟩
      rw [countOf_neg, roundBits_of_log2_lt few, zpow_neg, zpow_natCast]
      push_cast
      rw [mul_assoc, mul_inv_cancel₀ (by positivity), mul_one]
    · have isUnit : max format.minExponent ((number.log2 : Int) - (format.precision - 1)) =
          (number.log2 + 1 - format.precision : ℕ) := by omega
      rw [isUnit, countOf_natCast, zpow_natCast, roundBits, lastUnit]
      push_cast
      rfl

/-! ## Rounding twice -/

section Twice

variable {unit quotient rest : Nat}

theorem roundQuotient_mul_add (positive : 0 < unit) (atMost : rest ≤ unit) (quotient : Nat) :
    roundQuotient (quotient * unit + rest) unit =
      if 2 * rest < unit then quotient else if unit < 2 * rest then quotient + 1
      else quotient + quotient % 2 := by
  rcases atMost.lt_or_eq with below | rfl
  · rw [roundQuotient, Nat.mul_comm quotient, Nat.mul_add_div positive, Nat.mul_add_mod,
      Nat.div_eq_of_lt below, Nat.mod_eq_of_lt below, Nat.add_zero]
    split_ifs <;> omega
  · rw [← Nat.succ_mul, roundQuotient_mul_self _ positive, if_neg (by omega), if_pos (by omega)]

theorem roundQuotient_even_mul_add (positive : 0 < unit) (even : Even quotient) (rest : Nat) :
    roundQuotient (quotient * unit + rest) unit = quotient + roundQuotient rest unit := by
  have isEven := Nat.even_iff.mp even
  simp only [roundQuotient]
  rw [Nat.mul_comm quotient, Nat.mul_add_div positive, Nat.mul_add_mod]
  split_ifs <;> omega

theorem count_compare (unit count middle : Nat) :
    count + 1 < middle ∧ count * unit + 2 * unit ≤ middle * unit ∨
      count + 1 = middle ∧ count * unit + unit = middle * unit ∨
        count = middle ∧ count * unit = middle * unit ∨
          middle < count ∧ middle * unit + unit ≤ count * unit := by
  rcases Nat.lt_trichotomy (count + 1) middle with below | rfl | above
  · left
    rw [← Nat.add_mul]
    exact ⟨below, Nat.mul_le_mul_right unit below⟩
  · exact .inr (.inl ⟨rfl, (Nat.succ_mul count unit).symm⟩)
  · rcases Nat.eq_or_lt_of_le (Nat.lt_succ_iff.mp above) with rfl | above
    · exact .inr (.inr (.inl ⟨rfl, rfl⟩))
    · refine .inr (.inr (.inr ⟨above, ?_⟩))
      rw [← Nat.succ_mul]
      exact Nat.mul_le_mul_right unit above

/-- A quotient is rounded to an even number exactly if it is not farther than one half
from it. -/
theorem roundQuotient_compare (positive : 0 < unit) {middle : Nat} (even : Even middle)
    (rest : Nat) :
    (roundQuotient rest unit < middle ↔ 2 * rest + unit < 2 * (middle * unit)) ∧
      (middle < roundQuotient rest unit ↔ 2 * (middle * unit) + unit < 2 * rest) := by
  have isEven := Nat.even_iff.mp even
  have whole := Nat.div_add_mod' rest unit
  have below := Nat.mod_lt rest positive
  have compared := count_compare unit (rest / unit) middle
  simp only [roundQuotient]
  generalize rest / unit = count at *
  generalize rest % unit = left at *
  generalize count * unit = counted at *
  generalize middle * unit = half at *
  rcases compared with compared | compared | compared | compared <;> split_ifs <;> omega

/-- A number just beside the middle between two counts of a unit, on the side of the odd
one: not farther from the middle than half of the unit that is finer by twenty-nine bits. -/
def BesideMiddle (unit number : Nat) : Prop :=
  2 * (number % unit) ≠ unit ∧
    2 ^ 29 * |2 * ((number % unit : Nat) : Int) - unit| ≤ unit ∧
      (2 * (number % unit) < unit ↔ Odd (number / unit))

instance (unit number : Nat) : Decidable (BesideMiddle unit number) :=
  inferInstanceAs (Decidable (_ ∧ _ ∧ _))

/-- Rounding to the finer unit first makes a difference for the numbers just beside the
middle, and for no others. -/
theorem roundQuotient_twice (positive : 0 < unit) (number : Nat) :
    roundQuotient (roundQuotient number unit * unit) (2 ^ 29 * unit) =
      roundQuotient number (2 ^ 29 * unit) ↔ ¬ BesideMiddle (2 ^ 29 * unit) number := by
  have positive' : 0 < 2 ^ 29 * unit := Nat.mul_pos (by decide) positive
  have whole := Nat.div_add_mod' number (2 ^ 29 * unit)
  have below := Nat.mod_lt number positive'
  rw [BesideMiddle]
  generalize number / (2 ^ 29 * unit) = quotient at *
  generalize number % (2 ^ 29 * unit) = rest at *
  -- the multiples of the wide unit are left alone by the first rounding
  have first : roundQuotient number unit * unit =
      quotient * (2 ^ 29 * unit) + roundQuotient rest unit * unit := by
    have even : Even (quotient * 2 ^ 29) := (by decide : Even (2 ^ 29)).mul_left quotient
    rw [← whole, ← Nat.mul_assoc, roundQuotient_even_mul_add positive even, Nat.add_mul,
      Nat.mul_assoc]
  obtain ⟨isBelow, isAbove⟩ := roundQuotient_compare positive (by decide : Even (2 ^ 28)) rest
  have atMost : roundQuotient rest unit * unit ≤ 2 ^ 29 * unit := by
    apply Nat.mul_le_mul_right
    have counted := (Nat.div_lt_iff_lt_mul positive).mpr below
    rcases roundQuotient_cases rest unit with ⟨rounded, -⟩ | ⟨rounded, -⟩ <;> omega
  have isBelow' : 2 * (roundQuotient rest unit * unit) < 2 ^ 29 * unit ↔
      roundQuotient rest unit < 2 ^ 28 := by
    have scaled : roundQuotient rest unit * unit < 2 ^ 28 * unit ↔ _ :=
      Nat.mul_lt_mul_right positive
    omega
  have isAbove' : 2 ^ 29 * unit < 2 * (roundQuotient rest unit * unit) ↔
      2 ^ 28 < roundQuotient rest unit := by
    have scaled : 2 ^ 28 * unit < roundQuotient rest unit * unit ↔ _ :=
      Nat.mul_lt_mul_right positive
    omega
  have isClose : 2 ^ 29 * |2 * (rest : Int) - (2 ^ 29 * unit : ℕ)| ≤ (2 ^ 29 * unit : ℕ) ↔
      2 ^ 29 * unit ≤ 2 * rest + unit ∧ 2 * rest ≤ 2 ^ 29 * unit + unit := by
    push_cast
    rw [mul_le_mul_iff_of_pos_left (by decide), abs_le]
    omega
  rw [first, ← whole, roundQuotient_mul_add positive' atMost,
    roundQuotient_mul_add positive' below.le]
  simp only [isBelow', isAbove', isBelow, isAbove, isClose, Nat.odd_iff]
  clear first whole
  split_ifs <;> omega

end Twice

theorem roundQuotient_two_pow {low high : Nat} (ordered : low ≤ high) :
    roundQuotient (2 ^ high) (2 ^ low) * 2 ^ low = 2 ^ high := by
  obtain ⟨gap, rfl⟩ := Nat.le.dest ordered
  rw [pow_add, Nat.mul_comm (2 ^ low), roundQuotient_mul_self _ (Nat.two_pow_pos low)]

section LeadingBits

variable {bits number : Nat}

theorem roundBits_bounds (hasBits : 0 < bits) (positive : 0 < number) :
    2 ^ number.log2 ≤ roundBits bits number ∧
      roundBits bits number ≤ 2 ^ (number.log2 + 1) := by
  have lower := Nat.log2_self_le positive.ne'
  have upper := @Nat.lt_log2_self number
  have unitPositive := lastUnit_pos bits number
  obtain ⟨kept, isLower⟩ : ∃ kept, 2 ^ number.log2 = kept * lastUnit bits number :=
    ⟨_, (roundQuotient_two_pow (by omega)).symm⟩
  have isUpper : 2 ^ (number.log2 + 1) = 2 * kept * lastUnit bits number := by
    rw [pow_succ, isLower]
    ring
  rw [isLower] at lower
  rw [isUpper] at upper
  have atLeast := (Nat.le_div_iff_mul_le unitPositive).mpr lower
  have below := (Nat.div_lt_iff_lt_mul unitPositive).mpr upper
  rw [isLower, isUpper, roundBits]
  constructor <;> apply Nat.mul_le_mul_right <;>
    rcases roundQuotient_cases number (lastUnit bits number) with ⟨rounded, -⟩ | ⟨rounded, -⟩ <;>
    omega

/-- Between the powers of two around a number, its unit serves for rounding to leading
bits. -/
theorem roundBits_eq (hasBits : 0 < bits) {other : Nat} (lower : 2 ^ number.log2 ≤ other)
    (upper : other ≤ 2 ^ (number.log2 + 1)) :
    roundBits bits other =
      roundQuotient other (lastUnit bits number) * lastUnit bits number := by
  rcases upper.lt_or_eq with below | rfl
  · have nonzero : other ≠ 0 := (lt_of_lt_of_le (Nat.two_pow_pos _) lower).ne'
    have sameLog := (Nat.log2_eq_iff nonzero).mpr ⟨lower, below⟩
    rw [roundBits, lastUnit, lastUnit, sameLog]
  · rw [roundBits, lastUnit, lastUnit, Nat.log2_two_pow, roundQuotient_two_pow (by omega),
      roundQuotient_two_pow (by omega)]

/-- Rounding to fifty-three bits first changes what twenty-four bits give only just beside
the middle. -/
theorem roundBits_twice (number : Nat) :
    roundBits 24 (roundBits 53 number) = roundBits 24 number ↔
      ¬ BesideMiddle (lastUnit 24 number) number := by
  rcases Nat.lt_or_ge number.log2 52 with few | many
  · have unitSmall : lastUnit 24 number < 2 ^ 29 :=
      Nat.pow_lt_pow_right (by decide) (by omega)
    rw [roundBits_of_log2_lt (by omega : number.log2 < 53)]
    refine iff_of_true rfl fun beside => ?_
    obtain ⟨notMiddle, close, -⟩ := beside
    have apart : 1 ≤ |2 * ((number % lastUnit 24 number : Nat) : Int) - lastUnit 24 number| :=
      Int.one_le_abs (by omega)
    omega
  · have positive : 0 < number := by
      apply Nat.pos_of_ne_zero
      rintro rfl
      simp at many
    have wide : lastUnit 24 number = 2 ^ 29 * lastUnit 53 number := by
      rw [lastUnit, lastUnit, ← pow_add]
      congr 1
      omega
    obtain ⟨lower, upper⟩ := roundBits_bounds (by decide : 0 < 53) positive
    rw [roundBits_eq (by decide) lower upper, roundBits.eq_def 24 number,
      Nat.mul_left_inj (lastUnit_pos _ _).ne', roundBits, wide]
    exact roundQuotient_twice (lastUnit_pos _ _) number

/-- Just beside the middle, rounding once comes nearer than rounding twice. -/
theorem abs_roundBits_sub_lt (beside : BesideMiddle (lastUnit 24 number) number) :
    |(roundBits 24 number : ℚ) - number| <
      |(roundBits 24 (roundBits 53 number) : ℚ) - number| := by
  have differ : roundBits 24 (roundBits 53 number) ≠ roundBits 24 number := fun same =>
    (roundBits_twice number).mp same beside
  have positive : 0 < number := by
    apply Nat.pos_of_ne_zero
    rintro rfl
    exact differ rfl
  obtain ⟨lower, upper⟩ := roundBits_bounds (by decide : 0 < 53) positive
  have unitPositive : (0 : ℚ) < lastUnit 24 number := by exact_mod_cast lastUnit_pos 24 number
  rw [roundBits_eq (by decide) lower upper] at differ ⊢
  rw [roundBits.eq_def 24 number] at differ ⊢
  have differ' := fun same => differ (congrArg (· * lastUnit 24 number) same)
  have close := abs_roundQuotient_sub_le number (lastUnit_pos 24 number)
  have closer : |(roundQuotient number (lastUnit 24 number) : ℚ) - number / lastUnit 24 number| <
      1 / 2 :=
    lt_of_le_of_ne close fun tie => beside.1 (two_mul_mod_of_tie (lastUnit_pos 24 number) tie)
  push_cast
  rw [abs_mul_sub_eq unitPositive, abs_mul_sub_eq unitPositive]
  exact mul_lt_mul_of_pos_right (closer.trans_le (half_le_abs_sub close differ')) unitPositive

end LeadingBits

/-! ## Integers -/

namespace Binary64

open BinaryFormat

variable {integer : Int}

theorem precision_doubleFormat : doubleFormat.precision = 53 := rfl

theorem precision_singleFormat : singleFormat.precision = 24 := rfl

theorem exists_nearest_single {number : Nat} (small : number ≤ 2 ^ 127) :
    ∃ significand exponent, singleFormat.nearest number 1 = some (significand, exponent) := by
  rcases small.lt_or_eq with below | rfl
  · have bits := log2_lt_of_lt (by decide) below
    have exponent_le := floorLog2_one_le number
    have fits : singleFormat.nearest number 1 ≠ none := by
      refine nearest_ne_none (by decide) ?_
      simp only [singleFormat]
      omega
    obtain ⟨parts, rounded⟩ := Option.ne_none_iff_exists'.mp fits
    exact ⟨parts.1, parts.2, rounded⟩
  · have canonical : singleFormat.Canonical (2 ^ 23) 104 :=
      ⟨by decide, by decide, by decide, .inl le_rfl⟩
    refine ⟨_, _, nearest_of_exact (by decide) canonical Nat.one_pos ?_⟩
    norm_num

theorem roundBits_le (small : integer.natAbs < 2 ^ 127) :
    roundBits 53 integer.natAbs ≤ 2 ^ 127 := by
  rcases Nat.eq_zero_or_pos integer.natAbs with isZero | positive
  · rw [isZero, roundBits_of_log2_lt (by decide)]
    exact Nat.zero_le _
  · have bits := (Nat.log2_lt positive.ne').mpr small
    exact (roundBits_bounds (by decide) positive).2.trans
      (Nat.pow_le_pow_right (by decide) bits)

/-- An integer in single precision is rounded to fifty-three bits and then to the
precision. -/
theorem exists_toSingle_ofInt (small : integer.natAbs < 2 ^ 127) :
    ∃ significand exponent,
      singleFormat.nearest (roundBits 53 integer.natAbs) 1 = some (significand, exponent) ∧
        (ofInt integer).toSingle = ofScaled (decide (integer < 0)) significand exponent := by
  have fits := ofInt?_ne_none (small.trans (by decide))
  simp only [ofInt?, ofQuotient?, ne_eq, Option.map_eq_none_iff] at fits
  obtain ⟨⟨double, unit⟩, rounded⟩ := Option.ne_none_iff_exists'.mp fits
  have canonical := canonical_of_nearest sound_doubleFormat Nat.one_pos rounded
  have isParts : ofInt integer = ofParts (decide (integer < 0)) double unit := by
    rw [ofInt, ofInt?, ofQuotient?, rounded]
    rfl
  have value := quotient_value (ofParts (decide (integer < 0)) double unit)
  rw [significand_ofParts _ canonical, exponent_ofParts _ canonical,
    nearest_natural precision_doubleFormat (by decide) (by decide) rounded,
    ← div_one (Nat.cast (roundBits _ _)), ← Nat.cast_one] at value
  obtain ⟨significand, exponent, single⟩ := exists_nearest_single (roundBits_le small)
  refine ⟨significand, exponent, single, ?_⟩
  rw [isParts, toSingle_of_isFinite (isFinite_ofParts _ canonical), isNegative_ofParts,
    nearest_congr (quotient_pos _) Nat.one_pos value, single]
  rfl

/-- What an integer becomes in single precision: a number of single precision that is
rounded twice, and that is the nearest one unless the integer lies just beside the middle
between two of them. -/
structure TwiceRounded (number : Binary64) (integer : Int) : Prop where
  single : ∃ significand exponent, number.IsSingle significand exponent
  value : number.value =
    (if integer < 0 then -1 else 1) * roundBits 24 (roundBits 53 integer.natAbs)
  nearest : NearestSingle integer number ↔
    ¬ BesideMiddle (lastUnit 24 integer.natAbs) integer.natAbs

theorem twiceRounded_toSingle_ofInt (small : integer.natAbs < 2 ^ 127) :
    (ofInt integer).toSingle.TwiceRounded integer := by
  obtain ⟨significand, exponent, rounded, isScaled⟩ := exists_toSingle_ofInt small
  have canonical := canonical_of_nearest sound_singleFormat Nat.one_pos rounded
  have isSingle := isSingle_ofScaled (decide (integer < 0)) canonical
  have twice : (significand : ℚ) * 2 ^ exponent = roundBits 24 (roundBits 53 integer.natAbs) :=
    nearest_natural precision_singleFormat (by decide) (by decide) rounded
  obtain ⟨significand', exponent', rounded'⟩ := exists_nearest_single small.le
  have canonical' := canonical_of_nearest sound_singleFormat Nat.one_pos rounded'
  have isSingle' := isSingle_ofScaled (decide (integer < 0)) canonical'
  have once : (significand' : ℚ) * 2 ^ exponent' = roundBits 24 integer.natAbs :=
    nearest_natural precision_singleFormat (by decide) (by decide) rounded'
  rw [isScaled]
  refine ⟨⟨_, _, isSingle⟩, ?_, fun nearest beside => ?_, fun notBeside => ?_⟩
  · rw [isSingle.value_eq, isNegative_ofScaled, twice]
    simp only [decide_eq_true_eq]
  · obtain ⟨_, _, -, best⟩ := nearest
    have notNearer := (best _ _ _ isSingle').1
    rw [isSingle.abs_value_sub (isNegative_ofScaled _ _ _),
      isSingle'.abs_value_sub (isNegative_ofScaled _ _ _), twice, once] at notNearer
    exact absurd notNearer (abs_roundBits_sub_lt beside).not_ge
  · have same := (roundBits_twice integer.natAbs).mpr notBeside
    rw [ofScaled_congr _ canonical' (by rw [twice, once, same])]
    exact nearestSingle_ofScaled rounded'

end Binary64

namespace Constant

theorem evaluate_convert_i64 (globals : List Global) {operand : Tree}
    {word : BitVec Width.w64.bits} (evaluates : evaluate globals operand = .ok (.int .w64 word)) :
    evaluate globals (.form "f32.convert_i64_s" [operand]) =
        .ok (.float .single (Binary64.ofInt word.toInt).toSingle) ∧
      evaluate globals (.form "f32.convert_i64_u" [operand]) =
        .ok (.float .single (Binary64.ofInt word.toNat).toSingle) := by
  have all : evalAll (evalGlobal globals globals.length []) [operand] = .ok [.int .w64 word] := by
    rw [evaluate] at evaluates
    simp only [evalAll, evaluates, Except.map]
  constructor
  · change evalAll (evalGlobal globals globals.length []) [operand] >>=
      applyInstruction "f32.convert_i64_s" (.float .single) "convert_i64_s" = _
    rw [all]
    rfl
  · change evalAll (evalGlobal globals globals.length []) [operand] >>=
      applyInstruction "f32.convert_i64_u" (.float .single) "convert_i64_u" = _
    rw [all]
    rfl

theorem evaluate_single_const (globals : List Global) {literal : IntLiteral} {text : String}
    (isText : literal.IsText text) (small : literal.value.natAbs < 2 ^ 127) :
    evaluate globals (.form "f32.const" [.atom text]) =
      if literal.isTooLong then .error (.invalidLiteral (.float .single) text)
      else .ok (.float .single (Binary64.ofInt literal.value).toSingle) := by
  have reads := IntLiteral.ofText?_eq_some_iff.mpr isText
  obtain ⟨number, isNumber⟩ := Option.ne_none_iff_exists'.mp
    (Binary64.ofInt?_ne_none (small.trans (by decide)))
  change Constant.literal (.float .single) text = _
  cases tooLong : literal.isTooLong <;>
    simp [Constant.literal, isIntLiteral, parseInt, reads, tooLong, Binary64.ofInteger,
      Binary64.ofInt, isNumber, Precision.round]

/-- Integers in single precision, converted from words or written as constants, are rounded
to double precision first.  They become the nearest number of single precision, ties going
to the even significand, exactly if they do not lie just beside the middle between two of
them.  A decimal literal beyond the length limit has no value. -/
theorem integers_rounded_twice (globals : List Global) :
    (∀ (operand : Tree) (word : BitVec Width.w64.bits),
        evaluate globals operand = .ok (.int .w64 word) →
          (∃ number, evaluate globals (.form "f32.convert_i64_s" [operand]) =
              .ok (.float .single number) ∧ number.TwiceRounded word.toInt) ∧
            ∃ number, evaluate globals (.form "f32.convert_i64_u" [operand]) =
              .ok (.float .single number) ∧ number.TwiceRounded word.toNat) ∧
      ∀ (literal : IntLiteral) (text : String), literal.IsText text →
        literal.value.natAbs < 2 ^ 127 →
          (literal.isTooLong = true → evaluate globals (.form "f32.const" [.atom text]) =
              .error (.invalidLiteral (.float .single) text)) ∧
            (literal.isTooLong = false →
              ∃ number, evaluate globals (.form "f32.const" [.atom text]) =
                .ok (.float .single number) ∧ number.TwiceRounded literal.value) := by
  refine ⟨fun operand word evaluates => ?_, fun literal text isText small => ?_⟩
  · obtain ⟨signed, unsigned⟩ := evaluate_convert_i64 globals evaluates
    have inWord : word.toNat < 2 ^ 64 := word.isLt
    have below : word.toInt < 2 ^ 63 := word.toInt_lt
    have above : -2 ^ 63 ≤ word.toInt := word.le_toInt
    exact ⟨⟨_, signed, Binary64.twiceRounded_toSingle_ofInt (by omega)⟩,
      ⟨_, unsigned, Binary64.twiceRounded_toSingle_ofInt (by omega)⟩⟩
  · have evaluates := evaluate_single_const globals isText small
    refine ⟨fun tooLong => ?_, fun short => ?_⟩
    · rw [evaluates, if_pos tooLong]
    · rw [if_neg (by simp [short])] at evaluates
      exact ⟨_, evaluates, Binary64.twiceRounded_toSingle_ofInt small⟩

/-- The integer above the middle between two numbers of single precision goes to the lower
one, whose significand is even. -/
theorem integers_rounded_twice_above_middle :
    BesideMiddle (lastUnit 24 9007199791611905) 9007199791611905 ∧
      evaluate [] (.form "i64.const" [.atom "9007199791611905"]) =
        .ok (.int .w64 9007199791611905) ∧
      (∃ number, evaluate []
          (.form "f32.convert_i64_s" [.form "i64.const" [.atom "9007199791611905"]]) =
            .ok (.float .single number) ∧
          number.value = 9007199254740992 ∧ ¬ Binary64.NearestSingle 9007199791611905 number) ∧
      ∃ number, evaluate [] (.form "f32.const" [.atom "9007199791611905"]) =
        .ok (.float .single number) ∧ ¬ Binary64.NearestSingle 9007199791611905 number := by
  obtain ⟨words, literals⟩ := integers_rounded_twice []
  have beside : BesideMiddle (lastUnit 24 9007199791611905) 9007199791611905 := by
    decide +kernel
  have evaluates : evaluate [] (.form "i64.const" [.atom "9007199791611905"]) =
      .ok (.int .w64 9007199791611905) := by rfl
  have isText : (⟨false, .decimal, [9, 0, 0, 7, 1, 9, 9, 7, 9, 1, 6, 1, 1, 9, 0, 5]⟩ :
      IntLiteral).IsText "9007199791611905" :=
    IntLiteral.ofText?_eq_some_iff.mp (by rfl)
  obtain ⟨⟨converted, converts, twice⟩, -⟩ := words _ _ evaluates
  obtain ⟨written, reads, twice'⟩ := (literals _ _ isText (by decide)).2 (by decide)
  have asInteger : (9007199791611905 : BitVec Width.w64.bits).toInt = 9007199791611905 := by rfl
  have rounded : roundBits 24 (roundBits 53 (9007199791611905 : Int).natAbs) =
      9007199254740992 := by
    decide +kernel
  refine ⟨beside, evaluates, ⟨converted, converts, ?_, fun nearest => ?_⟩,
    written, reads, fun nearest => ?_⟩
  · rw [twice.value, asInteger, rounded]
    norm_num
  · exact twice.nearest.mp nearest beside
  · exact twice'.nearest.mp nearest beside

end Constant

end WatLink
