import WatLink.Proofs.WordArithmetic

/-!
# Formulas on integers of any size

The operators on integers can be computed without words: by a formula on the unsigned
numbers of the operands, whose result may be negative or too large and is cut down to
the width behind.  Quotients and remainders are those of absolute values with a sign
put to them, rotations are shifts that overlap, and bits are counted by the length of
a number.  The operators on words give the same.
-/

namespace WatLink

/-- The signed reading of the low bits of an integer. -/
def maskedSigned (bits : Nat) (integer : Int) : Int :=
  if (integer % 2 ^ bits) >>> (bits - 1) ≠ 0 then integer % 2 ^ bits - 2 ^ bits
  else integer % 2 ^ bits

/-- The formula of an operator on two unsigned numbers. -/
def IntBinary.formula (operator : IntBinary) (bits first second : Nat) : Int :=
  let signedFirst := maskedSigned bits first
  let signedSecond := maskedSigned bits second
  let count := second % bits
  match operator with
  | .add => first + second
  | .sub => first - second
  | .mul => first * second
  | .divS =>
      let quotient := signedFirst.natAbs / signedSecond.natAbs
      if (signedFirst < 0) ≠ (signedSecond < 0) then -quotient else quotient
  | .divU => first / second
  | .remS =>
      let remainder := signedFirst.natAbs % signedSecond.natAbs
      if signedFirst < 0 then -remainder else remainder
  | .remU => first % second
  | .and => (first &&& second : Nat)
  | .or => (first ||| second : Nat)
  | .xor => (first ^^^ second : Nat)
  | .shl => (first <<< count : Nat)
  | .shrS => signedFirst >>> count
  | .shrU => (first >>> count : Nat)
  | .rotl => (first <<< count ||| first >>> (bits - count) : Nat)
  | .rotr => (first >>> count ||| first <<< (bits - count) : Nat)

/-- The formula of an operator on an unsigned number. -/
def IntUnary.formula (operator : IntUnary) (bits number : Nat) : Int :=
  match operator with
  | .clz => bits - number.size
  | .ctz => if number = 0 then bits else ((number : Int).land (-number)).toNat.size - 1
  | .popcnt => (number.bits.count true : Nat)

/-! ## Signs -/

theorem maskedSigned_eq {bits number : Nat} (bound : number < 2 ^ bits) :
    maskedSigned bits number = signedReading bits number := by
  have low : (number : Int) % 2 ^ bits = number := by
    exact_mod_cast congrArg Nat.cast (Nat.mod_eq_of_lt bound)
  have shifted : (number : Int) >>> (bits - 1) = (number / 2 ^ (bits - 1) : Nat) := by
    rw [Int.shiftRight_eq_div_pow]
    push_cast
    rfl
  have isSmall : number / 2 ^ (bits - 1) = 0 ↔ number < 2 ^ (bits - 1) :=
    Nat.div_eq_zero_iff_lt (Nat.two_pow_pos _)
  rw [maskedSigned, signedReading, low, shifted]
  by_cases small : number < 2 ^ (bits - 1)
  · simp [isSmall.mpr small, small]
  · rw [if_neg small, if_pos (by exact_mod_cast isSmall.not.mpr small)]

theorem tdiv_eq_natAbs (dividend divisor : Int) :
    dividend.tdiv divisor =
      if (dividend < 0) ≠ (divisor < 0) then -((dividend.natAbs / divisor.natAbs : Nat) : Int)
      else (dividend.natAbs / divisor.natAbs : Nat) := by
  cases dividend with
  | ofNat m =>
      have notNegative (n : Nat) : ¬ Int.ofNat n < 0 := (Int.natCast_nonneg n).not_gt
      cases divisor with
      | ofNat n =>
          rw [if_neg (by simp only [notNegative, ne_eq, not_true, not_false_iff])]
          rfl
      | negSucc n => simp [Int.tdiv, Int.negSucc_lt_zero]
  | negSucc m => cases divisor <;> simp [Int.tdiv, Int.negSucc_lt_zero]

theorem tmod_eq_natAbs (dividend divisor : Int) :
    dividend.tmod divisor =
      if dividend < 0 then -((dividend.natAbs % divisor.natAbs : Nat) : Int)
      else (dividend.natAbs % divisor.natAbs : Nat) := by
  cases dividend with
  | ofNat m => cases divisor <;> simp [Int.tmod]
  | negSucc m => cases divisor <;> simp [Int.tmod, Int.negSucc_lt_zero]

/-! ## Operators on two numbers -/

theorem residue_natCast (bits number : Nat) : residue bits number = number % 2 ^ bits := by
  rw [residue]
  exact_mod_cast Int.toNat_natCast _

theorem residue_of_lt {bits number : Nat} (bound : number < 2 ^ bits) :
    residue bits number = number := by
  rw [residue_natCast, Nat.mod_eq_of_lt bound]

theorem residue_rotation {bits number count : Nat} (bound : number < 2 ^ bits)
    (within : count ≤ bits) :
    residue bits (number <<< count ||| number >>> (bits - count) : Nat) =
      number * 2 ^ count % 2 ^ bits + number / 2 ^ (bits - count) := by
  have short : number >>> (bits - count) < 2 ^ bits := by
    rw [Nat.shiftRight_eq_div_pow]
    exact (Nat.div_le_self _ _).trans_lt bound
  rw [residue_natCast, Nat.or_mod_two_pow, Nat.mod_eq_of_lt short]
  exact shiftLeft_or_shiftRight count number bound within

theorem IntBinary.result_eq_formula (operator : IntBinary) {bits first second : Nat}
    (positive : 0 < bits) (firstBound : first < 2 ^ bits) (secondBound : second < 2 ^ bits) :
    operator.result bits first second = residue bits (operator.formula bits first second) := by
  have within : second % bits ≤ bits := (Nat.mod_lt _ positive).le
  have signedFirst := maskedSigned_eq firstBound
  have signedSecond := maskedSigned_eq secondBound
  cases operator with
  | add => exact (residue_natCast bits (first + second)).symm
  | sub =>
      have raised : ((first + 2 ^ bits - second : Nat) : Int) = first - second + 2 ^ bits := by
        push_cast [Nat.cast_sub (by omega : second ≤ first + 2 ^ bits)]
        ring
      simp only [result, formula]
      rw [← residue_natCast, raised, residue, Int.add_emod_right, residue]
  | mul => exact (residue_natCast bits (first * second)).symm
  | divS =>
      simp only [result, formula, signedFirst, signedSecond]
      rw [tdiv_eq_natAbs]
  | divU => exact (residue_of_lt ((Nat.div_le_self _ _).trans_lt firstBound)).symm
  | remS =>
      simp only [result, formula, signedFirst, signedSecond]
      rw [tmod_eq_natAbs]
  | remU => exact (residue_of_lt ((Nat.mod_le _ _).trans_lt firstBound)).symm
  | and => exact (residue_of_lt (Nat.and_lt_two_pow _ secondBound)).symm
  | or => exact (residue_of_lt (Nat.or_lt_two_pow firstBound secondBound)).symm
  | xor => exact (residue_of_lt (Nat.xor_lt_two_pow firstBound secondBound)).symm
  | shl =>
      simp only [result, formula]
      rw [residue_natCast, Nat.shiftLeft_eq]
  | shrS =>
      simp only [result, formula, signedFirst]
      rw [Int.shiftRight_eq_div_pow]
      push_cast
      rfl
  | shrU =>
      simp only [result, formula]
      rw [Nat.shiftRight_eq_div_pow, residue_of_lt ((Nat.div_le_self _ _).trans_lt firstBound)]
  | rotl => exact (residue_rotation firstBound within).symm
  | rotr =>
      have back : bits - (bits - second % bits) = second % bits := by omega
      have rotated := residue_rotation firstBound (Nat.sub_le bits (second % bits))
      rw [back] at rotated
      simp only [result, formula]
      rw [Nat.or_comm, rotated, Nat.add_comm]

/-- An operator on words computes its formula and keeps the low bits, behind the tests
for a zero divisor and for a quotient that is too large. -/
theorem IntBinary.apply_eq_formula {bits : Nat} (operator : IntBinary) (first second : BitVec bits)
    (positive : 0 < bits) :
    (operator.apply first second).map BitVec.toNat =
      if operator ∈ [.divS, .divU, .remS, .remU] ∧ second.toNat = 0 then .error .divideByZero
      else if operator = .divS ∧ maskedSigned bits first.toNat = -2 ^ (bits - 1) ∧
          maskedSigned bits second.toNat = -1 then .error .overflow
      else .ok (residue bits (operator.formula bits first.toNat second.toNat)) := by
  rw [operator.apply_toNat first second positive, compute, maskedSigned_eq first.isLt,
    maskedSigned_eq second.isLt, operator.result_eq_formula positive first.isLt second.isLt]

/-! ## Operators on one number -/

theorem IntUnary.result_clz {bits : Nat} (word : BitVec bits) (positive : 0 < bits) :
    (clz.result bits word.toNat : Int) = bits - word.toNat.size := by
  have short := toNat_clz_le word
  have upper : word.toNat.size ≤ bits - word.clz.toNat :=
    Nat.size_le.mpr BitVec.toNat_lt_two_pow_sub_clz
  rw [← toNat_clz word positive]
  by_cases isZero : word = BitVec.ofNat bits 0
  · have all : word.clz.toNat = bits := by
      rw [BitVec.clz_eq_iff_eq_zero.mpr isZero]
      exact Nat.mod_eq_of_lt Nat.lt_two_pow_self
    have noSize : word.toNat.size = 0 := by simp [isZero]
    omega
  · have lower := Nat.lt_size.mpr (BitVec.two_pow_sub_clz_le_toNat_of_ne_zero positive isZero)
    omega

theorem testBit_two_pow_mul_odd (count rest index : Nat) :
    (2 ^ count * (2 * rest + 1)).testBit index =
      if index < count then false else (2 * rest + 1).testBit (index - count) := by
  have split := Nat.testBit_two_pow_mul_add (2 * rest + 1) (Nat.two_pow_pos count) index
  rwa [Nat.add_zero, Nat.zero_testBit] at split

/-- The lowest bit that is set, alone. -/
theorem land_neg_eq (count rest : Nat) :
    ((2 ^ count * (2 * rest + 1) : Nat) : Int).land (-(2 ^ count * (2 * rest + 1) : Nat)) =
      (2 ^ count : Nat) := by
  have less : 2 ^ count * (2 * rest + 1) = 2 ^ count * (2 * rest) + (2 ^ count - 1) + 1 := by
    have positive := Nat.two_pow_pos count
    rw [Nat.mul_add, Nat.mul_one]
    omega
  have isNegative : -((2 ^ count * (2 * rest + 1) : Nat) : Int) =
      Int.negSucc (2 ^ count * (2 * rest) + (2 ^ count - 1)) := by
    rw [less]
    rfl
  rw [isNegative]
  refine congrArg Int.ofNat (Nat.eq_of_testBit_eq fun index => ?_)
  have below : 2 ^ count - 1 < 2 ^ count := Nat.sub_one_lt (Nat.two_pow_pos count).ne'
  rw [Nat.testBit_ldiff, testBit_two_pow_mul_odd,
    Nat.testBit_two_pow_mul_add (2 * rest) below index, Nat.testBit_two_pow]
  by_cases isLow : index < count
  · simp [isLow, isLow.ne']
  · rw [if_neg isLow, if_neg isLow]
    cases behind : index - count with
    | zero =>
        obtain rfl : count = index := by omega
        simp [Nat.testBit_zero]
    | succ next =>
        have differs : count ≠ index := by omega
        have halved : (2 * rest + 1) / 2 = 2 * rest / 2 := by omega
        simp [Nat.testBit_succ, halved, differs]

theorem IntUnary.result_ctz {bits : Nat} (word : BitVec bits) (nonzero : word.toNat ≠ 0) :
    (ctz.result bits word.toNat : Int) =
      ((word.toNat : Int).land (-word.toNat)).toNat.size - 1 := by
  obtain ⟨count, odd, ⟨rest, rfl⟩, number_eq⟩ := Nat.exists_eq_two_pow_mul_odd nonzero
  have bit : ∀ index, word.getLsbD index =
      if index < count then false else (2 * rest + 1).testBit (index - count) := by
    intro index
    rw [BitVec.getLsbD, number_eq, testBit_two_pow_mul_odd]
  have short : count < bits := by
    refine (Nat.pow_lt_pow_iff_right (by decide : 1 < 2)).mp (LE.le.trans_lt ?_ word.isLt)
    rw [number_eq]
    exact Nat.le_mul_of_pos_right _ (Nat.succ_pos _)
  have zeros : ctz.result bits word.toNat = count := by
    refine zerosInFront_eq (fun index small => ?_) ?_
    · rw [getElem?_fixedBits, if_pos (small.trans short), bit, if_pos small]
    · rw [getElem?_fixedBits, if_pos short, bit, if_neg (Nat.lt_irrefl _), Nat.sub_self]
      simp [Nat.testBit_zero]
  rw [zeros, number_eq, land_neg_eq, Int.toNat_natCast, Nat.size_pow]
  push_cast
  ring

theorem IntUnary.result_ctz_zero (bits : Nat) : ctz.result bits 0 = bits := by
  refine zerosInFront_eq (fun index small => ?_) ?_
  · simp [fixedBits, small]
  · simp [fixedBits]

theorem count_fixedBits {bits number : Nat} (bound : number < 2 ^ bits) :
    (fixedBits bits number).count true = number.bits.count true := by
  induction bits generalizing number with
  | zero =>
      obtain rfl : number = 0 := by simpa using bound
      rfl
  | succ bits ih =>
      have shifted : fixedBits (bits + 1) number =
          number.testBit 0 :: fixedBits bits (number >>> 1) := by
        simp [fixedBits, List.range_succ_eq_map, Nat.testBit_shiftRight, Nat.add_comm]
      have boundRest : number >>> 1 < 2 ^ bits := by
        rw [Nat.shiftRight_eq_div_pow]
        omega
      rw [shifted, List.count_cons, ih boundRest]
      by_cases isZero : number = 0
      · subst isZero
        rfl
      · have split := Nat.bit_testBit_zero_shiftRight_one number
        have bits_eq : number.bits = number.testBit 0 :: (number >>> 1).bits := by
          rw [← Nat.bits_append_bit, split]
          intro noRest
          rw [noRest] at split
          by_contra isEven
          rw [Bool.eq_false_of_not_eq_true isEven] at split
          exact isZero split.symm
        rw [bits_eq, List.count_cons]

/-- An operator on a word computes its formula. -/
theorem IntUnary.apply_eq_formula {bits : Nat} (operator : IntUnary) (word : BitVec bits)
    (positive : 0 < bits) :
    ((operator.apply word).toNat : Int) = operator.formula bits word.toNat := by
  rw [operator.apply_toNat word positive]
  cases operator with
  | clz => exact result_clz word positive
  | ctz =>
      by_cases isZero : word.toNat = 0
      · rw [isZero, result_ctz_zero, formula, if_pos rfl]
      · rw [result_ctz word isZero, formula, if_neg isZero]
  | popcnt => exact congrArg Nat.cast (count_fixedBits word.isLt)

end WatLink
