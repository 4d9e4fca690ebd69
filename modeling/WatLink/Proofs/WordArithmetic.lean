import Mathlib
import WatLink.Constant.Operator

/-!
# Integer arithmetic of WebAssembly

The numeric instructions on integers of a width, defined on the numbers below
two to the width by ordinary arithmetic: signed readings, residues, truncated
and floored division, and lists of bits.  A division by zero and a quotient that
is too large trap.

The operators of constant expressions work on words.  Read as unsigned numbers,
they compute these functions.
-/

namespace WatLink

/-- The signed reading of a number of some bits. -/
def signedReading (bits number : Nat) : Int :=
  if number < 2 ^ (bits - 1) then number else number - 2 ^ bits

/-- The number of some bits that an integer is congruent to. -/
def residue (bits : Nat) (integer : Int) : Nat :=
  (integer % 2 ^ bits).toNat

/-- The bits of a number, least significant bit first. -/
def fixedBits (bits number : Nat) : List Bool :=
  (List.range bits).map number.testBit

/-- The number of bits before the first one that is set. -/
def zerosInFront : List Bool → Nat
  | false :: rest => zerosInFront rest + 1
  | _ => 0

/-- The result of an operator on two numbers. -/
def IntBinary.result (operator : IntBinary) (bits first second : Nat) : Nat :=
  match operator with
  | .add => (first + second) % 2 ^ bits
  | .sub => (first + 2 ^ bits - second) % 2 ^ bits
  | .mul => first * second % 2 ^ bits
  | .divS => residue bits ((signedReading bits first).tdiv (signedReading bits second))
  | .divU => first / second
  | .remS => residue bits ((signedReading bits first).tmod (signedReading bits second))
  | .remU => first % second
  | .and => first &&& second
  | .or => first ||| second
  | .xor => first ^^^ second
  | .shl => first * 2 ^ (second % bits) % 2 ^ bits
  | .shrS => residue bits (signedReading bits first / 2 ^ (second % bits))
  | .shrU => first / 2 ^ (second % bits)
  | .rotl => first * 2 ^ (second % bits) % 2 ^ bits + first / 2 ^ (bits - second % bits)
  | .rotr => first / 2 ^ (second % bits) + first * 2 ^ (bits - second % bits) % 2 ^ bits

/-- Whether an operator fails on two numbers: it divides by zero, or it is the
signed quotient of the least number and minus one. -/
def IntBinary.Fails (operator : IntBinary) (bits first second : Nat) : Prop :=
  operator ∈ [.divS, .divU, .remS, .remU] ∧ second = 0 ∨
    operator = .divS ∧ signedReading bits first = -2 ^ (bits - 1) ∧ signedReading bits second = -1

/-- What an operator computes of two numbers, or how it traps. -/
def IntBinary.compute (operator : IntBinary) (bits first second : Nat) : Except Trap Nat :=
  if operator ∈ [.divS, .divU, .remS, .remU] ∧ second = 0 then .error .divideByZero
  else if operator = .divS ∧ signedReading bits first = -2 ^ (bits - 1) ∧
      signedReading bits second = -1 then .error .overflow
  else .ok (operator.result bits first second)

/-- The result of an operator on a number. -/
def IntUnary.result (operator : IntUnary) (bits number : Nat) : Nat :=
  match operator with
  | .clz => zerosInFront (fixedBits bits number).reverse
  | .ctz => zerosInFront (fixedBits bits number)
  | .popcnt => (fixedBits bits number).count true

/-- Whether a comparison of two numbers holds. -/
def IntCompare.Holds (comparison : IntCompare) (bits first second : Nat) : Prop :=
  match comparison with
  | .eq => first = second
  | .ne => first ≠ second
  | .ltS => signedReading bits first < signedReading bits second
  | .ltU => first < second
  | .gtS => signedReading bits first > signedReading bits second
  | .gtU => first > second
  | .leS => signedReading bits first ≤ signedReading bits second
  | .leU => first ≤ second
  | .geS => signedReading bits first ≥ signedReading bits second
  | .geU => first ≥ second

instance (comparison : IntCompare) (bits first second : Nat) :
    Decidable (comparison.Holds bits first second) :=
  match comparison with
  | .eq => inferInstanceAs (Decidable (first = second))
  | .ne => inferInstanceAs (Decidable (first ≠ second))
  | .ltS => inferInstanceAs (Decidable (signedReading bits first < signedReading bits second))
  | .ltU => inferInstanceAs (Decidable (first < second))
  | .gtS => inferInstanceAs (Decidable (signedReading bits first > signedReading bits second))
  | .gtU => inferInstanceAs (Decidable (first > second))
  | .leS => inferInstanceAs (Decidable (signedReading bits first ≤ signedReading bits second))
  | .leU => inferInstanceAs (Decidable (first ≤ second))
  | .geS => inferInstanceAs (Decidable (signedReading bits first ≥ signedReading bits second))
  | .geU => inferInstanceAs (Decidable (first ≥ second))

theorem IntBinary.compute_eq_error_iff (operator : IntBinary) (bits first second : Nat) :
    (∃ trap, operator.compute bits first second = .error trap) ↔
      operator.Fails bits first second := by
  unfold compute Fails
  constructor
  · rintro ⟨trap, trapped⟩
    split at trapped
    · exact .inl ‹_›
    · split at trapped
      · exact .inr ‹_›
      · cases trapped
  · intro fails
    split
    · exact ⟨_, rfl⟩
    · rename_i notZero
      rw [if_pos (fails.resolve_left notZero)]
      exact ⟨_, rfl⟩

section Words

variable {bits : Nat} (word first second : BitVec bits)

theorem signedReading_toNat (positive : 0 < bits) :
    signedReading bits word.toNat = word.toInt := by
  have doubled : 2 ^ bits = 2 * 2 ^ (bits - 1) := by
    rw [← pow_succ']
    congr 1
    omega
  rw [signedReading, BitVec.toInt_eq_toNat_cond]
  by_cases small : word.toNat < 2 ^ (bits - 1)
  · rw [if_pos small, if_pos (by omega)]
  · rw [if_neg small, if_neg (by omega)]
    push_cast
    rfl

theorem toNat_eq_residue : word.toNat = residue bits word.toInt := by
  have represented : BitVec.ofInt bits word.toInt = word := BitVec.ofInt_toInt
  have readBack := BitVec.toNat_ofInt (n := bits) word.toInt
  rw [represented] at readBack
  rw [readBack, residue]
  push_cast
  rfl

theorem residue_bmod (integer : Int) :
    residue bits (integer.bmod (2 ^ bits)) = residue bits integer := by
  have same := Int.bmod_emod (x := integer) (m := 2 ^ bits)
  push_cast at same
  rw [residue, residue, same]

theorem toNat_sdiv (positive : 0 < bits) :
    (first.sdiv second).toNat = IntBinary.divS.result bits first.toNat second.toNat := by
  rw [toNat_eq_residue, BitVec.toInt_sdiv, residue_bmod, IntBinary.result,
    signedReading_toNat first positive, signedReading_toNat second positive]

theorem toNat_srem (positive : 0 < bits) :
    (first.srem second).toNat = IntBinary.remS.result bits first.toNat second.toNat := by
  rw [toNat_eq_residue, BitVec.toInt_srem, IntBinary.result,
    signedReading_toNat first positive, signedReading_toNat second positive]

theorem toNat_sshiftRight (positive : 0 < bits) (count : Nat) :
    (first.sshiftRight count).toNat =
      residue bits (signedReading bits first.toNat / 2 ^ count) := by
  rw [toNat_eq_residue, BitVec.toInt_sshiftRight, signedReading_toNat first positive,
    Int.shiftRight_eq_div_pow]
  push_cast
  rfl

/-- The two parts of a rotated word do not overlap. -/
theorem shiftLeft_or_shiftRight (count : Nat) (number : Nat) (bound : number < 2 ^ bits)
    (within : count ≤ bits) :
    number <<< count % 2 ^ bits ||| number >>> (bits - count) =
      number * 2 ^ count % 2 ^ bits + number / 2 ^ (bits - count) := by
  have split : 2 ^ bits = 2 ^ count * 2 ^ (bits - count) := by
    rw [← pow_add]
    congr 1
    omega
  have low : number / 2 ^ (bits - count) < 2 ^ count := by
    rw [Nat.div_lt_iff_lt_mul (Nat.two_pow_pos _)]
    omega
  have high : number * 2 ^ count % 2 ^ bits = 2 ^ count * (number % 2 ^ (bits - count)) := by
    rw [split, Nat.mul_comm number, Nat.mul_mod_mul_left]
  rw [Nat.shiftLeft_eq, Nat.shiftRight_eq_div_pow, high, ← Nat.two_pow_add_eq_or_of_lt low]

theorem toNat_rotateLeft (count : Nat) (within : count < bits) :
    (word.rotateLeft count).toNat =
      word.toNat * 2 ^ count % 2 ^ bits + word.toNat / 2 ^ (bits - count) := by
  rw [BitVec.toNat_rotateLeft, Nat.mod_eq_of_lt within]
  exact shiftLeft_or_shiftRight count word.toNat word.isLt within.le

theorem toNat_rotateRight (count : Nat) (within : count < bits) :
    (word.rotateRight count).toNat =
      word.toNat / 2 ^ count + word.toNat * 2 ^ (bits - count) % 2 ^ bits := by
  have parts := shiftLeft_or_shiftRight (bits - count) word.toNat word.isLt (Nat.sub_le _ _)
  have back : bits - (bits - count) = count := by omega
  rw [back] at parts
  rw [BitVec.toNat_rotateRight, Nat.mod_eq_of_lt within, Nat.or_comm, parts, Nat.add_comm]

/-! ## Counting bits -/

theorem zerosInFront_eq {list : List Bool} {count : Nat}
    (zeros : ∀ index < count, list[index]? = some false) (ends : list[count]? ≠ some false) :
    zerosInFront list = count := by
  induction list generalizing count with
  | nil =>
      cases count with
      | zero => rfl
      | succ count => simpa using zeros 0 (Nat.succ_pos count)
  | cons bit rest ih =>
      cases count with
      | zero =>
          cases bit with
          | false => simp at ends
          | true => rfl
      | succ count =>
          have isZero : bit = false := by simpa using zeros 0 (Nat.succ_pos count)
          subst isZero
          have zerosRest : ∀ index < count, rest[index]? = some false := fun index small => by
            simpa using zeros (index + 1) (by omega)
          rw [zerosInFront, ih zerosRest (by simpa using ends)]

theorem getElem?_fixedBits (index : Nat) :
    (fixedBits bits word.toNat)[index]? =
      if index < bits then some (word.getLsbD index) else none := by
  by_cases small : index < bits
  · simp [fixedBits, small, BitVec.getLsbD]
  · simp [fixedBits, small]

theorem getElem?_fixedBits_reverse (index : Nat) :
    (fixedBits bits word.toNat).reverse[index]? =
      if index < bits then some (word.getLsbD (bits - 1 - index)) else none := by
  have length : (fixedBits bits word.toNat).length = bits := by simp [fixedBits]
  by_cases small : index < bits
  · rw [List.getElem?_reverse (by rw [length]; exact small), length, getElem?_fixedBits,
      if_pos (by omega), if_pos small]
  · rw [if_neg small, List.getElem?_eq_none]
    rw [List.length_reverse, length]
    omega

theorem toNat_clz_le : word.clz.toNat ≤ bits := by
  have small := BitVec.clz_le (x := word)
  rw [BitVec.le_def] at small
  have fits : bits < 2 ^ bits := Nat.lt_two_pow_self
  simpa [Nat.mod_eq_of_lt fits] using small

theorem toNat_clz (positive : 0 < bits) :
    word.clz.toNat = IntUnary.clz.result bits word.toNat := by
  symm
  apply zerosInFront_eq
  · intro index small
    have short := toNat_clz_le word
    have below := BitVec.toNat_lt_two_pow_sub_clz (x := word)
    rw [getElem?_fixedBits_reverse, if_pos (by omega), BitVec.getLsbD,
      Nat.testBit_eq_false_of_lt]
    exact below.trans_le (Nat.pow_le_pow_right (by decide) (by omega))
  · rw [getElem?_fixedBits_reverse]
    by_cases isZero : word = BitVec.ofNat bits 0
    · have all : word.clz.toNat = bits := by
        rw [BitVec.clz_eq_iff_eq_zero.mpr isZero]
        simp [Nat.mod_eq_of_lt (Nat.lt_two_pow_self (n := bits))]
      rw [if_neg (by omega)]
      simp
    · rw [BitVec.getLsbD_true_clz_of_ne_zero positive isZero]
      split <;> simp

theorem toNat_ctz :
    word.ctz.toNat = IntUnary.ctz.result bits word.toNat := by
  symm
  have short : word.ctz.toNat ≤ bits := by
    rw [BitVec.ctz_eq_reverse_clz]
    exact toNat_clz_le _
  apply zerosInFront_eq
  · intro index small
    rw [getElem?_fixedBits, if_pos (by omega), BitVec.getLsbD_false_of_lt_ctz small]
  · rw [getElem?_fixedBits]
    by_cases isZero : word = BitVec.ofNat bits 0
    · have atEnd : ¬ word.ctz < bits := fun small => BitVec.ctz_lt_iff_ne_zero.mp small isZero
      rw [BitVec.lt_def] at atEnd
      have fits : bits < 2 ^ bits := Nat.lt_two_pow_self
      simp only [BitVec.natCast_eq_ofNat, BitVec.toNat_ofNat, Nat.mod_eq_of_lt fits] at atEnd
      rw [if_neg atEnd]
      simp
    · rw [BitVec.getLsbD_true_ctz_of_ne_zero isZero]
      split <;> simp

theorem cpopNatRec_eq_count (index : Nat) :
    word.cpopNatRec index 0 = ((List.range index).map word.toNat.testBit).count true := by
  induction index with
  | zero => rfl
  | succ index ih =>
      rw [BitVec.cpopNatRec_succ, BitVec.cpopNatRec_eq, ih, List.range_succ, List.map_append,
        List.count_append, Nat.zero_add]
      congr 1
      simp only [BitVec.getLsbD, List.map_cons, List.map_nil, List.count_singleton]
      cases word.toNat.testBit index <;> rfl

theorem toNat_popcnt : word.cpop.toNat = IntUnary.popcnt.result bits word.toNat := by
  rw [BitVec.toNat_cpop, cpopNatRec_eq_count]
  rfl

end Words

/-! ## The operators on words -/

section Operators

variable {bits : Nat} (first second : BitVec bits)

theorem eq_intMin_and_allOnes_iff (positive : 0 < bits) :
    (first = BitVec.intMin bits ∧ second = BitVec.allOnes bits) ↔
      (signedReading bits first.toNat = -2 ^ (bits - 1) ∧
        signedReading bits second.toNat = -1) := by
  have small : 2 ^ (bits - 1) < 2 ^ bits := Nat.pow_lt_pow_right (by decide) (by omega)
  rw [signedReading_toNat first positive, signedReading_toNat second positive,
    ← BitVec.toInt_inj, ← BitVec.toInt_inj, BitVec.toInt_intMin, BitVec.toInt_allOnes,
    if_pos positive, Nat.mod_eq_of_lt small]
  push_cast
  rfl

theorem eq_zero_iff_toNat : second = 0 ↔ second.toNat = 0 := by
  rw [← BitVec.toNat_inj]
  simp

theorem IntBinary.compute_eq_ok {operator : IntBinary}
    (total : operator ∉ [.divS, .divU, .remS, .remU]) (bits first second : Nat) :
    operator.compute bits first second = .ok (operator.result bits first second) := by
  have notSigned : operator ≠ .divS := by
    rintro rfl
    simp at total
  rw [compute, if_neg (fun both => total both.1), if_neg (fun both => notSigned both.1)]

/-- A division behind a test of its divisor, where the quotient cannot be too
large. -/
theorem IntBinary.guarded_toNat {operator : IntBinary} {outcome : BitVec bits}
    (division : operator ∈ [.divS, .divU, .remS, .remU]) (notSigned : operator ≠ .divS)
    (computes : outcome.toNat = operator.result bits first.toNat second.toNat) :
    (if second = 0 then Except.error Trap.divideByZero else .ok outcome).map BitVec.toNat =
      operator.compute bits first.toNat second.toNat := by
  have zero := eq_zero_iff_toNat second
  by_cases isZero : second = 0
  · rw [if_pos isZero, compute, if_pos ⟨division, zero.mp isZero⟩]
    rfl
  · rw [if_neg isZero, compute, if_neg (fun both => isZero (zero.mpr both.2)),
      if_neg (fun both => notSigned both.1), ← computes]
    rfl

theorem IntBinary.apply_divS_toNat (positive : 0 < bits) :
    (IntBinary.divS.apply first second).map BitVec.toNat =
      IntBinary.divS.compute bits first.toNat second.toNat := by
  have zero := eq_zero_iff_toNat second
  have overflow := eq_intMin_and_allOnes_iff first second positive
  by_cases isZero : second = 0
  · rw [apply, if_pos isZero, compute, if_pos ⟨by simp, zero.mp isZero⟩]
    rfl
  by_cases overflows : first = BitVec.intMin bits ∧ second = BitVec.allOnes bits
  · rw [apply, if_neg isZero, if_pos overflows, compute,
      if_neg (fun both => isZero (zero.mpr both.2)), if_pos ⟨rfl, overflow.mp overflows⟩]
    rfl
  · rw [apply, if_neg isZero, if_neg overflows, compute,
      if_neg (fun both => isZero (zero.mpr both.2)),
      if_neg (fun both => overflows (overflow.mpr both.2))]
    exact congrArg Except.ok (toNat_sdiv first second positive)

/-- An operator on words computes what it does on their numbers. -/
theorem IntBinary.apply_toNat (operator : IntBinary) (positive : 0 < bits) :
    (operator.apply first second).map BitVec.toNat =
      operator.compute bits first.toNat second.toNat := by
  have within : second.toNat % bits < bits := Nat.mod_lt _ positive
  cases operator with
  | add => rw [compute_eq_ok (by decide)]; exact congrArg Except.ok (BitVec.toNat_add _ _)
  | sub =>
      have bound := second.isLt
      have difference : (first - second).toNat =
          (first.toNat + 2 ^ bits - second.toNat) % 2 ^ bits := by
        rw [BitVec.toNat_sub]
        congr 1
        omega
      rw [compute_eq_ok (by decide)]
      exact congrArg Except.ok difference
  | mul => rw [compute_eq_ok (by decide)]; exact congrArg Except.ok (BitVec.toNat_mul _ _)
  | divS => exact apply_divS_toNat first second positive
  | divU => exact guarded_toNat first second (by decide) (by decide) BitVec.toNat_udiv
  | remS =>
      exact guarded_toNat first second (by decide) (by decide) (toNat_srem first second positive)
  | remU => exact guarded_toNat first second (by decide) (by decide) BitVec.toNat_umod
  | and => rw [compute_eq_ok (by decide)]; exact congrArg Except.ok (BitVec.toNat_and _ _)
  | or => rw [compute_eq_ok (by decide)]; exact congrArg Except.ok (BitVec.toNat_or _ _)
  | xor => rw [compute_eq_ok (by decide)]; exact congrArg Except.ok (BitVec.toNat_xor _ _)
  | shl =>
      have shifted : (first <<< (second.toNat % bits)).toNat =
          first.toNat * 2 ^ (second.toNat % bits) % 2 ^ bits := by
        rw [BitVec.toNat_shiftLeft, Nat.shiftLeft_eq]
      rw [compute_eq_ok (by decide)]
      exact congrArg Except.ok shifted
  | shrS =>
      rw [compute_eq_ok (by decide)]
      exact congrArg Except.ok (toNat_sshiftRight first positive _)
  | shrU =>
      have shifted : (first >>> (second.toNat % bits)).toNat =
          first.toNat / 2 ^ (second.toNat % bits) := by
        rw [BitVec.toNat_ushiftRight, Nat.shiftRight_eq_div_pow]
      rw [compute_eq_ok (by decide)]
      exact congrArg Except.ok shifted
  | rotl =>
      rw [compute_eq_ok (by decide)]
      exact congrArg Except.ok (toNat_rotateLeft first _ within)
  | rotr =>
      rw [compute_eq_ok (by decide)]
      exact congrArg Except.ok (toNat_rotateRight first _ within)

theorem IntUnary.apply_toNat (operator : IntUnary) (positive : 0 < bits) :
    (operator.apply first).toNat = operator.result bits first.toNat := by
  cases operator with
  | clz => exact toNat_clz first positive
  | ctz => exact toNat_ctz first
  | popcnt => exact toNat_popcnt first

theorem IntCompare.apply_eq_true_iff (comparison : IntCompare) (positive : 0 < bits) :
    comparison.apply first second = true ↔ comparison.Holds bits first.toNat second.toNat := by
  have readFirst := signedReading_toNat first positive
  have readSecond := signedReading_toNat second positive
  cases comparison with
  | eq => simp [apply, Holds, BitVec.toNat_inj]
  | ne => simp [apply, Holds, BitVec.toNat_inj]
  | ltS => simp [apply, Holds, BitVec.slt_eq_decide, readFirst, readSecond]
  | ltU => simp [apply, Holds, BitVec.ult_eq_decide]
  | gtS => simp [apply, Holds, BitVec.slt_eq_decide, readFirst, readSecond]
  | gtU => simp [apply, Holds, BitVec.ult_eq_decide]
  | leS => simp [apply, Holds, BitVec.sle_eq_decide, readFirst, readSecond]
  | leU => simp [apply, Holds, BitVec.ule_eq_decide]
  | geS => simp [apply, Holds, BitVec.sle_eq_decide, readFirst, readSecond]
  | geU => simp [apply, Holds, BitVec.ule_eq_decide]

end Operators

end WatLink
