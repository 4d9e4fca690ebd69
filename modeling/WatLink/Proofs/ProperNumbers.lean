import WatLink.Proofs.ConstantMeaning
import WatLink.Proofs.SeventeenDigits

/-!
# Proper numbers

The evaluator makes no NaN but the two without a payload, and numbers of single
precision only where it says so.  Both are kept by every operation, so they hold of
the value of every expression, whatever globals it reads.
-/

namespace WatLink

namespace Binary64

open BinaryFormat

/-- A NaN has no payload. -/
def IsProper (number : Binary64) : Prop :=
  infiniteMagnitude < number.magnitude → number.magnitude = infiniteMagnitude + 2 ^ 51

section IsProper

variable {number first second : Binary64}

theorem isProper_of_isFinite (finite : number.isFinite = true) : number.IsProper := by
  have below := of_decide_eq_true finite
  intro above
  omega

theorem isProper_ofMagnitude (negative : Bool) (proper : number.IsProper) :
    (ofMagnitude negative number.magnitude).IsProper := by
  rw [IsProper, magnitude_ofMagnitude negative number.magnitude_lt]
  exact proper

theorem isProper_infinity (negative : Bool) : (infinity negative).IsProper := by
  rw [IsProper, infinity, magnitude_ofMagnitude negative (by decide)]
  exact fun above => absurd above (lt_irrefl _)

theorem isProper_notANumber (negative : Bool) : (notANumber negative).IsProper := by
  rw [IsProper, notANumber, magnitude_ofMagnitude negative (by decide)]
  exact fun _ => rfl

theorem isProper_signedZero (negative : Bool) : (signedZero negative).IsProper := by
  cases negative <;> exact isProper_of_isFinite rfl

theorem IsProper.eq_notANumber (proper : number.IsProper) (isNaN : number.isNaN = true) :
    number = notANumber number.isNegative := by
  have same := proper (of_decide_eq_true isNaN)
  rw [notANumber, Nat.pow_eq, ← same, ofMagnitude_self]

theorem IsProper.quiet (proper : number.IsProper) (isNaN : number.isNaN = true) :
    number.quiet.IsProper := by
  rw [proper.eq_notANumber isNaN]
  have alreadyQuiet : (notANumber number.isNegative).quiet = notANumber number.isNegative := by
    cases number.isNegative <;> rfl
  rw [alreadyQuiet]
  exact isProper_notANumber _

/-! ## Rounding -/

theorem isProper_ofParts (negative : Bool) {numerator denominator : Nat} {parts : Nat × Int}
    (positive : 0 < denominator)
    (rounded : doubleFormat.nearest numerator denominator = some parts) :
    (ofParts negative parts.1 parts.2).IsProper :=
  isProper_of_isFinite
    (isFinite_ofParts negative (canonical_of_nearest sound_doubleFormat positive rounded))

theorem isProper_ofQuotient? {negative : Bool} {numerator denominator : Nat}
    (positive : 0 < denominator)
    (found : ofQuotient? negative numerator denominator = some number) : number.IsProper := by
  obtain ⟨parts, rounded, rfl⟩ := Option.map_eq_some_iff.mp found
  exact isProper_ofParts negative positive rounded

theorem isProper_ofQuotient (negative : Bool) (numerator : Nat) {denominator : Nat}
    (positive : 0 < denominator) : (ofQuotient negative numerator denominator).IsProper := by
  rw [ofQuotient]
  cases found : ofQuotient? negative numerator denominator with
  | none => exact isProper_infinity negative
  | some number => exact isProper_ofQuotient? positive found

theorem isProper_ofScaled (negative : Bool) (significand : Nat) (exponent : Int) :
    (ofScaled negative significand exponent).IsProper :=
  isProper_ofQuotient negative _ (divideByPowerOfTwo_pos _ _ Nat.one_pos)

theorem isProper_ofInt (integer : Int) : (ofInt integer).IsProper :=
  isProper_ofQuotient _ _ Nat.one_pos

theorem IsProper.toSingle (proper : number.IsProper) : number.toSingle.IsProper := by
  cases finite : number.isFinite with
  | false =>
      rw [Binary64.toSingle, finite]
      exact proper
  | true =>
      rw [toSingle_of_isFinite finite]
      cases singleFormat.nearest number.quotient.1 number.quotient.2 with
      | none => exact isProper_infinity _
      | some parts => exact isProper_ofScaled _ _ _

/-! ## Arithmetic -/

section Binary

variable (properFirst : first.IsProper) (properSecond : second.IsProper)
include properFirst properSecond

theorem IsProper.add : (first.add second).IsProper := by
  unfold Binary64.add
  split_ifs with firstNaN secondNaN
  · exact properFirst.quiet firstNaN
  · exact properSecond.quiet secondNaN
  · exact isProper_notANumber true
  · exact properFirst
  · exact properSecond
  · dsimp only
    split_ifs
    · exact isProper_signedZero _
    · exact isProper_ofScaled _ _ _

theorem IsProper.sub : (first.sub second).IsProper := by
  unfold Binary64.sub
  split_ifs with secondNaN firstNaN
  · exact properFirst.quiet firstNaN
  · exact properSecond.quiet secondNaN
  · exact properFirst.add (isProper_ofMagnitude _ properSecond)

theorem IsProper.mul : (first.mul second).IsProper := by
  unfold Binary64.mul
  dsimp only
  split_ifs with firstNaN secondNaN
  · exact properFirst.quiet firstNaN
  · exact properSecond.quiet secondNaN
  · exact isProper_notANumber true
  · exact isProper_infinity _
  · exact isProper_ofScaled _ _ _

theorem IsProper.div : (first.div second).IsProper := by
  unfold Binary64.div
  dsimp only
  split_ifs with firstNaN secondNaN
  · exact properFirst.quiet firstNaN
  · exact properSecond.quiet secondNaN
  · exact isProper_notANumber true
  · exact isProper_infinity _
  · exact isProper_signedZero _
  · exact isProper_notANumber true
  · exact isProper_infinity _
  · rename_i nonzero
    apply isProper_ofQuotient
    apply divideByPowerOfTwo_pos
    exact significand_pos (by simpa using nonzero)

theorem IsProper.applyBinary (operator : FloatBinary) :
    (operator.apply first second).IsProper := by
  cases operator with
  | add => exact properFirst.add properSecond
  | sub => exact properFirst.sub properSecond
  | mul => exact properFirst.mul properSecond
  | div =>
      simp only [FloatBinary.apply, FloatBinary.divide]
      split_ifs
      · exact isProper_notANumber false
      · exact isProper_infinity _
      · exact properFirst.div properSecond
  | min =>
      simp only [FloatBinary.apply, FloatBinary.minimum]
      split_ifs
      · exact isProper_notANumber false
      all_goals assumption
  | max =>
      simp only [FloatBinary.apply, FloatBinary.maximum]
      split_ifs
      · exact isProper_notANumber false
      all_goals assumption
  | copysign => exact isProper_ofMagnitude _ properFirst

end Binary

theorem IsProper.sqrt (proper : number.IsProper) : number.sqrt.IsProper := by
  unfold Binary64.sqrt
  dsimp only
  split_ifs with isNaN
  · exact proper.quiet isNaN
  · exact proper
  · exact isProper_notANumber true
  · exact proper
  all_goals exact isProper_ofScaled _ _ _

theorem IsProper.roundWith (proper : number.IsProper) (toInt : Binary64 → Int) :
    (number.roundWith toInt).IsProper := by
  unfold Binary64.roundWith
  split_ifs
  · exact isProper_ofMagnitude _ (isProper_ofInt _)
  · exact proper

theorem IsProper.applyUnary (proper : number.IsProper) (operator : FloatUnary) :
    (operator.apply number).IsProper := by
  cases operator with
  | neg => exact isProper_ofMagnitude _ proper
  | abs => exact isProper_ofMagnitude _ proper
  | sqrt =>
      simp only [FloatUnary.apply, FloatUnary.squareRoot]
      split_ifs
      · exact isProper_notANumber false
      · exact proper.sqrt
  | ceil => exact proper.roundWith _
  | floor => exact proper.roundWith _
  | trunc => exact proper.roundWith _
  | nearest => exact proper.roundWith _

/-! ## Literals -/

theorem isProper_toBinary64 (negative : Bool) (decimal : Decimal) :
    (decimal.toBinary64 negative).IsProper := by
  rw [Decimal.toBinary64]
  split
  · exact isProper_infinity negative
  · rename_i significand exponent rounded
    rw [Decimal.nearest] at rounded
    dsimp only at rounded
    split_ifs at rounded
    · cases rounded
      cases negative <;> exact isProper_of_isFinite rfl
    · exact isProper_ofParts negative (divideByPowerOfTen_pos _ _ Nat.one_pos) rounded

theorem isProper_of_readDecimalText? {text : String} (reads : readDecimalText? text = some number) :
    number.IsProper := by
  rw [readDecimalText?] at reads
  dsimp only at reads
  split_ifs at reads
  · obtain rfl := Option.some.inj reads
    exact isProper_infinity _
  · obtain rfl := Option.some.inj reads
    exact isProper_notANumber _
  · obtain ⟨decimal, -, rfl⟩ := Option.map_eq_some_iff.mp reads
    exact isProper_toBinary64 _ decimal

theorem isProper_of_ofHexadecimal? {digits : Nat} {exponent : Int}
    (reads : ofHexadecimal? digits exponent = some number) : number.IsProper := by
  rw [ofHexadecimal?] at reads
  dsimp only at reads
  split_ifs at reads
  · cases reads
    exact isProper_signedZero false
  · exact isProper_ofQuotient? (divideByPowerOfTwo_pos _ _ Nat.one_pos) reads

theorem isProper_of_readHexadecimal {characters : List Char}
    (reads : readHexadecimal characters = .ok number) : number.IsProper := by
  simp only [readHexadecimal] at reads
  split at reads
  · cases reads
  · split at reads
    · cases reads
    · split at reads
      · cases reads
      · rename_i found
        split at reads
        · obtain rfl := Except.ok.inj reads
          exact isProper_of_ofHexadecimal? found
        · cases reads

theorem isProper_of_parse {text : String} (reads : parse text = .ok number) : number.IsProper := by
  have properSign : ∀ negative, (signedOne negative).IsProper :=
    fun negative => isProper_of_isFinite (isFinite_signedOne negative)
  simp only [parse] at reads
  split at reads
  · obtain rfl := Except.ok.inj reads
    exact isProper_infinity _
  · split at reads
    · obtain rfl := Except.ok.inj reads
      exact isProper_notANumber _
    · split at reads
      · obtain ⟨magnitude, readsMagnitude, rfl⟩ := exceptMap_eq_ok_iff.mp reads
        exact (properSign _).mul (isProper_of_readHexadecimal readsMagnitude)
      · split at reads
        · rename_i readsMagnitude
          obtain rfl := Except.ok.inj reads
          exact (properSign _).mul (isProper_of_readDecimalText? readsMagnitude)
        · cases reads

theorem isProper_of_ofInteger {integer : Int} (reads : ofInteger integer = .ok number) :
    number.IsProper := by
  simp only [ofInteger] at reads
  split at reads
  · rename_i found
    obtain rfl := Except.ok.inj reads
    exact isProper_ofQuotient? Nat.one_pos found
  · cases reads

end IsProper

end Binary64

/-! ## Values -/

theorem Precision.round_round (precision : Precision) (number : Binary64) :
    precision.round (precision.round number) = precision.round number := by
  cases precision with
  | single => exact number.toSingle_toSingle
  | double => rfl

/-- A constant whose number is proper and has the precision of its type. -/
def Value.IsProper : Value → Prop
  | .int _ _ => True
  | .float precision number => number.IsProper ∧ precision.round number = number

theorem Value.isProper_round (precision : Precision) {number : Binary64}
    (proper : number.IsProper) :
    (Value.float precision (precision.round number)).IsProper := by
  refine ⟨?_, precision.round_round number⟩
  cases precision with
  | single => exact proper.toSingle
  | double => exact proper

namespace Constant

variable {tag text name : String} {type : ValueType} {value : Value} {values : List Value}

theorem isProper_of_literal (reads : literal type text = .ok value) : value.IsProper := by
  cases type with
  | int width =>
      simp only [literal] at reads
      split at reads
      · obtain rfl := Except.ok.inj reads
        trivial
      · cases reads
  | float precision =>
      simp only [literal] at reads
      split at reads
      · split at reads
        · cases reads
        · split at reads
          · rename_i found
            obtain rfl := Except.ok.inj reads
            exact Value.isProper_round precision (Binary64.isProper_of_ofInteger found)
          · cases reads
      · split at reads
        · rename_i found
          obtain rfl := Except.ok.inj reads
          exact Value.isProper_round precision (Binary64.isProper_of_parse found)
        · cases reads
        · cases reads

theorem isProper_of_floats {precision : Precision} {numbers : List Binary64}
    (operands : ∀ operand ∈ values, operand.IsProper)
    (reads : floats tag precision values = .ok numbers) :
    ∀ number ∈ numbers, number.IsProper := by
  induction values generalizing numbers with
  | nil =>
      obtain rfl := Except.ok.inj reads
      simp
  | cons operand rest ih =>
      cases operand with
      | int width word => cases reads
      | float actual number =>
          simp only [floats] at reads
          split at reads
          · obtain ⟨others, readsOthers, rfl⟩ := exceptMap_eq_ok_iff.mp reads
            have properRest :=
              ih (fun operand member => operands operand (by simp [member])) readsOthers
            have properFirst := operands (.float actual number) (by simp)
            exact List.forall_mem_cons.mpr ⟨properFirst.1, properRest⟩
          · cases reads

theorem mem_of_oneOperand {α : Type} {operands : List α} {operand : α}
    (reads : oneOperand tag operands = .ok operand) : operand ∈ operands := by
  unfold oneOperand at reads
  split at reads
  · obtain rfl := Except.ok.inj reads
    simp
  · cases reads

theorem mem_of_twoOperands {α : Type} {operands : List α} {first second : α}
    (reads : twoOperands tag operands = .ok (first, second)) :
    first ∈ operands ∧ second ∈ operands := by
  unfold twoOperands at reads
  split at reads
  · cases reads
    simp
  · cases reads

theorem isProper_of_applyInt {width : Width} {operator? : Option IntOperator}
    (applies : applyInt tag width operator? values = .ok value) : value.IsProper := by
  match operator? with
  | none =>
      obtain ⟨words, -, refused⟩ := exceptBind_eq_ok_iff.mp applies
      cases refused
  | some .resize | some .extendSigned =>
      obtain ⟨operand, -, changes⟩ := exceptBind_eq_ok_iff.mp applies
      cases operand with
      | int actual word =>
          obtain rfl := Except.ok.inj changes
          trivial
      | float => cases changes
  | some (.truncate signed) =>
      obtain ⟨operand, -, truncates⟩ := exceptBind_eq_ok_iff.mp applies
      cases operand with
      | int => cases truncates
      | float actual number =>
          simp only [truncateTo] at truncates
          split_ifs at truncates
          all_goals
            obtain rfl := Except.ok.inj truncates
            trivial
  | some .testZero | some (.unary operator) =>
      obtain ⟨words, -, applies⟩ := exceptBind_eq_ok_iff.mp applies
      obtain ⟨word, -, computes⟩ := exceptBind_eq_ok_iff.mp applies
      obtain rfl := Except.ok.inj computes
      trivial
  | some (.binary operator) =>
      obtain ⟨words, -, applies⟩ := exceptBind_eq_ok_iff.mp applies
      obtain ⟨⟨first, second⟩, -, computes⟩ := exceptBind_eq_ok_iff.mp applies
      dsimp only at computes
      split at computes
      · obtain rfl := Except.ok.inj computes
        trivial
      · cases computes
  | some (.compare comparison) =>
      obtain ⟨words, -, applies⟩ := exceptBind_eq_ok_iff.mp applies
      obtain ⟨pair, -, compares⟩ := exceptBind_eq_ok_iff.mp applies
      obtain rfl := Except.ok.inj compares
      trivial

theorem isProper_of_applyFloat {precision : Precision} {operator? : Option FloatOperator}
    (operands : ∀ operand ∈ values, operand.IsProper)
    (applies : applyFloat tag precision operator? values = .ok value) : value.IsProper := by
  match operator? with
  | none =>
      obtain ⟨numbers, -, refused⟩ := exceptBind_eq_ok_iff.mp applies
      cases refused
  | some (.convert signed) =>
      obtain ⟨operand, -, converts⟩ := exceptBind_eq_ok_iff.mp applies
      cases operand with
      | int width word =>
          obtain rfl := Except.ok.inj converts
          exact Value.isProper_round precision (Binary64.isProper_ofInt _)
      | float => cases converts
  | some .changePrecision =>
      obtain ⟨operand, reads, changes⟩ := exceptBind_eq_ok_iff.mp applies
      obtain rfl := Except.ok.inj changes
      have proper := operands operand (mem_of_oneOperand reads)
      cases operand with
      | int width word => exact Value.isProper_round precision (Binary64.isProper_ofInt _)
      | float actual number => exact Value.isProper_round precision proper.1
  | some (.unary operator) =>
      obtain ⟨numbers, readsAll, applies⟩ := exceptBind_eq_ok_iff.mp applies
      obtain ⟨number, reads, computes⟩ := exceptBind_eq_ok_iff.mp applies
      obtain rfl := Except.ok.inj computes
      have proper := isProper_of_floats operands readsAll number (mem_of_oneOperand reads)
      exact Value.isProper_round precision (proper.applyUnary operator)
  | some (.binary operator) =>
      obtain ⟨numbers, readsAll, applies⟩ := exceptBind_eq_ok_iff.mp applies
      obtain ⟨⟨first, second⟩, reads, computes⟩ := exceptBind_eq_ok_iff.mp applies
      obtain rfl := Except.ok.inj computes
      obtain ⟨isFirst, isSecond⟩ := mem_of_twoOperands reads
      have proper := isProper_of_floats operands readsAll
      exact Value.isProper_round precision
        ((proper first isFirst).applyBinary (proper second isSecond) operator)
  | some (.compare comparison) =>
      obtain ⟨numbers, -, applies⟩ := exceptBind_eq_ok_iff.mp applies
      obtain ⟨pair, -, compares⟩ := exceptBind_eq_ok_iff.mp applies
      obtain rfl := Except.ok.inj compares
      trivial

/-- Instructions keep values proper. -/
theorem isProper_of_applyInstruction (operands : ∀ operand ∈ values, operand.IsProper)
    (applies : applyInstruction tag type name values = .ok value) : value.IsProper := by
  cases type with
  | int width => exact isProper_of_applyInt applies
  | float precision => exact isProper_of_applyFloat operands applies

/-- The values of expressions are proper. -/
theorem Denotes.isProper {globals : List Global} {expression : Tree}
    (denotes : Denotes globals expression value) : value.IsProper := by
  induction denotes with
  | constant _ reads => exact isProper_of_literal reads
  | global _ _ _ ih => exact ih
  | constexpr _ _ ih => exact ih
  | operation _ _ sameLength _ applies ih =>
      apply isProper_of_applyInstruction _ applies
      intro operand member
      rw [← List.map_snd_zip sameLength.ge] at member
      obtain ⟨⟨argument, operand⟩, paired, rfl⟩ := List.mem_map.mp member
      exact ih argument operand paired

end Constant

end WatLink
