import WatLink.Proofs.FoldingOrder
import WatLink.Proofs.ProperNumbers
import WatLink.Proofs.SpelledDecimals

/-!
# Reading constants back

The spelling of an evaluated constant, read as a literal of its type, is the constant
again, bit for bit.  There is one exception: the negative zero of single precision is
spelled `-0`, which is an integer literal and so reads as the zero without a sign.
-/

namespace WatLink

namespace Binary64

/-! ## Numbers that are not finite -/

theorem literal_notANumber (precision : Precision) (negative : Bool) :
    Constant.literal (.float precision) (if negative then "-nan" else "nan") =
      .ok (.float precision (notANumber negative)) := by
  cases precision <;> cases negative <;> rfl

theorem literal_infinity (precision : Precision) (negative : Bool) :
    Constant.literal (.float precision) (if negative then "-inf" else "inf") =
      .ok (.float precision (infinity negative)) := by
  cases precision <;> cases negative <;> rfl

/-! ## Finite numbers -/

section Finite

variable {number : Binary64} (finite : number.isFinite = true)
include finite

theorem toBinary64_shortestDecimal :
    number.shortestDecimal.toBinary64 number.isNegative = number :=
  eq_of_beq (readsBack_shortestDecimal finite)

theorem literal_spellShortest (precision : Precision) :
    Constant.literal (.float precision) number.spellShortest =
      .ok (.float precision (precision.round number)) := by
  have reads := toBinary64_shortestDecimal finite
  rw [← reads] at finite
  have literal_eq := @DecimalStyle.literal_spell .double (by decide) precision _ _ finite (.inl rfl)
  rw [reads] at literal_eq
  exact literal_eq

end Finite

/-! ## Numbers of single precision -/

theorem toSingle_of_readsBackAsSingle {number : Binary64} {decimal : Decimal}
    (reads : number.readsBackAsSingle decimal = true) :
    (decimal.toBinary64 number.isNegative).toSingle = number := by
  apply eq_of_eq reads
  rw [isNegative_toSingle, Decimal.isNegative_toBinary64]

theorem literal_spellSingle? {number : Binary64} (finite : number.isFinite = true)
    (nonzero : number.isZero = false) {text : String} (spelled : number.spellSingle? = some text) :
    Constant.literal (.float .single) text = .ok (.float .single number) := by
  obtain ⟨index, inRange, tested⟩ := List.exists_of_findSome?_eq_some spelled
  have few : index < 17 := List.mem_range.mp inRange
  dsimp only at tested
  split at tested
  · rename_i reads
    obtain rfl := Option.some.inj tested
    generalize number.significantDecimal (index + 1) = decimal at reads
    have same := toSingle_of_readsBackAsSingle reads
    have finite' : (decimal.toBinary64 number.isNegative).isFinite = true :=
      isFinite_of_toSingle (by rwa [same])
    have hasDigits : decimal.digits ≠ 0 := by
      intro isZero
      rw [Decimal.toBinary64_of_zero isZero, toSingle_signedZero] at same
      rw [← same, isZero_signedZero] at nonzero
      cases nonzero
    have limit : (DecimalStyle.significant (index + 1)).positionalLimit.toNat < digitLimit := by
      simp only [DecimalStyle.significant, digitLimit]
      omega
    rw [DecimalStyle.literal_spell limit .single finite' (.inr hasDigits), Precision.round, same]
  · cases tested

theorem literal_spell_of_isFinite {precision : Precision} {number : Binary64}
    (finite : number.isFinite = true) (rounded : precision.round number = number)
    (keepsSign : precision = .single → number.isZero = false) :
    Constant.literal (.float precision) (number.spell precision) =
      .ok (.float precision number) := by
  have shortest := literal_spellShortest finite precision
  rw [rounded] at shortest
  simp only [spell.eq_def, isNaN_of_isFinite finite, isInfinite_of_isFinite finite,
    Bool.false_eq_true, if_false]
  cases precision with
  | double => exact shortest
  | single =>
      dsimp only
      cases spelled : number.spellSingle? with
      | none => exact shortest
      | some text => exact literal_spellSingle? finite (keepsSign rfl) spelled

/-- A number is read back, apart from the negative zero of single precision. -/
theorem literal_spell {precision : Precision} {number : Binary64} (proper : number.IsProper)
    (rounded : precision.round number = number)
    (keepsSign : precision = .single → number ≠ signedZero true) :
    Constant.literal (.float precision) (number.spell precision) =
      .ok (.float precision number) := by
  cases isNaN : number.isNaN with
  | true =>
      have reads := literal_notANumber precision number.isNegative
      rw [← proper.eq_notANumber isNaN] at reads
      simpa only [spell.eq_def, isNaN, if_true] using reads
  | false =>
      cases isInfinite : number.isInfinite with
      | true =>
          have reads := literal_infinity precision number.isNegative
          rw [← eq_infinity isInfinite] at reads
          simpa only [spell.eq_def, isNaN, isInfinite, Bool.false_eq_true, if_false,
            if_true] using reads
      | false =>
          have finite := isFinite_of_ordinary isNaN isInfinite
          by_cases isSingleZero : precision = .single ∧ number.isZero = true
          · obtain ⟨rfl, isZero⟩ := isSingleZero
            have other := keepsSign rfl
            have same := eq_signedZero isZero
            generalize number.isNegative = negative at same
            subst same
            cases negative with
            | false => rfl
            | true => exact absurd rfl other
          · apply literal_spell_of_isFinite finite rounded
            intro isSingle
            simpa [isSingle] using isSingleZero

end Binary64

namespace Constant

theorem literal_spell {value : Value} (proper : value.IsProper) :
    literal value.type value.spell =
      .ok (if value = .float .single (.signedZero true) then .float .single (.signedZero false)
        else value) := by
  split
  · rename_i isNegativeZero
    subst isNegativeZero
    rfl
  · rename_i other
    cases value with
    | int width word => exact literal_decimalNumeral width word
    | float precision number =>
        apply Binary64.literal_spell proper.1 proper.2
        rintro rfl rfl
        exact other rfl

/-- The constant that an expression is folded to is evaluated to the value of the
expression again, whatever globals stand around it; only the negative zero of single
precision loses its sign. -/
theorem evaluate_folded_constant {globals : List Global} {expression : Tree} {value : Value}
    (evaluates : evaluate globals expression = .ok value) (globals' : List Global) :
    evaluate globals' (.form (value.type.name ++ ".const") [.atom value.spell]) =
      .ok (if value = .float .single (.signedZero true) then .float .single (.signedZero false)
        else value) := by
  have proper := (evaluate_eq_ok_iff.mp evaluates).isProper
  rw [evaluate_eq_ok_iff]
  exact .constant (isTag_const value.type) (literal_spell proper)

theorem evaluate_folded_negative_zero :
    evaluate [] (.form "f32.const" [.atom "-0.0"]) = .ok (.float .single (.signedZero true)) ∧
      evaluate [] (.form "f32.const" [.atom "-0"]) = .ok (.float .single (.signedZero false)) :=
  have evaluates : evaluate [] (.form "f32.const" [.atom "-0.0"]) =
      .ok (.float .single (.signedZero true)) := rfl
  ⟨evaluates, evaluate_folded_constant evaluates []⟩

end Constant

end WatLink
