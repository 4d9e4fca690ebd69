import WatLink.Proofs.LiteralBytes
import WatLink.Proofs.NumeralRewriting

/-!
# Values of integer literals

The reader of integer literals accepts the texts of the grammar and gives each its
positional value, as long as a decimal literal stays within the length limit.  The
value depends on the sign and the digits alone, so underscores between digits, a plus
sign and zeros in front of the digits do not matter, and a number that is written in
decimal is read back.
-/

namespace WatLink

namespace Radix

/-- The digits of a radix are the usual characters, letters in either case. -/
theorem digit?_eq_some_iff {radix : Radix} {character : Char} {digit : Nat} :
    radix.digit? character = some digit ↔ digit < radix.base ∧
      (character = digit.digitChar ∨ character = digit.digitChar.toUpper) := by
  constructor
  · intro isDigit
    have isHexadecimal : Radix.hexadecimal.digit? character = some digit := by
      obtain ⟨ranged, below⟩ := Option.filter_eq_some_iff.mp isDigit
      refine Option.filter_eq_some_iff.mpr ⟨ranged, decide_eq_true ?_⟩
      exact (of_decide_eq_true below).trans_le (by cases radix <;> decide)
    have listed := @StringLiteral.forall_isHexDigit (fun letter =>
      (Radix.hexadecimal.digit? letter).all fun value =>
        letter == value.digitChar || letter == value.digitChar.toUpper) (by decide) character
      (Option.isSome_iff_exists.mpr ⟨digit, isHexadecimal⟩)
    rw [isHexadecimal] at listed
    exact ⟨digit?_lt isDigit, by simpa using listed⟩
  · rintro ⟨below, isDigit⟩
    have spelled : ∀ value < radix.base, radix.digit? value.digitChar = some value ∧
        radix.digit? value.digitChar.toUpper = some value := by
      cases radix <;> decide
    rcases isDigit with rfl | rfl
    · exact (spelled digit below).1
    · exact (spelled digit below).2

/-- The number that digits spell is their positional value. -/
theorem value_eq_ofDigits (radix : Radix) (digits : List Nat) :
    radix.value digits = Nat.ofDigits radix.base digits.reverse := by
  rw [value, Nat.ofDigits_eq_foldr, List.foldr_reverse]
  simp only [Nat.cast_id, Nat.add_comm, Nat.mul_comm]

theorem value_zeros_append (radix : Radix) (zeros : Nat) (digits : List Nat) :
    radix.value (List.replicate zeros 0 ++ digits) = radix.value digits := by
  have onlyZeros : (List.replicate zeros 0).foldl
      (fun number digit => number * radix.base + digit) 0 = 0 := by
    induction zeros with
    | zero => rfl
    | succ zeros ih => simpa [List.replicate_succ] using ih
  rw [value, List.foldl_append, onlyZeros, value]

end Radix

/-! ## Spellings of one literal -/

namespace DigitRun

variable {radix : Radix} {run : List Char} {digits : List Nat}

theorem ne_underscore {character : Char} {digit : Nat}
    (isDigit : radix.digit? character = some digit) : character ≠ '_' := by
  rintro rfl
  simp [radix.digit?_underscore] at isDigit

/-- Without its underscores a run spells the same digits. -/
theorem withoutUnderscores (isRun : DigitRun radix run digits) :
    DigitRun radix (run.filter (· != '_')) digits := by
  induction isRun with
  | last isDigit => simpa [ne_underscore isDigit] using DigitRun.last isDigit
  | next isDigit _ ih => simpa [ne_underscore isDigit] using DigitRun.next isDigit ih
  | apart isDigit _ ih => simpa [ne_underscore isDigit] using DigitRun.next isDigit ih

theorem zeros_append (isRun : DigitRun radix run digits) (zeros : Nat) :
    DigitRun radix (List.replicate zeros '0' ++ run) (List.replicate zeros 0 ++ digits) := by
  have isZero : radix.digit? '0' = some 0 := by cases radix <;> decide
  induction zeros with
  | zero => exact isRun
  | succ zeros ih => exact .next isZero ih

end DigitRun

namespace SignOf

variable {negative : Bool} {sign : List Char}

theorem withoutUnderscores (isSign : SignOf negative sign) : sign.filter (· != '_') = sign := by
  cases isSign <;> rfl

theorem eq_nil_of_unsigned (isSign : SignOf negative sign) {behind : List Char}
    (noMinus : (sign ++ behind).head? ≠ some '-') (noPlus : (sign ++ behind).head? ≠ some '+') :
    negative = false ∧ sign = [] := by
  cases isSign with
  | minus => exact absurd rfl noMinus
  | plus => exact absurd rfl noPlus
  | none => exact ⟨rfl, rfl⟩

end SignOf

namespace IntLiteral

variable {literal : IntLiteral} {text : String}

theorem SpelledBy.withoutUnderscores {characters : List Char}
    (spelled : literal.SpelledBy characters) :
    literal.SpelledBy (characters.filter (· != '_')) := by
  obtain ⟨sign, run, isSign, isRun, rfl⟩ := spelled
  have plainMark : literal.radix.mark.filter (· != '_') = literal.radix.mark := by
    cases literal.radix <;> rfl
  refine ⟨sign, _, isSign, isRun.withoutUnderscores, ?_⟩
  rw [List.filter_append, List.filter_append, isSign.withoutUnderscores, plainMark]

theorem IsText.withoutUnderscores (isText : literal.IsText text) :
    literal.IsText (String.ofList (text.toList.filter (· != '_'))) := by
  rw [IsText, String.toList_ofList]
  rcases isText with spelled | ⟨characters, spelled, same⟩
  · exact .inl spelled.withoutUnderscores
  · refine .inr ⟨_, spelled.withoutUnderscores, ?_⟩
    rw [same, List.filter_append]
    rfl

/-- Two literals that differ in underscores alone are the same. -/
theorem ofText?_eq_of_withoutUnderscores {other : String} (isLiteral : isIntLiteral text = true)
    (isLiteral' : isIntLiteral other = true)
    (same : other.toList.filter (· != '_') = text.toList.filter (· != '_')) :
    ofText? other = ofText? text := by
  obtain ⟨literal, reads⟩ := Option.isSome_iff_exists.mp isLiteral
  obtain ⟨literal', reads'⟩ := Option.isSome_iff_exists.mp isLiteral'
  have plain := (ofText?_eq_some_iff.mp reads).withoutUnderscores.ofText?
  have plain' := (ofText?_eq_some_iff.mp reads').withoutUnderscores.ofText?
  rw [reads, reads', ← plain, ← plain', same]

theorem SpelledBy.plus {characters behind : List Char} (spelled : literal.SpelledBy characters)
    (noMinus : (characters ++ behind).head? ≠ some '-')
    (noPlus : (characters ++ behind).head? ≠ some '+') : literal.SpelledBy ('+' :: characters) := by
  obtain ⟨sign, run, isSign, isRun, rfl⟩ := spelled
  rw [List.append_assoc] at noMinus noPlus
  obtain ⟨positive, rfl⟩ := isSign.eq_nil_of_unsigned noMinus noPlus
  exact ⟨['+'], run, positive ▸ .plus, isRun, rfl⟩

/-- A text without a sign is the same literal behind a plus sign. -/
theorem IsText.plus (isText : literal.IsText text) (noMinus : text.toList.head? ≠ some '-')
    (noPlus : text.toList.head? ≠ some '+') : literal.IsText ("+" ++ text) := by
  have isWhole : ("+" ++ text).toList = '+' :: text.toList := by simp
  rw [IsText, isWhole]
  rcases isText with spelled | ⟨characters, spelled, same⟩
  · rw [← List.append_nil text.toList] at noMinus noPlus
    exact .inl (spelled.plus noMinus noPlus)
  · rw [same] at noMinus noPlus
    exact .inr ⟨_, spelled.plus noMinus noPlus, by rw [same]; rfl⟩

/-- Whether a text is the spelling of a literal, and another is the same spelling with
zeros put in front of the digits. -/
def PaddedBy (literal : IntLiteral) (zeros : Nat) (text padded : String) : Prop :=
  ∃ sign run final, SignOf literal.negative sign ∧ DigitRun literal.radix run literal.digits ∧
    (final = [] ∨ final = ['\n']) ∧
    text.toList = sign ++ (literal.radix.mark ++ run) ++ final ∧
    padded.toList =
      sign ++ (literal.radix.mark ++ (List.replicate zeros '0' ++ run)) ++ final

theorem isText_of_final {characters final : List Char} (spelled : literal.SpelledBy characters)
    (isFinal : final = [] ∨ final = ['\n']) (same : text.toList = characters ++ final) :
    literal.IsText text := by
  rcases isFinal with rfl | rfl
  · rw [List.append_nil] at same
    exact .inl (same ▸ spelled)
  · exact .inr ⟨characters, spelled, same⟩

/-- Zeros in front of the digits do not change the value. -/
theorem PaddedBy.parseInt_eq {padded : String} {zeros : Nat}
    (isPadded : literal.PaddedBy zeros text padded)
    (short : literal.radix = .decimal → zeros + literal.digits.length ≤ digitLimit) :
    parseInt padded = parseInt text := by
  obtain ⟨sign, run, final, isSign, isRun, isFinal, isText, isText'⟩ := isPadded
  let withZeros : IntLiteral :=
    ⟨literal.negative, literal.radix, List.replicate zeros 0 ++ literal.digits⟩
  have spelled : literal.IsText text :=
    isText_of_final ⟨sign, run, isSign, isRun, rfl⟩ isFinal isText
  have spelled' : withZeros.IsText padded :=
    isText_of_final ⟨sign, _, isSign, isRun.zeros_append zeros, rfl⟩ isFinal isText'
  have sameValue : withZeros.value = literal.value := by
    simp only [value, withZeros, Radix.value_zeros_append]
  rw [spelled.parseInt fun isDecimal => (Nat.le_add_left _ _).trans (short isDecimal),
    spelled'.parseInt fun isDecimal => by simpa [withZeros] using short isDecimal, sameValue]

end IntLiteral

theorem isIntLiteral_iff (text : String) :
    isIntLiteral text = true ↔ ∃ literal : IntLiteral, literal.IsText text := by
  simp only [isIntLiteral, Option.isSome_iff_exists, IntLiteral.ofText?_eq_some_iff]

theorem parseInt_eq_ok_iff (text : String) (number : Int) :
    parseInt text = .ok number ↔ ∃ literal : IntLiteral, literal.IsText text ∧
      (literal.radix = .decimal → literal.digits.length ≤ digitLimit) ∧
        number = literal.value := by
  constructor
  · intro reads
    obtain ⟨literal, isLiteral, short, rfl⟩ := exists_of_parseInt reads
    refine ⟨literal, IntLiteral.ofText?_eq_some_iff.mp isLiteral, fun isDecimal => ?_, rfl⟩
    simpa [IntLiteral.isTooLong, isDecimal] using short
  · rintro ⟨literal, isText, short, rfl⟩
    exact isText.parseInt short

/-- What a literal is read as depends on the literal alone. -/
theorem parseInt_congr {text other : String} (isLiteral : isIntLiteral text = true)
    (same : IntLiteral.ofText? other = IntLiteral.ofText? text) :
    parseInt other = parseInt text := by
  obtain ⟨literal, reads⟩ := Option.isSome_iff_exists.mp isLiteral
  rw [parseInt, parseInt, same, reads]

theorem IntLiteral.value_eq_ofDigits (literal : IntLiteral) :
    literal.value = (if literal.negative then -1 else 1) *
      (Nat.ofDigits literal.radix.base literal.digits.reverse : Nat) := by
  rw [value, Radix.value_eq_ofDigits]
  split <;> simp

/-- Integer literals are recognized and valued exactly.  A text is a literal exactly if the
grammar spells it, and it is read exactly if it is no decimal literal beyond the length
limit, as its sign times the positional value of its digits.  Underscores, a plus sign
and leading zeros do not change what is read, and the decimal numeral of a number is
read as the number. -/
theorem integer_literals_exact (text : String) :
    (∀ (radix : Radix) (character : Char) (digit : Nat), radix.digit? character = some digit ↔
        digit < radix.base ∧
          (character = digit.digitChar ∨ character = digit.digitChar.toUpper)) ∧
      (isIntLiteral text = true ↔ ∃ literal : IntLiteral, literal.IsText text) ∧
      (∀ number : Int, parseInt text = .ok number ↔
        ∃ literal : IntLiteral, literal.IsText text ∧
          (literal.radix = .decimal → literal.digits.length ≤ digitLimit) ∧
            number = (if literal.negative then -1 else 1) *
              (Nat.ofDigits literal.radix.base literal.digits.reverse : Nat)) ∧
      (∀ other : String, isIntLiteral text = true → isIntLiteral other = true →
        other.toList.filter (· != '_') = text.toList.filter (· != '_') →
          parseInt other = parseInt text) ∧
      (isIntLiteral text = true → text.toList.head? ≠ some '-' → text.toList.head? ≠ some '+' →
        parseInt ("+" ++ text) = parseInt text) ∧
      (∀ (literal : IntLiteral) (zeros : Nat) (padded : String),
        literal.PaddedBy zeros text padded →
          (literal.radix = .decimal → zeros + literal.digits.length ≤ digitLimit) →
            parseInt padded = parseInt text) ∧
      ∀ number : Int, number.natAbs < 10 ^ digitLimit →
        ∃ numeral, writeInt number = .ok numeral ∧ parseInt numeral = .ok number := by
  refine ⟨fun _ _ _ => Radix.digit?_eq_some_iff, isIntLiteral_iff text, ?_, ?_, ?_, ?_, ?_⟩
  · intro number
    simp only [← IntLiteral.value_eq_ofDigits]
    exact parseInt_eq_ok_iff text number
  · intro other isLiteral isLiteral' same
    exact parseInt_congr isLiteral
      (IntLiteral.ofText?_eq_of_withoutUnderscores isLiteral isLiteral' same)
  · intro isLiteral noMinus noPlus
    obtain ⟨literal, isText⟩ := (isIntLiteral_iff text).mp isLiteral
    exact parseInt_congr isLiteral ((isText.plus noMinus noPlus).ofText?.trans isText.ofText?.symm)
  · exact fun literal zeros padded isPadded short => isPadded.parseInt_eq short
  · intro number small
    cases written : writeInt number with
    | error fault => exact absurd small (not_lt.mpr (writeInt_eq_error_iff.mp written).2)
    | ok numeral => exact ⟨numeral, rfl, (parseInt_of_writeInt written).2⟩

/-- An underscore, a plus sign, zeros and a line feed around twenty-five. -/
theorem parseInt_twentyFive :
    isIntLiteral "2_5\n" = true ∧ parseInt "2_5\n" = .ok 25 ∧
      parseInt "25\n" = parseInt "2_5\n" ∧ parseInt ("+" ++ "2_5\n") = parseInt "2_5\n" ∧
      parseInt "002_5\n" = parseInt "2_5\n" ∧
      ∃ numeral, writeInt (-25) = .ok numeral ∧ parseInt numeral = .ok (-25) := by
  obtain ⟨-, -, -, unseparated, unsigned, padded, readBack⟩ := integer_literals_exact "2_5\n"
  have isPadded : (⟨false, .decimal, [2, 5]⟩ : IntLiteral).PaddedBy 2 "2_5\n" "002_5\n" :=
    ⟨[], ['2', '_', '5'], ['\n'], .none, .apart rfl (.last rfl), .inr rfl, by rfl, by rfl⟩
  have short : (25 : Nat) < 10 ^ digitLimit :=
    (by decide : 25 < 10 ^ 2).trans_le (Nat.pow_le_pow_right (by decide) (by decide))
  exact ⟨by rfl, by rfl, unseparated "25\n" (by rfl) (by rfl) (by decide),
    unsigned (by rfl) (by decide) (by decide), padded _ 2 _ isPadded fun _ => by decide,
    readBack (-25) short⟩

end WatLink
