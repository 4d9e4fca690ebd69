import WatLink.Proofs.InsertedTexts

/-!
# Numbers beyond the limits

Conversions between texts and numbers have limits: on the digits of a decimal
numeral, on the size of a double-precision number, and on the code point of an
escape.  An atom is oversized if one of them can meet it.  What passes insert is
not oversized, unless it writes the number of an oversized atom in another way.
-/

namespace WatLink

/-- Whether the number that an atom holds is beyond a limit. -/
inductive Oversized (text : String) : Prop
  /-- A decimal literal has more digits than can be read. -/
  | digits {literal : IntLiteral} : IntLiteral.ofText? text = some literal →
      literal.isTooLong = true → Oversized text
  /-- A prefixed literal, behind any keys, has more decimal digits than can be
  written. -/
  | numeral {literal : IntLiteral} :
      IntLiteral.ofText? (String.ofList (spanKeys text.toList).2) = some literal →
        literal.radix ≠ .decimal → 10 ^ digitLimit ≤ literal.value.natAbs → Oversized text
  /-- No double-precision number is nearest to an integer literal. -/
  | integer {literal : IntLiteral} : IntLiteral.ofText? text = some literal →
      Binary64.ofInt? literal.value = none → Oversized text
  /-- No double-precision number is nearest to a hexadecimal number. -/
  | hexadecimal : IntLiteral.ofText? text = none →
      Binary64.parse text = .error .hexadecimalTooLarge → Oversized text
  /-- A string literal escapes a negative code point that no machine word
  holds. -/
  | escape {body : String} : unquoted? text = some body →
      StringLiteral.byteLength body = .error .negativeBeyondWord → Oversized text

/-! ## Integers -/

theorem length_toString_le_iff (number : Nat) :
    (toString number).length ≤ digitLimit ↔ number < 10 ^ digitLimit := by
  rw [Nat.toString_eq_repr, Nat.repr_eq_ofList_toDigits, String.length_ofList]
  exact Nat.length_toDigits_le_iff (by decide) (by decide)

theorem writeInt_eq_error_iff {number : Int} {fault : NumeralFault} :
    writeInt number = .error fault ↔ fault = .tooLongToWrite ∧ 10 ^ digitLimit ≤ number.natAbs := by
  unfold writeInt
  split
  · rename_i long
    have large := (length_toString_le_iff number.natAbs).not.mp (not_le.mpr long)
    simp [not_lt.mp large, eq_comm]
  · rename_i short
    have small := (length_toString_le_iff number.natAbs).mp (not_lt.mp short)
    simp [not_le.mpr small]

namespace Radix

theorem value_foldl_lt {radix : Radix} {digits : List Nat}
    (small : ∀ digit ∈ digits, digit < radix.base) (start : Nat) :
    digits.foldl (fun number digit => number * radix.base + digit) start <
      (start + 1) * radix.base ^ digits.length := by
  induction digits generalizing start with
  | nil => simp
  | cons digit rest ih =>
      obtain ⟨smallDigit, smallRest⟩ := List.forall_mem_cons.mp small
      have step : start * radix.base + digit + 1 ≤ (start + 1) * radix.base := by
        rw [Nat.add_mul]
        omega
      calc rest.foldl (fun number digit => number * radix.base + digit) (start * radix.base + digit)
        _ < (start * radix.base + digit + 1) * radix.base ^ rest.length := ih smallRest _
        _ ≤ (start + 1) * radix.base * radix.base ^ rest.length := Nat.mul_le_mul_right _ step
        _ = (start + 1) * radix.base ^ (digit :: rest).length := by
          rw [List.length_cons, pow_succ', Nat.mul_assoc]

theorem digit?_lt {radix : Radix} {character : Char} {digit : Nat}
    (isDigit : radix.digit? character = some digit) : digit < radix.base := by
  simpa using (Option.filter_eq_some_iff.mp isDigit).2

end Radix

namespace IntLiteral

/-- The digits that are read are digits of their radix, and there are no more of
them than characters. -/
theorem bounds_of_readDigits {radix : Radix} {afterDigit : Bool} {characters : List Char}
    {digits : List Nat} (reads : readDigits radix afterDigit characters = some digits) :
    digits.length ≤ characters.length ∧ (∀ digit ∈ digits, digit < radix.base) ∧
      ∀ character ∈ characters, character = '_' ∨ (radix.digit? character).isSome := by
  induction characters generalizing afterDigit digits with
  | nil =>
      cases afterDigit with
      | false => simp [readDigits] at reads
      | true =>
          obtain rfl : [] = digits := by simpa [readDigits] using reads
          simp
  | cons character rest ih =>
      rw [readDigits] at reads
      cases isDigit : radix.digit? character with
      | some digit =>
          simp only [isDigit, Option.map_eq_some_iff] at reads
          obtain ⟨others, readsRest, rfl⟩ := reads
          obtain ⟨short, small, inRest⟩ := ih readsRest
          refine ⟨Nat.succ_le_succ short, List.forall_mem_cons.mpr ⟨Radix.digit?_lt isDigit, small⟩, ?_⟩
          exact List.forall_mem_cons.mpr ⟨.inr (by rw [isDigit]; rfl), inRest⟩
      | none =>
          simp only [isDigit] at reads
          split at reads
          · rename_i isUnderscore
            obtain ⟨short, small, inRest⟩ := ih reads
            refine ⟨Nat.le_succ_of_le short, small, List.forall_mem_cons.mpr ⟨.inl ?_, inRest⟩⟩
            simpa using (Bool.and_eq_true_iff.mp isUnderscore).2
          · cases reads

theorem exists_run_of_readUnsigned {negative : Bool} {characters : List Char}
    {literal : IntLiteral} (reads : readUnsigned negative characters = some literal) :
    ∃ run, run <:+ characters ∧ (literal.radix = .decimal → run = characters) ∧
      readDigits literal.radix false run = some literal.digits := by
  unfold readUnsigned at reads
  split at reads
  · rename_i rest
    obtain ⟨digits, readsRun, rfl⟩ := Option.map_eq_some_iff.mp reads
    exact ⟨rest, ⟨['0', 'x'], rfl⟩, nofun, readsRun⟩
  · rename_i rest
    obtain ⟨digits, readsRun, rfl⟩ := Option.map_eq_some_iff.mp reads
    exact ⟨rest, ⟨['0', 'b'], rfl⟩, nofun, readsRun⟩
  · obtain ⟨digits, readsRun, rfl⟩ := Option.map_eq_some_iff.mp reads
    exact ⟨characters, List.suffix_rfl, fun _ => rfl, readsRun⟩

theorem exists_run_of_readSigned {characters : List Char} {literal : IntLiteral}
    (reads : readSigned characters = some literal) :
    ∃ run, run <:+ characters ∧
      (literal.radix = .decimal → ∀ character ∈ characters, character ∈ ['-', '+'] ++ run) ∧
      readDigits literal.radix false run = some literal.digits := by
  unfold readSigned at reads
  split at reads
  all_goals
    obtain ⟨run, isSuffix, whole, readsRun⟩ := exists_run_of_readUnsigned reads
  · refine ⟨run, isSuffix.trans (List.suffix_cons _ _), fun isDecimal => ?_, readsRun⟩
    rw [whole isDecimal]
    exact List.forall_mem_cons.mpr ⟨by simp, fun _ => List.mem_append_right _⟩
  · refine ⟨run, isSuffix.trans (List.suffix_cons _ _), fun isDecimal => ?_, readsRun⟩
    rw [whole isDecimal]
    exact List.forall_mem_cons.mpr ⟨by simp, fun _ => List.mem_append_right _⟩
  · refine ⟨run, isSuffix, fun isDecimal => ?_, readsRun⟩
    rw [whole isDecimal]
    exact fun _ => List.mem_append_right _

theorem length_dropFinalNewline_le (characters : List Char) :
    (dropFinalNewline characters).length ≤ characters.length := by
  unfold dropFinalNewline
  split
  · simp
  · rfl

/-- A literal has no more digits than its text has characters, and a decimal one
is below the power of ten for their number. -/
theorem bounds_of_ofText? {text : String} {literal : IntLiteral}
    (reads : ofText? text = some literal) :
    literal.digits.length ≤ text.toList.length ∧
      (literal.radix = .decimal → literal.value.natAbs < 10 ^ literal.digits.length) := by
  obtain ⟨run, isSuffix, -, readsRun⟩ := exists_run_of_readSigned reads
  obtain ⟨short, small, -⟩ := bounds_of_readDigits readsRun
  refine ⟨?_, fun isDecimal => ?_⟩
  · exact short.trans (isSuffix.length_le.trans (length_dropFinalNewline_le _))
  · have below := Radix.value_foldl_lt small 0
    have magnitude : literal.value.natAbs = literal.radix.value literal.digits := by
      unfold value
      split <;> simp
    rw [magnitude]
    simpa [isDecimal, Radix.base, Radix.value] using below

/-- A decimal literal is written with signs, digits and underscores. -/
theorem characters_of_decimal {text : String} {literal : IntLiteral}
    (reads : ofText? text = some literal) (isDecimal : literal.radix = .decimal) {character : Char}
    (member : character ∈ text.toList) :
    character ∈ ['\n', '-', '+', '_'] ∨ (Radix.decimal.digit? character).isSome := by
  obtain ⟨run, -, whole, readsRun⟩ := exists_run_of_readSigned reads
  have inRun := (bounds_of_readDigits readsRun).2.2
  rw [isDecimal] at inRun
  have inText : character = '\n' ∨ character ∈ dropFinalNewline text.toList := by
    unfold dropFinalNewline
    split
    · rename_i ends
      obtain ⟨front, same⟩ := List.getLast?_eq_some_iff.mp ends
      rw [same, List.mem_append, List.mem_singleton] at member
      rw [same, List.dropLast_concat]
      exact member.symm
    · exact .inr member
  rcases inText with rfl | inDropped
  · exact .inl (by simp)
  · rcases List.mem_append.mp (whole isDecimal character inDropped) with isSign | isDigit
    · refine .inl ?_
      simp only [List.mem_cons, List.not_mem_nil, or_false] at isSign ⊢
      exact .inr (isSign.imp id .inl)
    · rcases inRun character isDigit with rfl | isDigit
      · exact .inl (by simp)
      · exact .inr isDigit

end IntLiteral

/-! ## Double-precision numbers -/

theorem floorLog2_one_le (numerator : Nat) : floorLog2 numerator 1 ≤ numerator.log2 := by
  have noBits : Nat.log2 1 = 0 := by decide
  unfold floorLog2
  simp only [noBits]
  split <;> simp

theorem log2_lt_of_lt {number bits : Nat} (positive : 0 < bits) (below : number < 2 ^ bits) :
    number.log2 < bits := by
  by_cases isZero : number = 0
  · rw [isZero]
    exact positive
  · exact (Nat.log2_lt isZero).mpr below

theorem BinaryFormat.nearest_ne_none {format : BinaryFormat} {numerator denominator : Nat}
    (low : format.minExponent < format.maxExponent)
    (high : floorLog2 numerator denominator - (format.precision - 1) < format.maxExponent) :
    format.nearest numerator denominator ≠ none := by
  unfold nearest
  split
  · simp
  · dsimp only
    have inRange := max_lt low high
    generalize max format.minExponent _ = exponent at inRange
    by_cases carries : roundQuotient (divideByPowerOfTwo numerator denominator exponent).1
        (divideByPowerOfTwo numerator denominator exponent).2 = Nat.pow 2 format.precision
    · have inRange' : ¬ format.maxExponent < exponent + 1 := by omega
      simp only [if_pos carries, if_neg inRange', ne_eq, reduceCtorEq, not_false_eq_true]
    · have inRange' : ¬ format.maxExponent < exponent := by omega
      simp only [if_neg carries, if_neg inRange', ne_eq, reduceCtorEq, not_false_eq_true]

/-- Integers of up to two hundred bits have a nearest double-precision number. -/
theorem Binary64.ofInt?_ne_none {number : Int} (small : number.natAbs < 2 ^ 200) :
    Binary64.ofInt? number ≠ none := by
  have bits := log2_lt_of_lt (by decide) small
  have exponent_le := floorLog2_one_le number.natAbs
  simp only [ofInt?, ofQuotient?, ne_eq, Option.map_eq_none_iff]
  refine BinaryFormat.nearest_ne_none (by decide) ?_
  simp only [doubleFormat]
  omega

/-! ## Floating-point literals -/

/-- Only a text with a radix mark is a hexadecimal number that is too large. -/
theorem Binary64.mem_of_hexadecimalTooLarge {text : String}
    (tooLarge : Binary64.parse text = .error .hexadecimalTooLarge) : 'x' ∈ text.toList := by
  unfold Binary64.parse at tooLarge
  dsimp only at tooLarge
  split at tooLarge
  · cases tooLarge
  · split at tooLarge
    · cases tooLarge
    · split at tooLarge
      · rename_i rest body_eq
        have inBody : 'x' ∈ (text.toList.filter (· != '_')).dropWhile
            fun character => character == '+' || character == '-' := by
          rw [body_eq]
          simp
        exact List.mem_of_mem_filter ((List.dropWhile_sublist _).mem inBody)
      · split at tooLarge <;> cases tooLarge

/-! ## Bare texts -/

theorem head?_of_unquoted? {text body : String} (isLiteral : unquoted? text = some body) :
    text.toList.head? = some '"' := by
  unfold unquoted? at isLiteral
  split at isLiteral
  · rename_i isString
    unfold isStringLiteral at isString
    split at isString
    · rename_i starts
      rw [starts]
      rfl
    · cases isString
  · cases isLiteral

/-- Of the bare texts only decimal literals can be oversized. -/
theorem IsBare.oversized_cases {text : String} (bare : IsBare text) (oversized : Oversized text) :
    ∃ literal, IntLiteral.ofText? text = some literal ∧ literal.radix = .decimal ∧
      (literal.isTooLong = true ∨ Binary64.ofInt? literal.value = none) := by
  have isDecimal : ∀ literal, IntLiteral.ofText? text = some literal → literal.radix = .decimal := by
    intro literal reads
    refine readSigned_decimal ⟨fun member => ?_, fun member => ?_⟩ reads
    · exact bare.not_mem (by simp) (mem_of_mem_dropFinalNewline member)
    · exact bare.not_mem (by simp) (mem_of_mem_dropFinalNewline member)
  cases oversized with
  | @digits literal reads tooLong => exact ⟨literal, reads, isDecimal literal reads, .inl tooLong⟩
  | @integer literal reads tooLarge => exact ⟨literal, reads, isDecimal literal reads, .inr tooLarge⟩
  | @numeral literal reads notDecimal =>
      have spelled := bare.decimalSpelling?
      simp [WatLink.decimalSpelling?, reads, notDecimal] at spelled
  | hexadecimal _ tooLarge =>
      exact absurd (Binary64.mem_of_hexadecimalTooLarge tooLarge) (bare.not_mem (by simp))
  | escape isLiteral =>
      have starts := List.mem_of_head? (head?_of_unquoted? isLiteral)
      exact absurd rfl (bare.characters '"' starts).1.2.2.2

/-- The greatest length of an integer literal that is surely within all
limits. -/
def safeLength : Nat := 60

/-- A bare text is not oversized if it is no integer literal or a short one. -/
theorem IsBare.not_oversized {text : String} (bare : IsBare text)
    (short : ∀ literal, IntLiteral.ofText? text = some literal → literal.radix = .decimal →
      text.toList.length ≤ safeLength) : ¬ Oversized text := by
  intro oversized
  obtain ⟨literal, reads, isDecimal, beyond⟩ := bare.oversized_cases oversized
  obtain ⟨few, below⟩ := IntLiteral.bounds_of_ofText? reads
  have fewDigits := few.trans (short literal reads isDecimal)
  rcases beyond with tooLong | tooLarge
  · simp only [IntLiteral.isTooLong, Bool.and_eq_true, decide_eq_true_eq] at tooLong
    have limits : safeLength ≤ digitLimit := by decide
    omega
  · refine Binary64.ofInt?_ne_none ?_ tooLarge
    calc literal.value.natAbs
      _ < 10 ^ literal.digits.length := below isDecimal
      _ ≤ 10 ^ safeLength := Nat.pow_le_pow_right (by decide) fewDigits
      _ ≤ 2 ^ 200 := by decide

theorem length_decimalNumeral_le (number : Int) {count : Nat} (positive : 0 < count)
    (small : number.natAbs < 10 ^ count) :
    (decimalNumeral number).toList.length ≤ count + 1 := by
  have digits := (Nat.length_toDigits_le_iff (by decide : 1 < 10) positive).mpr small
  rw [toList_decimalNumeral, List.length_append]
  split <;> simp <;> omega

namespace DecimalStyle

/-- A number is laid out with a point, with an exponent, or within the limit for
positions. -/
theorem layout_cases (style : DecimalStyle) (digits : List Char) (exponent : Int) :
    '.' ∈ style.layout digits exponent ∨ 'e' ∈ style.layout digits exponent ∨
      (style.layout digits exponent).length ≤ style.positionalLimit.toNat := by
  unfold layout
  split
  · match digits with
    | [] => exact .inr (.inr (by simp))
    | [first] => exact .inr (.inl (by simp [exponentMark]))
    | first :: second :: rest => exact .inl (by simp)
  · rename_i inPlaces
    split
    · exact .inl (by simp)
    · dsimp only
      split
      · split
        · exact .inl (by simp)
        · refine .inr (.inr ?_)
          simp only [List.length_append, List.length_take, List.length_replicate]
          omega
      · exact .inl (by simp)

theorem spell_cases (style : DecimalStyle) (negative : Bool) (decimal : Decimal) :
    '.' ∈ (style.spell negative decimal).toList ∨ 'e' ∈ (style.spell negative decimal).toList ∨
      (style.spell negative decimal).toList.length ≤ style.positionalLimit.toNat + 1 := by
  have inside : ∀ characters : List Char,
      ('.' ∈ characters ∨ 'e' ∈ characters ∨ characters.length ≤ style.positionalLimit.toNat) →
      '.' ∈ (if negative then ['-'] else []) ++ characters ∨
        'e' ∈ (if negative then ['-'] else []) ++ characters ∨
        ((if negative then ['-'] else []) ++ characters).length ≤ style.positionalLimit.toNat + 1 := by
    intro characters laidOut
    rcases laidOut with point | mark | short
    · exact .inl (List.mem_append_right _ point)
    · exact .inr (.inl (List.mem_append_right _ mark))
    · refine .inr (.inr ?_)
      rw [List.length_append]
      split <;> simp <;> omega
  simp only [spell, String.toList_ofList]
  refine inside _ ?_
  split
  · exact layout_cases _ _ _
  · exact layout_cases _ _ _

/-- A spelling that is an integer literal is short. -/
theorem length_spell_le {style : DecimalStyle} {negative : Bool} {decimal : Decimal}
    {literal : IntLiteral}
    (reads : IntLiteral.ofText? (style.spell negative decimal) = some literal)
    (isDecimal : literal.radix = .decimal) :
    (style.spell negative decimal).toList.length ≤ style.positionalLimit.toNat + 1 := by
  rcases spell_cases style negative decimal with point | mark | short
  · exact absurd (IntLiteral.characters_of_decimal reads isDecimal point) (by decide)
  · exact absurd (IntLiteral.characters_of_decimal reads isDecimal mark) (by decide)
  · exact short

end DecimalStyle

theorem Binary64.length_spell_le {precision : Precision} {number : Binary64}
    {literal : IntLiteral} (reads : IntLiteral.ofText? (number.spell precision) = some literal)
    (isDecimal : literal.radix = .decimal) :
    (number.spell precision).toList.length ≤ safeLength := by
  have shortest : IntLiteral.ofText? number.spellShortest = some literal →
      number.spellShortest.toList.length ≤ safeLength := fun readsShortest =>
    (DecimalStyle.length_spell_le readsShortest isDecimal).trans (by decide)
  by_cases isNaN : number.isNaN = true
  · simp only [Binary64.spell, isNaN, if_true]
    split <;> decide
  · by_cases isInfinite : number.isInfinite = true
    · simp only [Binary64.spell, isNaN, isInfinite, if_true]
      simp only [Bool.false_eq_true, if_false]
      split <;> decide
    · simp only [Binary64.spell, isNaN, isInfinite, Bool.false_eq_true, if_false] at reads ⊢
      cases precision with
      | double => exact shortest reads
      | single =>
          cases found : number.spellSingle? with
          | none =>
              rw [found] at reads
              exact shortest reads
          | some text =>
              rw [found] at reads
              obtain ⟨index, inRange, spelled⟩ := List.exists_of_findSome?_eq_some found
              have below : index < 17 := List.mem_range.mp inRange
              dsimp only at spelled
              split at spelled
              · cases spelled
                refine (DecimalStyle.length_spell_le reads isDecimal).trans ?_
                simp only [DecimalStyle.significant, safeLength]
                omega
              · cases spelled

/-- Folded constants and their instructions are not oversized. -/
theorem not_oversized_of_inserts {text : String} (inserts : Pass.Inserts .foldConstants text) :
    ¬ Oversized text := by
  refine (inserts.isBare_of_ne (by decide)).not_oversized fun literal reads isDecimal => ?_
  cases inserts with
  | constant value =>
      cases value with
      | int width word =>
          have small : word.toInt.natAbs < 10 ^ 20 := by
            have wide : (2 : Int) ^ width.bits ≤ 2 ^ 64 := by cases width <;> decide
            have upper := word.two_mul_toInt_lt
            have lower := word.le_two_mul_toInt
            generalize (2 : Int) ^ width.bits = power at wide upper lower
            omega
          exact (length_decimalNumeral_le _ (by decide) small).trans (by decide)
      | float precision number => exact Binary64.length_spell_le reads isDecimal
  | constantTag type =>
      match type with
      | .int .w32 | .int .w64 | .float .single | .float .double => decide

/-! ## Decimal spellings -/

namespace IntLiteral

/-- A text is no integer literal if its first character cannot start one. -/
theorem ofText?_eq_none {text : String} {first : Char} (starts : text.toList.head? = some first)
    (notMark : first ∉ ['-', '+', '0', '\n']) (noDigit : Radix.decimal.digit? first = none) :
    ofText? text = none := by
  simp only [List.mem_cons, List.not_mem_nil, or_false, not_or] at notMark
  obtain ⟨noMinus, noPlus, noZero, noNewline⟩ := notMark
  obtain ⟨rest, text_eq⟩ := List.head?_eq_some_iff.mp starts
  obtain ⟨rest', dropped⟩ : ∃ rest', dropFinalNewline (first :: rest) = first :: rest' := by
    unfold dropFinalNewline
    split
    · cases rest with
      | nil =>
          rename_i ends
          exact absurd (by simpa using ends) noNewline
      | cons second others => exact ⟨_, rfl⟩
    · exact ⟨rest, rfl⟩
  have unread : readDigits .decimal false (first :: rest') = none := by
    simp [readDigits, noDigit]
  rw [ofText?, text_eq, dropped]
  simp [readSigned, readUnsigned, noMinus, noPlus, noZero, unread]

/-- No keys stand before an integer literal. -/
theorem spanKeys_of_ofText? {text : String} {literal : IntLiteral}
    (reads : ofText? text = some literal) : (spanKeys text.toList).2 = text.toList := by
  have noKey : text.toList.head? ≠ some 'o' ∧ text.toList.head? ≠ some 'a' := by
    constructor
    all_goals
      intro starts
      rw [ofText?_eq_none starts (by decide) (by decide)] at reads
      cases reads
  unfold spanKeys
  split
  · rename_i starts
    exact absurd (by rw [starts]; rfl) noKey.1
  · rename_i starts
    exact absurd (by rw [starts]; rfl) noKey.2
  · rfl

end IntLiteral

theorem head?_spanKeys (characters : List Char) :
    (spanKeys characters).1 = [] ∨ (spanKeys characters).1.head? = some 'o' ∨
      (spanKeys characters).1.head? = some 'a' := by
  unfold spanKeys
  split
  · exact .inr (.inl rfl)
  · exact .inr (.inr rfl)
  · exact .inl rfl

/-- The decimal spelling of a text that is not oversized is not, either: it is the
same number. -/
theorem not_oversized_of_spelling {text inserted : String}
    (spelled : decimalSpelling? text = some (.ok inserted)) (moderate : ¬ Oversized text) :
    ¬ Oversized inserted := by
  obtain ⟨literal, reads, notDecimal, written⟩ := exists_of_decimalSpelling? spelled
  cases numeral_eq : writeInt literal.value with
  | error fault => simp [numeral_eq, Except.map] at written
  | ok numeral =>
      obtain ⟨rfl, readsBack⟩ := parseInt_of_writeInt numeral_eq
      simp only [numeral_eq, Except.map, Except.ok.injEq] at written
      subst written
      have bare : IsBare (String.ofList (spanKeys text.toList).1 ++ decimalNumeral literal.value) :=
        (isBare_decimalNumeral _).behind (bare_of_mem_keys _)
      intro oversized
      obtain ⟨literal', reads', -, beyond⟩ := bare.oversized_cases oversized
      have noLiteral : ∀ first, (spanKeys text.toList).1.head? = some first →
          (String.ofList (spanKeys text.toList).1 ++ decimalNumeral literal.value).toList.head? =
            some first := by
        intro first starts
        simp [starts]
      rcases head?_spanKeys text.toList with noKeys | starts | starts
      · have text_eq : (spanKeys text.toList).2 = text.toList := by
          have whole := spanKeys_append text.toList
          rwa [noKeys, List.nil_append] at whole
        rw [text_eq, String.ofList_toList] at reads
        rw [noKeys, String.ofList_nil, String.empty_append] at reads'
        have same := (isText_decimalNumeral literal.value).ofText?.symm.trans reads'
        cases same
        rcases beyond with tooLong | tooLarge
        · simp [parseInt, reads', tooLong] at readsBack
        · rw [value_decimalLiteral] at tooLarge
          exact moderate (.integer reads tooLarge)
      · rw [IntLiteral.ofText?_eq_none (noLiteral 'o' starts) (by decide) (by decide)] at reads'
        cases reads'
      · rw [IntLiteral.ofText?_eq_none (noLiteral 'a' starts) (by decide) (by decide)] at reads'
        cases reads'

/-! ## Inlined files -/

namespace StringLiteral

theorem isHexDigit_of_mem_hexPadded {width number : Nat} {character : Char}
    (member : character ∈ Text.hexPadded width number) : isHexDigit character = true := by
  have allDigits : ∀ digit < 16, isHexDigit (Nat.digitChar digit) = true := by decide
  rcases List.mem_append.mp member with inPadding | isDigit
  · obtain ⟨-, rfl⟩ := List.mem_replicate.mp inPadding
    decide
  · obtain ⟨digit, small, rfl⟩ := exists_digit_of_mem_toDigits (by decide) isDigit
    exact allDigits digit small

theorem hexPadded_byte (byte : UInt8) :
    ∃ first second, Text.hexPadded 2 byte.toNat = [first, second] := by
  have few : (Nat.toDigits 16 byte.toNat).length ≤ 2 :=
    (Nat.length_toDigits_le_iff (by decide) (by decide)).mpr byte.toNat_lt
  refine List.length_eq_two.mp ?_
  rw [Text.hexPadded, List.length_append, List.length_replicate]
  omega

theorem countFrom_bytes (count : Nat) (bytes : Bytes) :
    countFrom count .plain (bytes.flatMap fun byte => '\\' :: Text.hexPadded 2 byte.toNat) =
      .ok (count + bytes.length) := by
  induction bytes generalizing count with
  | nil => rfl
  | cons byte rest ih =>
      obtain ⟨first, second, padded⟩ := hexPadded_byte byte
      have areDigits : ∀ character ∈ [first, second], isHexDigit character = true := by
        rw [← padded]
        exact fun _ => isHexDigit_of_mem_hexPadded
      have isFirst := areDigits first (by simp)
      have isSecond := areDigits second (by simp)
      rw [List.flatMap_cons, padded, List.cons_append, List.cons_append, List.cons_append,
        List.nil_append]
      simp only [countFrom, isFirst, isSecond, if_true, ih, List.length_cons]
      congr 1
      omega

theorem unquoted?_ofBytes (bytes : Bytes) :
    unquoted? (ofBytes bytes) =
      some (String.ofList (bytes.flatMap fun byte => '\\' :: Text.hexPadded 2 byte.toNat)) := by
  have isLiteral : isStringLiteral (ofBytes bytes) = true := by
    simp [isStringLiteral, ofBytes]
  rw [unquoted?, if_pos isLiteral]
  simp [ofBytes]

/-- A literal of some bytes denotes as many bytes. -/
theorem byteLength_ofBytes (bytes : Bytes) {body : String}
    (isBody : unquoted? (ofBytes bytes) = some body) : byteLength body = .ok bytes.length := by
  rw [unquoted?_ofBytes] at isBody
  cases isBody
  rw [byteLength, String.toList_ofList, countFrom_bytes, Nat.zero_add]

theorem not_oversized_ofBytes (bytes : Bytes) : ¬ Oversized (ofBytes bytes) := by
  have starts := head_ofBytes bytes
  have noLiteral := IntLiteral.ofText?_eq_none starts (by decide) (by decide)
  obtain ⟨rest, text_eq⟩ := List.head?_eq_some_iff.mp starts
  intro oversized
  cases oversized with
  | digits reads => simp [noLiteral] at reads
  | integer reads => simp [noLiteral] at reads
  | numeral reads =>
      have noKeys : (spanKeys (ofBytes bytes).toList).2 = (ofBytes bytes).toList := by
        rw [text_eq]
        rfl
      rw [noKeys, String.ofList_toList, noLiteral] at reads
      cases reads
  | hexadecimal _ tooLarge =>
      have inText := Binary64.mem_of_hexadecimalTooLarge tooLarge
      simp only [ofBytes, String.toList_ofList, List.cons_append, List.mem_cons, List.mem_append,
        List.mem_flatMap, List.not_mem_nil, or_false] at inText
      rcases inText with isQuote | ⟨byte, -, isBackslash | isDigit⟩ | isQuote
      · cases isQuote
      · cases isBackslash
      · exact absurd (isHexDigit_of_mem_hexPadded isDigit) (by decide)
      · cases isQuote
  | escape isBody beyond =>
      rw [byteLength_ofBytes bytes isBody] at beyond
      cases beyond

end StringLiteral

end WatLink
