import WatLink.Proofs.NumberLimits
import WatLink.Proofs.SeventeenDigits
import WatLink.Proofs.StringEscapes

/-!
# Spelled decimals

The grammar of the decimals that numbers are spelled with, stated without the
layout and without the reader: digits, behind a point maybe more digits, and maybe
an exponent.  Every decimal is laid out in this grammar, with its value, and every
text of the grammar is read as the number nearest to its value.
-/

namespace WatLink

/-! ## Digits -/

/-- Characters that are all decimal digits. -/
def AllDigits (characters : List Char) : Prop :=
  ∀ character ∈ characters, character ∈ "0123456789".toList

/-- The digits that characters stand for. -/
def digitsOf (characters : List Char) : List Nat :=
  characters.map fun character => character.toNat - '0'.toNat

/-- The number that decimal digits spell. -/
def numeralValue (characters : List Char) : Nat :=
  Radix.decimal.value (digitsOf characters)

section Digits

variable {characters first second : List Char}

theorem allDigits_append : AllDigits (first ++ second) ↔ AllDigits first ∧ AllDigits second :=
  List.forall_mem_append

theorem allDigits_zeros (count : Nat) : AllDigits (List.replicate count '0') := by
  intro character member
  rw [List.eq_of_mem_replicate member]
  decide

theorem allDigits_toDigits (number : Nat) : AllDigits (Nat.toDigits 10 number) := by
  intro character member
  obtain ⟨digit, small, rfl⟩ := exists_digit_of_mem_toDigits (by decide) member
  have allListed : ∀ digit < 10, Nat.digitChar digit ∈ "0123456789".toList := by decide
  exact allListed digit small

theorem isDigit_of_listed {character : Char} (listed : character ∈ "0123456789".toList) :
    character.isDigit = true :=
  List.all_eq_true.mp (by decide : "0123456789".toList.all Char.isDigit = true) character listed

theorem foldl_value (digits : List Nat) (start : Nat) :
    digits.foldl (fun number digit => number * 10 + digit) start =
      start * 10 ^ digits.length + Radix.decimal.value digits := by
  unfold Radix.value
  induction digits generalizing start with
  | nil => simp
  | cons digit rest ih =>
      simp only [List.foldl_cons, Radix.base, List.length_cons] at ih ⊢
      rw [ih, ih (0 * 10 + digit)]
      ring

theorem numeralValue_append (first second : List Char) :
    numeralValue (first ++ second) =
      numeralValue first * 10 ^ second.length + numeralValue second := by
  have step := foldl_value (digitsOf second) (numeralValue first)
  simp only [numeralValue, digitsOf, Radix.value, Radix.base, List.map_append, List.foldl_append,
    List.length_map] at step ⊢
  exact step

theorem numeralValue_zeros (count : Nat) : numeralValue (List.replicate count '0') = 0 := by
  induction count with
  | zero => rfl
  | succ count ih =>
      rw [List.replicate_succ', numeralValue_append, ih]
      rfl

theorem numeralValue_append_zeros (characters : List Char) (count : Nat) :
    numeralValue (characters ++ List.replicate count '0') =
      numeralValue characters * 10 ^ count := by
  rw [numeralValue_append, numeralValue_zeros, List.length_replicate, Nat.add_zero]

theorem numeralValue_toDigits (number : Nat) : numeralValue (Nat.toDigits 10 number) = number :=
  value_decimalDigits number

/-- Digits are split off as far as they go. -/
theorem spanDigits_append (allDigits : AllDigits first)
    (stops : ∀ character ∈ second.head?, Radix.decimal.digit? character = none) :
    Text.spanDigits .decimal (first ++ second) = (digitsOf first, second) := by
  induction first with
  | nil =>
      cases second with
      | nil => rfl
      | cons character rest => simp [Text.spanDigits, digitsOf, stops character (by simp)]
  | cons digit rest ih =>
      have isDigit := Radix.digit?_decimal (isDigit_of_listed (allDigits digit (by simp)))
      have inRest := ih fun character member => allDigits character (by simp [member])
      simp only [Text.spanDigits, Prod.mk.injEq] at inRest
      simp [Text.spanDigits, digitsOf, isDigit, inRest]

theorem spanDigits_digits (allDigits : AllDigits first) :
    Text.spanDigits .decimal first = (digitsOf first, []) := by
  simpa using @spanDigits_append first [] allDigits (by simp)

end Digits

/-! ## Exponents -/

theorem spanExponent?_exponentMark (exponent : Int) :
    Text.spanExponent? (DecimalStyle.exponentMark exponent).tail = some (exponent, []) := by
  generalize padded_eq : List.replicate (2 - (Nat.toDigits 10 exponent.natAbs).length) '0' ++
    Nat.toDigits 10 exponent.natAbs = padded
  have allDigits : AllDigits padded := by
    rw [← padded_eq]
    exact allDigits_append.mpr ⟨allDigits_zeros _, allDigits_toDigits _⟩
  have value_eq : Radix.decimal.value (digitsOf padded) = exponent.natAbs := by
    have value := numeralValue_append
      (List.replicate (2 - (Nat.toDigits 10 exponent.natAbs).length) '0')
      (Nat.toDigits 10 exponent.natAbs)
    rw [numeralValue_zeros, numeralValue_toDigits, Nat.zero_mul, Nat.zero_add, padded_eq] at value
    exact value
  have nonempty : digitsOf padded ≠ [] := by
    rw [← padded_eq]
    simp [digitsOf]
  obtain ⟨digit, others, digits_eq⟩ := List.exists_cons_of_ne_nil nonempty
  have spans := spanDigits_digits allDigits
  rw [digits_eq] at spans value_eq
  simp only [DecimalStyle.exponentMark, List.tail_cons, padded_eq]
  by_cases negative : exponent < 0
  · simp only [if_pos negative, Text.spanExponent?, Text.spanSign, spans, value_eq, if_true]
    simp only [Option.some.injEq, Prod.mk.injEq, and_true]
    omega
  · simp only [if_neg negative, Text.spanExponent?, Text.spanSign, spans, value_eq]
    simp only [Bool.false_eq_true, if_false, Option.some.injEq, Prod.mk.injEq, and_true]
    omega

/-! ## The grammar -/

/-- A decimal number without a sign, in parts. -/
structure DecimalText where
  integral : List Char
  /-- The digits behind the point, if there is one. -/
  fraction? : Option (List Char)
  /-- The exponent, if it is written. -/
  exponent? : Option Int
  nonempty : integral ≠ []
  allDigits : AllDigits (integral ++ fraction?.getD [])

namespace DecimalText

/-- The characters of a text. -/
def characters (text : DecimalText) : List Char :=
  text.integral ++ (text.fraction?.elim [] ('.' :: ·) ++
    text.exponent?.elim [] DecimalStyle.exponentMark)

/-- The decimal that a text spells. -/
def decimal (text : DecimalText) : Decimal :=
  ⟨numeralValue (text.integral ++ text.fraction?.getD []),
    text.exponent?.getD 0 - (text.fraction?.getD []).length⟩

/-- Whether a text is nothing but digits. -/
def isWhole (text : DecimalText) : Bool :=
  text.fraction?.isNone && text.exponent?.isNone

theorem spanFraction_characters (text : DecimalText) :
    Text.spanFraction .decimal (text.fraction?.elim [] ('.' :: ·) ++
      text.exponent?.elim [] DecimalStyle.exponentMark) =
        (digitsOf (text.fraction?.getD []), text.exponent?.elim [] DecimalStyle.exponentMark) := by
  have fractionDigits := (allDigits_append.mp text.allDigits).2
  cases isFraction : text.fraction? with
  | none =>
      cases text.exponent? with
      | none => rfl
      | some exponent => rfl
  | some fraction =>
      rw [isFraction] at fractionDigits
      apply spanDigits_append fractionDigits
      cases text.exponent? with
      | none => simp
      | some exponent =>
          rintro character (member : some 'e' = some character)
          cases member
          decide

/-- The reader finds the decimal behind each of its spellings. -/
theorem readDecimal?_characters (text : DecimalText) :
    Binary64.readDecimal? text.characters = some text.decimal := by
  have integralDigits := (allDigits_append.mp text.allDigits).1
  have spansIntegral : Text.spanDigits .decimal text.characters =
      (digitsOf text.integral, text.fraction?.elim [] ('.' :: ·) ++
        text.exponent?.elim [] DecimalStyle.exponentMark) := by
    apply spanDigits_append integralDigits
    cases text.fraction? with
    | none =>
        cases text.exponent? with
        | none => simp
        | some exponent =>
            rintro character (member : some 'e' = some character)
            cases member
            decide
    | some fraction =>
        rintro character (member : some '.' = some character)
        cases member
        decide
  have hasDigits : (digitsOf text.integral).isEmpty = false := by
    simp [digitsOf, text.nonempty]
  simp only [Binary64.readDecimal?, spansIntegral, spanFraction_characters, hasDigits,
    Bool.false_and, Bool.false_eq_true, if_false]
  cases isExponent : text.exponent? with
  | none => simp [decimal, isExponent, numeralValue, digitsOf]
  | some exponent =>
      have reads := spanExponent?_exponentMark exponent
      simp only [DecimalStyle.exponentMark, List.tail_cons] at reads
      simp [DecimalStyle.exponentMark, decimal, isExponent, numeralValue, digitsOf, reads]

end DecimalText

/-! ## Layouts -/

theorem Decimal.value_shift (digits zeros : Nat) (exponent : Int) :
    (⟨digits * 10 ^ zeros, exponent⟩ : Decimal).value =
      (⟨digits, exponent + zeros⟩ : Decimal).value := by
  simp only [Decimal.value]
  rw [add_comm, zpow_add₀ (by norm_num), zpow_natCast]
  push_cast
  ring

namespace DecimalStyle

/-- Whether characters are a text of the grammar with the value of a decimal, and one
with a point or an exponent where the style keeps points. -/
def Writes (style : DecimalStyle) (characters : List Char) (decimal : Decimal) : Prop :=
  ∃ text : DecimalText, text.characters = characters ∧ text.decimal.value = decimal.value ∧
    (style.keepsPoint = true → text.isWhole = false)

section Layout

variable {style : DecimalStyle} {digits : List Char} (nonempty : digits ≠ [])
  (allDigits : AllDigits digits)
include nonempty allDigits

omit nonempty in
theorem writes_behind_zeros (zeros : Nat) :
    style.Writes ('0' :: '.' :: (List.replicate zeros '0' ++ digits))
      ⟨numeralValue digits, -(zeros + digits.length : ℕ)⟩ := by
  have filled : AllDigits (['0'] ++ (List.replicate zeros '0' ++ digits)) :=
    allDigits_append.mpr ⟨allDigits_zeros 1, allDigits_append.mpr ⟨allDigits_zeros _, allDigits⟩⟩
  have value_eq : numeralValue (['0'] ++ (List.replicate zeros '0' ++ digits)) =
      numeralValue digits := by
    rw [← List.append_assoc, ← List.replicate_one, ← List.replicate_add, numeralValue_append,
      numeralValue_zeros, Nat.zero_mul, Nat.zero_add]
  refine ⟨⟨['0'], some (List.replicate zeros '0' ++ digits), none, by simp, filled⟩,
    by simp [DecimalText.characters], ?_, fun _ => rfl⟩
  simp only [DecimalText.decimal, Option.getD_some, Option.getD_none, value_eq]
  simp

theorem writes_before_zeros (zeros : Nat) :
    style.Writes
      (if style.keepsPoint then digits ++ List.replicate zeros '0' ++ ['.', '0']
        else digits ++ List.replicate zeros '0')
      ⟨numeralValue digits, zeros⟩ := by
  have filled : AllDigits (digits ++ List.replicate (zeros + 1) '0') :=
    allDigits_append.mpr ⟨allDigits, allDigits_zeros _⟩
  rw [List.replicate_succ', ← List.append_assoc] at filled
  split
  · refine ⟨⟨digits ++ List.replicate zeros '0', some ['0'], none, by simp [nonempty], filled⟩,
      by simp [DecimalText.characters], ?_, fun _ => rfl⟩
    have value_eq : numeralValue (digits ++ List.replicate zeros '0' ++ ['0']) =
        numeralValue digits * 10 ^ (zeros + 1) := by
      rw [← numeralValue_append_zeros, List.replicate_succ', List.append_assoc]
    simp only [DecimalText.decimal, Option.getD_some, Option.getD_none, value_eq,
      Decimal.value_shift]
    simp
  · rename_i noPoint
    refine ⟨⟨digits ++ List.replicate zeros '0', none, none, by simp [nonempty], ?_⟩,
      by simp [DecimalText.characters], ?_, fun keeps => absurd keeps noPoint⟩
    · simpa using (allDigits_append.mp filled).1
    · simp only [DecimalText.decimal, Option.getD_none, List.append_nil,
        numeralValue_append_zeros, Decimal.value_shift]
      simp

omit nonempty in
theorem writes_divided {whole : Nat} (positive : 0 < whole) (long : whole < digits.length) :
    style.Writes (digits.take whole ++ '.' :: digits.drop whole)
      ⟨numeralValue digits, whole - digits.length⟩ := by
  have split_eq : digits.take whole ++ digits.drop whole = digits := List.take_append_drop _ _
  have hasDigits : digits.take whole ≠ [] := by
    apply List.ne_nil_of_length_pos
    rw [List.length_take]
    omega
  refine ⟨⟨digits.take whole, some (digits.drop whole), none, hasDigits, by simpa [split_eq]⟩,
    by simp [DecimalText.characters], ?_, fun _ => rfl⟩
  have exponent_eq : (0 : ℤ) - (digits.drop whole).length = whole - digits.length := by
    rw [List.length_drop]
    omega
  simp only [DecimalText.decimal, Option.getD_some, Option.getD_none, split_eq, exponent_eq]

/-- Digits are laid out in the grammar, with their value. -/
theorem writes_layout (style : DecimalStyle) (exponent : Int) :
    style.Writes (style.layout digits exponent)
      ⟨numeralValue digits, exponent + 1 - digits.length⟩ := by
  unfold layout
  split
  · match digits, nonempty with
    | [first], _ =>
        refine ⟨⟨[first], none, some exponent, by simp, by simpa using allDigits⟩, rfl, ?_,
          fun _ => rfl⟩
        simp [DecimalText.decimal]
    | first :: second :: rest, _ =>
        refine ⟨⟨[first], some (second :: rest), some exponent, by simp, allDigits⟩, rfl, ?_,
          fun _ => rfl⟩
        simp [DecimalText.decimal]
  · split
    · rename_i isFraction
      convert writes_behind_zeros allDigits (-exponent - 1).toNat using 2
      omega
    · rename_i notFraction
      dsimp only
      split
      · rename_i noFraction
        have short : digits.length ≤ exponent.toNat + 1 := by simpa using noFraction
        rw [List.take_of_length_le short]
        convert writes_before_zeros nonempty allDigits (exponent.toNat + 1 - digits.length) using 2
        omega
      · rename_i hasFraction
        have long : exponent.toNat + 1 < digits.length := by simpa using hasFraction
        have noZeros : exponent.toNat + 1 - digits.length = 0 := by omega
        rw [noZeros, List.replicate_zero, List.append_nil]
        convert writes_divided allDigits (Nat.succ_pos _) long using 2
        omega

end Layout

theorem exists_final_zeros (digits : List Char) :
    ∃ count, digits = withoutFinalZeros digits ++ List.replicate count '0' := by
  have zeros : digits.reverse.takeWhile (· == '0') =
      List.replicate (digits.reverse.takeWhile (· == '0')).length '0' := by
    apply List.eq_replicate_of_mem
    intro character member
    have isZero := List.mem_takeWhile_imp member
    exact eq_of_beq isZero
  refine ⟨(digits.reverse.takeWhile (· == '0')).length, ?_⟩
  rw [withoutFinalZeros, ← List.reverse_replicate, ← zeros, ← List.reverse_append,
    List.takeWhile_append_dropWhile, List.reverse_reverse]

/-- A decimal is spelled in the grammar, with its value. -/
theorem exists_spell (style : DecimalStyle) (negative : Bool) (decimal : Decimal) :
    ∃ characters, style.Writes characters decimal ∧ style.spell negative decimal =
      String.ofList ((if negative then ['-'] else []) ++ characters) := by
  by_cases isZero : decimal.digits = 0
  · refine ⟨style.layout ['0'] 0, ?_, by simp only [spell, if_pos isZero]⟩
    obtain ⟨text, isLayout, value_eq, point⟩ :=
      writes_layout (by simp) (allDigits_zeros 1) style 0
    refine ⟨text, isLayout, ?_, point⟩
    rw [value_eq, Decimal.value_eq_zero_iff.mpr isZero, Decimal.value_eq_zero_iff]
    rfl
  · refine ⟨style.layout (withoutFinalZeros (Nat.toDigits 10 decimal.digits))
      (decimal.exponent + (Nat.toDigits 10 decimal.digits).length - 1), ?_,
        by simp only [spell, if_neg isZero]⟩
    obtain ⟨zeros, digits_eq⟩ := exists_final_zeros (Nat.toDigits 10 decimal.digits)
    have nonempty := withoutFinalZeros_ne_nil isZero
    have allDigits := allDigits_toDigits decimal.digits
    have value_eq := numeralValue_toDigits decimal.digits
    have length_eq := congrArg List.length digits_eq
    generalize withoutFinalZeros (Nat.toDigits 10 decimal.digits) = kept at *
    rw [digits_eq] at allDigits value_eq
    rw [List.length_append, List.length_replicate] at length_eq
    rw [numeralValue_append_zeros] at value_eq
    obtain ⟨text, isLayout, text_eq, point⟩ :=
      writes_layout nonempty (allDigits_append.mp allDigits).1 style
        (decimal.exponent + (Nat.toDigits 10 decimal.digits).length - 1)
    refine ⟨text, isLayout, ?_, point⟩
    rw [text_eq]
    have shifted := Decimal.value_shift (numeralValue kept) zeros decimal.exponent
    rw [value_eq] at shifted
    rw [shifted]
    congr 2
    omega

end DecimalStyle

/-! ## Reading texts of the grammar -/

/-- Characters of the grammar, its signs included. -/
def AllNumeric (characters : List Char) : Prop :=
  ∀ character ∈ characters, character ∈ "0123456789.e+-".toList

theorem AllDigits.allNumeric {characters : List Char} (allDigits : AllDigits characters) :
    AllNumeric characters :=
  fun character member =>
    (by decide : "0123456789".toList ⊆ "0123456789.e+-".toList) (allDigits character member)

namespace AllNumeric

variable {characters : List Char} (allNumeric : AllNumeric characters)
include allNumeric

/-- What holds of the fourteen characters holds of every text. -/
theorem forall_mem {test : Char → Bool} (passes : "0123456789.e+-".toList.all test = true) :
    ∀ character ∈ characters, test character = true :=
  fun character member => List.all_eq_true.mp passes character (allNumeric character member)

theorem not_mem {letter : Char} (other : letter ∉ "0123456789.e+-".toList) :
    letter ∉ characters :=
  fun member => other (allNumeric letter member)

theorem numberCharacters : Text.numberCharacters characters = characters := by
  have noBlanks : "0123456789.e+-".toList.all (!Text.isNumberBlank ·) = true := by decide
  have plainDigits : "0123456789.e+-".toList.all (fun character =>
      (Text.decimalDigit? character).all
        (fun digit => Char.ofNat ('0'.toNat + digit) == character)) = true := by decide
  apply Text.numberCharacters_eq_self
  · intro character member
    simpa using allNumeric.forall_mem noBlanks character member
  · intro character member digit isDigit
    simpa [isDigit] using allNumeric.forall_mem plainDigits character member

end AllNumeric

namespace DecimalText

variable (text : DecimalText)

theorem allNumeric_characters : AllNumeric text.characters := by
  obtain ⟨integralDigits, fractionDigits⟩ := allDigits_append.mp text.allDigits
  have point : '.' ∈ "0123456789.e+-".toList := by decide
  have numericMark : ∀ exponent, AllNumeric (DecimalStyle.exponentMark exponent) := by
    intro exponent
    have sign : (if exponent < 0 then '-' else '+') ∈ "0123456789.e+-".toList := by
      split <;> decide
    apply List.forall_mem_cons.mpr ⟨by decide, List.forall_mem_cons.mpr ⟨sign, ?_⟩⟩
    exact (allDigits_append.mpr ⟨allDigits_zeros _, allDigits_toDigits _⟩).allNumeric
  apply List.forall_mem_append.mpr ⟨integralDigits.allNumeric, List.forall_mem_append.mpr ⟨?_, ?_⟩⟩
  · cases isFraction : text.fraction? with
    | none => simp
    | some fraction =>
        rw [isFraction] at fractionDigits
        exact List.forall_mem_cons.mpr ⟨point, fractionDigits.allNumeric⟩
  · cases text.exponent? with
    | none => simp
    | some exponent => exact numericMark exponent

theorem exists_first : ∃ first rest, text.characters = first :: rest ∧
    first ∈ "0123456789".toList := by
  obtain ⟨first, rest, isIntegral⟩ := List.exists_cons_of_ne_nil text.nonempty
  refine ⟨first, _, by rw [characters, isIntegral]; rfl, ?_⟩
  apply text.allDigits
  simp [isIntegral]

/-- A text with a sign in front of it. -/
def signed (negative : Bool) : String :=
  String.ofList ((if negative then ['-'] else []) ++ text.characters)

theorem toList_signed (negative : Bool) :
    (text.signed negative).toList = (if negative then ['-'] else []) ++ text.characters := by
  rw [signed, String.toList_ofList]

theorem allNumeric_signed (negative : Bool) : AllNumeric (text.signed negative).toList := by
  rw [toList_signed]
  apply List.forall_mem_append.mpr ⟨?_, text.allNumeric_characters⟩
  cases negative
  · simp
  · simp

theorem spanSign_characters : Text.spanSign text.characters = (false, text.characters) := by
  obtain ⟨first, rest, starts, isDigit⟩ := text.exists_first
  rw [starts]
  unfold Text.spanSign
  split
  · rename_i same
    cases same
    exact absurd isDigit (by decide)
  · rename_i same
    cases same
    exact absurd isDigit (by decide)
  · rfl

/-- A text of the grammar is read as the number nearest to its decimal. -/
theorem readDecimalText?_characters :
    Binary64.readDecimalText? (String.ofList text.characters) =
      some (text.decimal.toBinary64 false) := by
  have noWord : ∀ word : String, 'n' ∈ word.toList →
      String.ofList (text.characters.map Char.toLower) ≠ word := by
    rintro word member rfl
    rw [String.toList_ofList] at member
    obtain ⟨character, inText, isLetter⟩ := List.mem_map.mp member
    have noLetter : "0123456789.e+-".toList.all (·.toLower != 'n') = true := by decide
    have other := text.allNumeric_characters.forall_mem noLetter character inText
    rw [isLetter] at other
    exact absurd other (by decide)
  simp only [Binary64.readDecimalText?, String.toList_ofList,
    text.allNumeric_characters.numberCharacters, spanSign_characters, noWord "inf" (by decide),
    noWord "infinity" (by decide), noWord "nan" (by decide), or_self, if_false,
    readDecimal?_characters, Option.map_some]

/-- The sign of a text and what stands behind it. -/
theorem signed_parts (negative : Bool) :
    ((text.signed negative).toList.head? == some '-') = negative ∧
      (text.signed negative).toList.dropWhile
        (fun character => character == '+' || character == '-') = text.characters := by
  obtain ⟨first, rest, starts, isDigit⟩ := text.exists_first
  have noSign : "0123456789".toList.all (fun digit => !(digit == '+' || digit == '-')) = true := by
    decide
  have notSign : ¬ first = '+' ∧ ¬ first = '-' := by
    simpa using List.all_eq_true.mp noSign first isDigit
  rw [toList_signed, starts]
  cases negative <;> simp [notSign]

theorem parse_signed (negative : Bool) (finite : (text.decimal.toBinary64 false).isFinite = true) :
    Binary64.parse (text.signed negative) = .ok (text.decimal.toBinary64 negative) := by
  have allNumeric := text.allNumeric_characters
  have noUnderscores : (text.signed negative).toList.filter (· != '_') =
      (text.signed negative).toList :=
    List.filter_eq_self.mpr ((text.allNumeric_signed negative).forall_mem (by decide))
  obtain ⟨sign_eq, body_eq⟩ := text.signed_parts negative
  have noInfinity : text.characters ≠ ['i', 'n', 'f'] := by
    intro same
    exact allNumeric.not_mem (by decide : 'i' ∉ _) (by simp [same])
  have noNaN : ¬ (text.characters = ['n', 'a', 'n'] ∨
      ['n', 'a', 'n', ':'].isPrefixOf text.characters = true) := by
    rintro (same | isPrefix)
    · exact allNumeric.not_mem (by decide : 'n' ∉ _) (by simp [same])
    · exact allNumeric.not_mem (by decide : 'n' ∉ _)
        ((List.isPrefixOf_iff_prefix.mp isPrefix).subset (by simp))
  simp only [Binary64.parse, noUnderscores, sign_eq, body_eq, if_neg noInfinity, if_neg noNaN]
  split
  · rename_i isHexadecimal
    exact absurd (by simp [isHexadecimal]) (allNumeric.not_mem (by decide : 'x' ∉ _))
  · have product := Binary64.signedOne_mul negative finite
    rw [Decimal.isNegative_toBinary64, Bool.bne_false,
      ← Decimal.toBinary64_eq_ofMagnitude] at product
    rw [readDecimalText?_characters]
    exact congrArg Except.ok product

/-! ## Integers among the texts -/

/-- The integer literal that a text without a point and an exponent is. -/
def literal (negative : Bool) : IntLiteral :=
  ⟨negative, .decimal, digitsOf text.integral⟩

variable {text}

theorem isWhole_iff : text.isWhole = true ↔ text.fraction? = none ∧ text.exponent? = none := by
  simp [isWhole]

theorem characters_of_isWhole (isWhole : text.isWhole = true) :
    text.characters = text.integral := by
  obtain ⟨noFraction, noExponent⟩ := isWhole_iff.mp isWhole
  simp [characters, noFraction, noExponent]

theorem decimal_of_isWhole (isWhole : text.isWhole = true) :
    text.decimal = ⟨numeralValue text.integral, 0⟩ := by
  obtain ⟨noFraction, noExponent⟩ := isWhole_iff.mp isWhole
  simp [decimal, noFraction, noExponent]

theorem isText_signed (isWhole : text.isWhole = true) (negative : Bool) :
    (text.literal negative).IsText (text.signed negative) := by
  have isRun : DigitRun .decimal text.integral (digitsOf text.integral) := by
    apply digitRun_of_digits text.nonempty
    intro character member
    exact isDigit_of_listed (text.allDigits character (List.mem_append_left _ member))
  refine .inl ⟨if negative then ['-'] else [], text.integral, ?_, isRun, ?_⟩
  · cases negative
    · exact .none
    · exact .minus
  · rw [toList_signed, characters_of_isWhole isWhole]
    rfl

/-- A text with a point or an exponent is no integer literal. -/
theorem isIntLiteral_signed (negative : Bool) :
    isIntLiteral (text.signed negative) = text.isWhole := by
  cases isWhole : text.isWhole with
  | true => rw [isIntLiteral, (isText_signed isWhole negative).ofText?, Option.isSome_some]
  | false =>
      have allNumeric : AllNumeric (IntLiteral.dropFinalNewline (text.signed negative).toList) :=
        fun character member =>
          text.allNumeric_signed negative character (mem_of_mem_dropFinalNewline member)
      have mark : '.' ∈ (text.signed negative).toList ∨ 'e' ∈ (text.signed negative).toList := by
        rw [toList_signed, characters]
        cases isFraction : text.fraction? with
        | some fraction => simp
        | none =>
            cases isExponent : text.exponent? with
            | some exponent => simp [DecimalStyle.exponentMark]
            | none => exact absurd (isWhole_iff.mpr ⟨isFraction, isExponent⟩) (by simp [isWhole])
      cases reads : IntLiteral.ofText? (text.signed negative) with
      | none => rw [isIntLiteral, reads, Option.isSome_none]
      | some literal =>
          have isDecimal := readSigned_decimal
            ⟨allNumeric.not_mem (by decide), allNumeric.not_mem (by decide)⟩ reads
          rcases mark with point | exponent
          · exact absurd (IntLiteral.characters_of_decimal reads isDecimal point) (by decide)
          · exact absurd (IntLiteral.characters_of_decimal reads isDecimal exponent) (by decide)

theorem value_literal (negative : Bool) :
    (text.literal negative).value =
      if negative then -(numeralValue text.integral : ℤ) else numeralValue text.integral :=
  rfl

end DecimalText

/-- A whole decimal that is not zero is rounded as the integer is. -/
theorem Decimal.ofInteger_eq {number : Nat} (nonzero : number ≠ 0) (negative : Bool)
    (finite : ((⟨number, 0⟩ : Decimal).toBinary64 negative).isFinite = true) :
    Binary64.ofInteger (if negative then -(number : ℤ) else number) =
      .ok ((⟨number, 0⟩ : Decimal).toBinary64 negative) := by
  have sign_eq : decide ((if negative then -(number : ℤ) else number) < 0) = negative := by
    cases negative
    · simp
    · simp
      omega
  have magnitude_eq : (if negative then -(number : ℤ) else number).natAbs = number := by
    cases negative <;> simp
  have inPlaces := decimalLength_pos number
  have quotient_eq : divideByPowerOfTen number 1 (-0) = (number, 1) := by
    simp [divideByPowerOfTen]
  simp only [Binary64.ofInteger, Binary64.ofInt?, sign_eq, magnitude_eq, Binary64.ofQuotient?]
  unfold toBinary64 nearest at finite ⊢
  simp only [nonzero, false_or, decisiveExponent, quotient_eq] at finite ⊢
  have infinite : (Binary64.infinity negative).isFinite = false := by
    cases negative <;> rfl
  split_ifs at finite ⊢ with tooSmall tooLarge
  · omega
  · simp [infinite] at finite
  · cases rounded : doubleFormat.nearest number 1 with
    | none => simp [rounded, infinite] at finite
    | some parts => rfl

/-! ## Constants -/

namespace DecimalText

variable {text : DecimalText}

/-- A text of the grammar is a literal of the number nearest to its decimal, unless it
is a zero without a point and an exponent: then its sign is lost. -/
theorem literal_signed (precision : Precision) (negative : Bool)
    (finite : (text.decimal.toBinary64 negative).isFinite = true)
    (short : text.isWhole = true → text.integral.length ≤ digitLimit)
    (keepsSign : text.isWhole = true → text.decimal.digits ≠ 0) :
    Constant.literal (.float precision) (text.signed negative) =
      .ok (.float precision (precision.round (text.decimal.toBinary64 negative))) := by
  simp only [Constant.literal, isIntLiteral_signed]
  cases isWhole : text.isWhole with
  | true =>
      have nonzero := keepsSign isWhole
      have fewDigits : (text.literal negative).digits.length ≤ digitLimit := by
        simpa [literal, digitsOf] using short isWhole
      rw [decimal_of_isWhole isWhole] at finite nonzero ⊢
      rw [if_pos rfl, (isText_signed isWhole negative).parseInt fun _ => fewDigits, value_literal]
      dsimp only
      rw [Decimal.ofInteger_eq nonzero negative finite]
  | false =>
      have finite' : (text.decimal.toBinary64 false).isFinite = true := by
        rw [Decimal.toBinary64_eq_ofMagnitude false negative, Binary64.isFinite,
          Binary64.magnitude_ofMagnitude _ (Binary64.magnitude_lt _)]
        exact finite
      rw [if_neg (by decide), parse_signed text negative finite']

end DecimalText

namespace DecimalStyle

/-- The spelling of a decimal is a literal of the number nearest to it, unless it is
the spelling of a zero in a style that keeps no points. -/
theorem literal_spell {style : DecimalStyle} (few : style.positionalLimit.toNat < digitLimit)
    (precision : Precision) {negative : Bool} {decimal : Decimal}
    (finite : (decimal.toBinary64 negative).isFinite = true)
    (keepsSign : style.keepsPoint = true ∨ decimal.digits ≠ 0) :
    Constant.literal (.float precision) (style.spell negative decimal) =
      .ok (.float precision (precision.round (decimal.toBinary64 negative))) := by
  obtain ⟨characters, ⟨text, rfl, value_eq, point⟩, spelled⟩ := style.exists_spell negative decimal
  have spelled : style.spell negative decimal = text.signed negative := spelled
  rw [← Decimal.toBinary64_congr negative value_eq] at finite ⊢
  rw [spelled]
  apply DecimalText.literal_signed precision negative finite
  · intro isWhole
    have reads := (DecimalText.isText_signed isWhole negative).ofText?
    rw [← spelled] at reads
    have short := length_spell_le reads rfl
    rw [spelled, DecimalText.toList_signed, DecimalText.characters_of_isWhole isWhole,
      List.length_append] at short
    omega
  · intro isWhole
    rw [ne_eq, ← Decimal.value_eq_zero_iff, value_eq, Decimal.value_eq_zero_iff]
    rcases keepsSign with keepsPoint | nonzero
    · simp [point keepsPoint] at isWhole
    · exact nonzero

end DecimalStyle

end WatLink
