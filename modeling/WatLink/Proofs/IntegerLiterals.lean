import Mathlib
import WatLink.Numeral.Integer

/-!
# Spellings of integer literals

The grammar of integer literals, stated without the reader: a sign, the mark of
a radix and a run of digits, between any two of which one underscore may stand.
The reader finds the literal behind each of its spellings, and the decimal
numeral of a number is a spelling that reads as the number.
-/

namespace WatLink

/-- Characters that spell digits, with at most one underscore between two of
them. -/
inductive DigitRun (radix : Radix) : List Char → List Nat → Prop
  | last {character : Char} {digit : Nat} :
      radix.digit? character = some digit → DigitRun radix [character] [digit]
  | next {character : Char} {digit : Nat} {rest : List Char} {digits : List Nat} :
      radix.digit? character = some digit → DigitRun radix rest digits →
        DigitRun radix (character :: rest) (digit :: digits)
  | apart {character : Char} {digit : Nat} {rest : List Char} {digits : List Nat} :
      radix.digit? character = some digit → DigitRun radix rest digits →
        DigitRun radix (character :: '_' :: rest) (digit :: digits)

/-- What stands in front of the digits of a radix. -/
def Radix.mark : Radix → List Char
  | .binary => ['0', 'b']
  | .decimal => []
  | .hexadecimal => ['0', 'x']

/-- The signs of negative and of other literals. -/
inductive SignOf : Bool → List Char → Prop
  | minus : SignOf true ['-']
  | plus : SignOf false ['+']
  | none : SignOf false []

/-- Whether characters spell a literal. -/
def IntLiteral.SpelledBy (literal : IntLiteral) (characters : List Char) : Prop :=
  ∃ sign run, SignOf literal.negative sign ∧ DigitRun literal.radix run literal.digits ∧
    characters = sign ++ (literal.radix.mark ++ run)

/-- Whether a text is a literal, up to one line feed at its end. -/
def IntLiteral.IsText (literal : IntLiteral) (text : String) : Prop :=
  literal.SpelledBy text.toList ∨
    ∃ characters, literal.SpelledBy characters ∧ text.toList = characters ++ ['\n']

/-! ## Reading a spelling -/

theorem Radix.digit?_underscore (radix : Radix) : radix.digit? '_' = none := by
  cases radix <;> decide

namespace DigitRun

variable {radix : Radix} {run : List Char} {digits : List Nat}

theorem readDigits (isRun : DigitRun radix run digits) (afterDigit : Bool) :
    IntLiteral.readDigits radix afterDigit run = some digits := by
  induction isRun generalizing afterDigit with
  | last isDigit => simp [IntLiteral.readDigits, isDigit]
  | next isDigit _ ih => simp [IntLiteral.readDigits, isDigit, ih]
  | apart isDigit _ ih =>
      simp [IntLiteral.readDigits, isDigit, radix.digit?_underscore, ih]

theorem head_isDigit (isRun : DigitRun radix run digits) :
    ∃ character rest, run = character :: rest ∧ (radix.digit? character).isSome := by
  cases isRun with
  | last isDigit => exact ⟨_, _, rfl, by simp [isDigit]⟩
  | next isDigit _ => exact ⟨_, _, rfl, by simp [isDigit]⟩
  | apart isDigit _ => exact ⟨_, _, rfl, by simp [isDigit]⟩

theorem mem_cases (isRun : DigitRun radix run digits) {character : Char}
    (member : character ∈ run) : (radix.digit? character).isSome ∨ character = '_' := by
  induction isRun with
  | last isDigit =>
      obtain rfl := List.mem_singleton.mp member
      exact .inl (by simp [isDigit])
  | next isDigit _ ih =>
      rcases List.mem_cons.mp member with rfl | inRest
      · exact .inl (by simp [isDigit])
      · exact ih inRest
  | apart isDigit _ ih =>
      rcases List.mem_cons.mp member with rfl | inRest
      · exact .inl (by simp [isDigit])
      · rcases List.mem_cons.mp inRest with rfl | inRest
        · exact .inr rfl
        · exact ih inRest

theorem not_mem (isRun : DigitRun radix run digits) {character : Char}
    (noDigit : radix.digit? character = none) (noUnderscore : character ≠ '_') :
    character ∉ run := by
  intro member
  rcases isRun.mem_cases member with isDigit | isUnderscore
  · simp [noDigit] at isDigit
  · exact noUnderscore isUnderscore

end DigitRun

theorem readUnsigned_run {radix : Radix} {run : List Char} {digits : List Nat}
    (isRun : DigitRun radix run digits) (negative : Bool) :
    IntLiteral.readUnsigned negative (radix.mark ++ run) = some ⟨negative, radix, digits⟩ := by
  cases radix with
  | binary => simp [Radix.mark, IntLiteral.readUnsigned, isRun.readDigits]
  | hexadecimal => simp [Radix.mark, IntLiteral.readUnsigned, isRun.readDigits]
  | decimal =>
      have noMark : ∀ mark ∈ ['x', 'b'], mark ∉ run := by
        intro mark member
        simp only [List.mem_cons, List.not_mem_nil, or_false] at member
        rcases member with rfl | rfl
        · exact isRun.not_mem (by decide) (by decide)
        · exact isRun.not_mem (by decide) (by decide)
      rw [Radix.mark, List.nil_append, IntLiteral.readUnsigned, isRun.readDigits]
      · rfl
      · rintro rest rfl
        exact noMark 'x' (by simp) (by simp)
      · rintro rest rfl
        exact noMark 'b' (by simp) (by simp)

theorem unsigned_head {radix : Radix} {run : List Char} {digits : List Nat}
    (isRun : DigitRun radix run digits) :
    ∃ character rest, radix.mark ++ run = character :: rest ∧ character ≠ '-' ∧
      character ≠ '+' := by
  obtain ⟨character, rest, rfl, isDigit⟩ := isRun.head_isDigit
  cases radix with
  | binary => exact ⟨'0', _, rfl, by decide, by decide⟩
  | hexadecimal => exact ⟨'0', _, rfl, by decide, by decide⟩
  | decimal =>
      refine ⟨character, rest, rfl, ?_, ?_⟩
      · rintro rfl
        exact absurd isDigit (by decide)
      · rintro rfl
        exact absurd isDigit (by decide)

theorem readSigned_of_spelledBy {literal : IntLiteral} {characters : List Char}
    (spelled : literal.SpelledBy characters) :
    IntLiteral.readSigned characters = some literal := by
  obtain ⟨sign, run, isSign, isRun, rfl⟩ := spelled
  have unsigned := readUnsigned_run isRun literal.negative
  obtain ⟨negative, radix, digits⟩ := literal
  cases isSign with
  | minus => exact unsigned
  | plus => exact unsigned
  | none =>
      obtain ⟨character, rest, starts, noMinus, noPlus⟩ := unsigned_head isRun
      simp only at unsigned starts ⊢
      rw [List.nil_append, starts]
      rw [starts] at unsigned
      rw [IntLiteral.readSigned, unsigned]
      · rintro others same
        exact noMinus (List.cons.inj same).1
      · rintro others same
        exact noPlus (List.cons.inj same).1

theorem getLast?_ne_newline {literal : IntLiteral} {characters : List Char}
    (spelled : literal.SpelledBy characters) : characters.getLast? ≠ some '\n' := by
  obtain ⟨sign, run, isSign, isRun, rfl⟩ := spelled
  have nonempty : run ≠ [] := by
    obtain ⟨_, _, rfl, -⟩ := isRun.head_isDigit
    simp
  rw [← List.append_assoc, List.getLast?_append_of_ne_nil _ nonempty]
  intro isNewline
  have noDigit : literal.radix.digit? '\n' = none := by
    cases literal.radix <;> decide
  exact isRun.not_mem noDigit (by decide) (List.mem_of_getLast? isNewline)

/-- The reader finds the literal that a text spells. -/
theorem IntLiteral.IsText.ofText? {literal : IntLiteral} {text : String}
    (isText : literal.IsText text) : IntLiteral.ofText? text = some literal := by
  unfold IntLiteral.ofText? IntLiteral.dropFinalNewline
  rcases isText with spelled | ⟨characters, spelled, same⟩
  · rw [if_neg (getLast?_ne_newline spelled), readSigned_of_spelledBy spelled]
  · rw [same, if_pos (by simp), List.dropLast_concat, readSigned_of_spelledBy spelled]

theorem IntLiteral.IsText.parseInt {literal : IntLiteral} {text : String}
    (isText : literal.IsText text)
    (short : literal.radix = .decimal → literal.digits.length ≤ digitLimit) :
    WatLink.parseInt text = .ok literal.value := by
  have inLimit : literal.isTooLong = false := by
    simp only [IntLiteral.isTooLong, Bool.and_eq_false_iff, beq_eq_false_iff_ne,
      decide_eq_false_iff_not, Nat.not_lt]
    by_cases isDecimal : literal.radix = .decimal
    · exact .inr (short isDecimal)
    · exact .inl isDecimal
  rw [WatLink.parseInt, isText.ofText?]
  simp [inLimit]

/-! ## Decimal numerals -/

/-- The decimal digits of a number, most significant digit first. -/
def decimalDigits (number : Nat) : List Nat :=
  (Nat.toDigits 10 number).map fun character => character.toNat - '0'.toNat

theorem Radix.digit?_decimal {character : Char} (isDigit : character.isDigit = true) :
    Radix.decimal.digit? character = some (character.toNat - '0'.toNat) := by
  simp only [Char.isDigit, ge_iff_le, Bool.and_eq_true, decide_eq_true_eq] at isDigit
  have inRange : '0' ≤ character ∧ character ≤ '9' := isDigit
  have below : character.toNat ≤ 57 := isDigit.2
  have small : character.toNat - '0'.toNat < Radix.decimal.base := by
    simp only [Char.reduceToNat, Radix.base]
    omega
  simp only [Radix.digit?, inRange, and_self, if_true, Option.filter_some, small, decide_true]

theorem digitRun_of_digits {characters : List Char} (nonempty : characters ≠ [])
    (allDigits : ∀ character ∈ characters, character.isDigit = true) :
    DigitRun .decimal characters
      (characters.map fun character => character.toNat - '0'.toNat) := by
  induction characters with
  | nil => exact absurd rfl nonempty
  | cons character rest ih =>
      have isDigit := Radix.digit?_decimal (allDigits character (by simp))
      cases rest with
      | nil => exact .last isDigit
      | cons second others =>
          exact .next isDigit (ih (by simp) fun other member => allDigits other (by simp [member]))

theorem digitRun_toDigits (number : Nat) :
    DigitRun .decimal (Nat.toDigits 10 number) (decimalDigits number) :=
  digitRun_of_digits Nat.toDigits_ne_nil fun _ member =>
    Nat.isDigit_of_mem_toDigits (by decide) (by decide) member

theorem value_decimalDigits (number : Nat) :
    Radix.decimal.value (decimalDigits number) = number := by
  have readBack : Nat.ofDigitChars 10 (Nat.toDigits 10 number) 0 = number :=
    Nat.ofDigitChars_toDigits (by decide) (by decide)
  rw [Radix.value, decimalDigits, List.foldl_map]
  rw [Nat.ofDigitChars] at readBack
  simpa only [Radix.base, Nat.mul_comm] using readBack

/-- The literal that the decimal numeral of an integer spells. -/
def decimalLiteral (number : Int) : IntLiteral :=
  ⟨decide (number < 0), .decimal, decimalDigits number.natAbs⟩

theorem value_decimalLiteral (number : Int) : (decimalLiteral number).value = number := by
  simp only [decimalLiteral, IntLiteral.value, value_decimalDigits, decide_eq_true_eq]
  split <;> omega

theorem toList_decimalNumeral (number : Int) :
    (decimalNumeral number).toList =
      (if number < 0 then ['-'] else []) ++ Nat.toDigits 10 number.natAbs := by
  unfold decimalNumeral
  split <;> simp [Nat.toString_eq_repr, Nat.repr_eq_ofList_toDigits]

theorem isText_decimalNumeral (number : Int) :
    (decimalLiteral number).IsText (decimalNumeral number) := by
  refine .inl ⟨if number < 0 then ['-'] else [], _, ?_, digitRun_toDigits number.natAbs,
    toList_decimalNumeral number⟩
  by_cases negative : number < 0
  · simpa [decimalLiteral, negative] using SignOf.minus
  · simpa [decimalLiteral, negative] using SignOf.none

theorem exists_of_parseInt {text : String} {number : Int} (reads : parseInt text = .ok number) :
    ∃ literal, IntLiteral.ofText? text = some literal ∧ literal.isTooLong = false ∧
      literal.value = number := by
  unfold parseInt at reads
  split at reads
  · cases reads
  · rename_i literal isLiteral
    split at reads
    · cases reads
    · rename_i short
      exact ⟨literal, isLiteral, by simpa using short, Except.ok.inj reads⟩

/-- What is written within the length limit reads as the number written. -/
theorem parseInt_of_writeInt {number : Int} {text : String} (written : writeInt number = .ok text) :
    text = decimalNumeral number ∧ parseInt text = .ok number := by
  unfold writeInt at written
  split at written
  · cases written
  · rename_i inLimit
    cases written
    have short : (decimalLiteral number).digits.length ≤ digitLimit := by
      rw [Nat.toString_eq_repr, Nat.repr_eq_ofList_toDigits] at inLimit
      simpa [decimalLiteral, decimalDigits] using inLimit
    have readBack := (isText_decimalNumeral number).parseInt fun _ => short
    exact ⟨rfl, by rw [readBack, value_decimalLiteral]⟩

end WatLink
