import WatLink.Text.Quoted

/-!
# Integer literals

An integer literal is an optional sign and a run of decimal digits, of
hexadecimal digits behind `0x`, or of binary digits behind `0b`.  Single
underscores may stand between digits, and one line feed may follow the whole
literal.  Decimal numerals, read or written, are limited in length, because the
conversion between radices takes time quadratic in it; the other two radices
are not.
-/

namespace WatLink

/-- The radices of integer literals. -/
inductive Radix where
  | binary
  | decimal
  | hexadecimal
  deriving DecidableEq, Repr

namespace Radix

/-- The number of digits of a radix. -/
def base : Radix → Nat
  | .binary => 2
  | .decimal => 10
  | .hexadecimal => 16

/-- The value of a character as a digit of a radix. -/
def digit? (radix : Radix) (character : Char) : Option Nat :=
  let value? : Option Nat :=
    if '0' ≤ character ∧ character ≤ '9' then some (character.toNat - '0'.toNat)
    else if 'a' ≤ character ∧ character ≤ 'f' then some (character.toNat - 'a'.toNat + 10)
    else if 'A' ≤ character ∧ character ≤ 'F' then some (character.toNat - 'A'.toNat + 10)
    else none
  value?.filter (· < radix.base)

/-- The number that digits spell, most significant digit first. -/
def value (radix : Radix) (digits : List Nat) : Nat :=
  digits.foldl (fun number digit => number * radix.base + digit) 0

end Radix

/-- An integer literal: its sign, its radix and its digits, most significant
digit first. -/
structure IntLiteral where
  negative : Bool
  radix : Radix
  digits : List Nat
  deriving DecidableEq, Repr

/-- The greatest number of digits of a decimal numeral. -/
def digitLimit : Nat := 4300

/-- Why a text does not denote an integer, or an integer cannot be written. -/
inductive NumeralFault where
  /-- The text is no integer literal. -/
  | notALiteral (text : String)
  /-- A decimal literal has more digits than can be read. -/
  | tooLongToRead (digitCount : Nat)
  /-- An integer has more decimal digits than can be written. -/
  | tooLongToWrite
  deriving DecidableEq, Repr

/-- The wording of a fault. -/
def NumeralFault.message : NumeralFault → String
  | .notALiteral text => "Not an integer literal: " ++ Text.quoted text
  | .tooLongToRead digitCount =>
      s!"Exceeds the limit ({digitLimit} digits) for integer string conversion: " ++
        s!"value has {digitCount} digits; " ++
        "use sys.set_int_max_str_digits() to increase the limit"
  | .tooLongToWrite =>
      s!"Exceeds the limit ({digitLimit} digits) for integer string conversion; " ++
        "use sys.set_int_max_str_digits() to increase the limit"

namespace IntLiteral

/-- Read a run of digits with single underscores between them.  The flag says
whether a digit stands directly before the run. -/
def readDigits (radix : Radix) : Bool → List Char → Option (List Nat)
  | afterDigit, [] => if afterDigit then some [] else none
  | afterDigit, character :: rest =>
      match radix.digit? character with
      | some digit => (readDigits radix true rest).map (digit :: ·)
      | none =>
          if afterDigit && character == '_' then readDigits radix false rest else none

/-- Read a literal behind its sign. -/
def readUnsigned (negative : Bool) : List Char → Option IntLiteral
  | '0' :: 'x' :: rest =>
      (readDigits .hexadecimal false rest).map (⟨negative, .hexadecimal, ·⟩)
  | '0' :: 'b' :: rest => (readDigits .binary false rest).map (⟨negative, .binary, ·⟩)
  | characters => (readDigits .decimal false characters).map (⟨negative, .decimal, ·⟩)

/-- Read a literal with its sign. -/
def readSigned : List Char → Option IntLiteral
  | '-' :: rest => readUnsigned true rest
  | '+' :: rest => readUnsigned false rest
  | characters => readUnsigned false characters

/-- Characters without one line feed at their end. -/
def dropFinalNewline (characters : List Char) : List Char :=
  if characters.getLast? = some '\n' then characters.dropLast else characters

/-- The literal that a text is, if it is one. -/
def ofText? (text : String) : Option IntLiteral :=
  readSigned (dropFinalNewline text.toList)

/-- The integer that a literal denotes. -/
def value (literal : IntLiteral) : Int :=
  let magnitude : Int := literal.radix.value literal.digits
  if literal.negative then -magnitude else magnitude

/-- Whether a literal is a decimal numeral beyond the length limit. -/
def isTooLong (literal : IntLiteral) : Bool :=
  literal.radix == .decimal && decide (digitLimit < literal.digits.length)

end IntLiteral

/-- Whether a text is an integer literal. -/
def isIntLiteral (text : String) : Bool :=
  (IntLiteral.ofText? text).isSome

/-- The integer that a text denotes. -/
def parseInt (text : String) : Except NumeralFault Int :=
  match IntLiteral.ofText? text with
  | none => .error (.notALiteral text)
  | some literal =>
      if literal.isTooLong then .error (.tooLongToRead literal.digits.length)
      else .ok literal.value

/-- The decimal numeral of an integer, whatever its length. -/
def decimalNumeral (number : Int) : String :=
  if number < 0 then "-" ++ toString number.natAbs else toString number.natAbs

/-- The decimal numeral of an integer, within the length limit. -/
def writeInt (number : Int) : Except NumeralFault String :=
  if digitLimit < (toString number.natAbs).length then .error .tooLongToWrite
  else .ok (decimalNumeral number)

end WatLink
