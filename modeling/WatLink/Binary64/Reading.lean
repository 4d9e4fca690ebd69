import WatLink.Binary64.Arithmetic
import WatLink.Binary64.Decimal
import WatLink.Numeral.Integer
import WatLink.Text.DecimalDigit

/-!
# Reading floating-point literals

A floating-point literal is written in decimal or, behind `0x`, in
hexadecimal, or is one of the words for infinity and NaN.  Underscores are
ignored.  Reading rounds once, to the nearest double-precision number; a
decimal that is too large is infinite, while a hexadecimal one is refused.
-/

namespace WatLink

/-- Why a text or an integer has no double-precision value. -/
inductive FloatFault where
  /-- The text is no decimal number. -/
  | notDecimal (text : String)
  /-- The text is no hexadecimal number. -/
  | notHexadecimal
  /-- A hexadecimal number is too large. -/
  | hexadecimalTooLarge
  /-- An integer is too large. -/
  | integerTooLarge
  deriving DecidableEq, Repr

/-- The wording of a fault. -/
def FloatFault.message : FloatFault → String
  | .notDecimal text => "could not convert string to float: " ++ Text.quoted text
  | .notHexadecimal => "invalid hexadecimal floating-point string"
  | .hexadecimalTooLarge => "hexadecimal value too large to represent as a float"
  | .integerTooLarge => "int too large to convert to float"

namespace Text

/-- Blanks around a number: every blank character but the four information
separators. -/
def isNumberBlank (character : Char) : Bool :=
  isBlank character && !(decide (0x1C ≤ character.toNat) && decide (character.toNat ≤ 0x1F))

/-- The characters of a number: blanks at either end are dropped, and the
decimal digits of every script become the plain ones. -/
def numberCharacters (characters : List Char) : List Char :=
  let inner :=
    ((characters.dropWhile isNumberBlank).reverse.dropWhile isNumberBlank).reverse
  inner.map fun character =>
    match decimalDigit? character with
    | some digit => Char.ofNat ('0'.toNat + digit)
    | none => character

/-- Split the digits of a radix off the front of some characters. -/
def spanDigits (radix : Radix) (characters : List Char) : List Nat × List Char :=
  let isDigit := fun character => (radix.digit? character).isSome
  ((characters.takeWhile isDigit).filterMap radix.digit?, characters.dropWhile isDigit)

/-- Split a sign off the front of some characters: whether it is a minus, and
the rest. -/
def spanSign : List Char → Bool × List Char
  | '-' :: rest => (true, rest)
  | '+' :: rest => (false, rest)
  | characters => (false, characters)

/-- Split an optional point and the digits behind it off the front of some
characters. -/
def spanFraction (radix : Radix) : List Char → List Nat × List Char
  | '.' :: rest => spanDigits radix rest
  | characters => ([], characters)

/-- Split a decimal exponent behind its mark off the front of some characters:
an optional sign and at least one digit. -/
def spanExponent? (characters : List Char) : Option (Int × List Char) :=
  let (negative, unsigned) := spanSign characters
  match spanDigits .decimal unsigned with
  | ([], _) => none
  | (digits, rest) =>
      let exponent : Int := Radix.decimal.value digits
      some (if negative then -exponent else exponent, rest)

end Text

namespace Binary64

open Text

/-- Read a decimal number behind its sign: digits with an optional point and
an optional exponent, and nothing else. -/
def readDecimal? (characters : List Char) : Option Decimal :=
  let (integral, afterIntegral) := spanDigits .decimal characters
  let (fraction, afterFraction) := spanFraction .decimal afterIntegral
  if integral.isEmpty && fraction.isEmpty then none
  else
    let digits := Radix.decimal.value (integral ++ fraction)
    match afterFraction with
    | [] => some ⟨digits, -(fraction.length : Int)⟩
    | mark :: afterMark =>
        if mark = 'e' ∨ mark = 'E' then
          match spanExponent? afterMark with
          | some (exponent, []) => some ⟨digits, exponent - fraction.length⟩
          | _ => none
        else none

/-- Read a decimal number, or a word for infinity or NaN in either case, with an
optional sign. -/
def readDecimalText? (text : String) : Option Binary64 :=
  let (negative, unsigned) := spanSign (numberCharacters text.toList)
  let word := String.ofList (unsigned.map Char.toLower)
  if word = "inf" ∨ word = "infinity" then some (infinity negative)
  else if word = "nan" then some (notANumber negative)
  else (readDecimal? unsigned).map (·.toBinary64 negative)

/-- The magnitude of a hexadecimal number with the given digits and exponent of
two, or `none` on overflow. -/
def ofHexadecimal? (digits : Nat) (exponent : Int) : Option Binary64 :=
  let topExponent := (digits.log2 + 1 : Nat) + exponent
  if digits = 0 ∨ topExponent < -1074 then some (signedZero false)
  else if 1024 < topExponent then none
  else
    let (numerator, denominator) := divideByPowerOfTwo digits 1 (-exponent)
    ofQuotient? false numerator denominator

/-- Whether a character is an ASCII blank. -/
def isAsciiBlank (character : Char) : Bool :=
  character == ' ' || (decide ('\t' ≤ character) && decide (character ≤ '\r'))

/-- Read a hexadecimal number behind its `0x`: digits with an optional point
and an optional binary exponent.  Blanks may follow; whether only they do is
seen after the size of the number. -/
def readHexadecimal (characters : List Char) : Except FloatFault Binary64 :=
  let (integral, afterIntegral) := spanDigits .hexadecimal characters
  let (fraction, afterFraction) := spanFraction .hexadecimal afterIntegral
  if integral.isEmpty && fraction.isEmpty then .error .notHexadecimal
  else
    let exponent? : Option (Int × List Char) :=
      match afterFraction with
      | 'p' :: rest => spanExponent? rest
      | 'P' :: rest => spanExponent? rest
      | rest => some (0, rest)
    match exponent? with
    | none => .error .notHexadecimal
    | some (exponent, rest) =>
        let digits := Radix.hexadecimal.value (integral ++ fraction)
        match ofHexadecimal? digits (exponent - 4 * fraction.length) with
        | none => .error .hexadecimalTooLarge
        | some number =>
            if rest.all isAsciiBlank then .ok number else .error .notHexadecimal

/-- Read a floating-point literal.  All signs at its front are skipped, and the
first one decides, except that a NaN spelled in another way than `nan` keeps
the sign it is written with. -/
def parse (literal : String) : Except FloatFault Binary64 :=
  let characters := literal.toList.filter (· != '_')
  let negative := characters.head? == some '-'
  let body := characters.dropWhile fun character => character == '+' || character == '-'
  let sign : Binary64 := (ofInt 1).copySign (signedZero negative)
  if body = ['i', 'n', 'f'] then .ok (infinity negative)
  else if body = ['n', 'a', 'n'] ∨ ['n', 'a', 'n', ':'].isPrefixOf body then
    .ok (notANumber negative)
  else
    match body with
    | '0' :: 'x' :: rest => (readHexadecimal rest).map sign.mul
    | _ =>
        let text := String.ofList body
        match readDecimalText? text with
        | some number => .ok (sign.mul number)
        | none => .error (.notDecimal text)

/-- The number nearest to an integer. -/
def ofInteger (integer : Int) : Except FloatFault Binary64 :=
  match ofInt? integer with
  | some number => .ok number
  | none => .error .integerTooLarge

end Binary64

end WatLink
