import WatLink.Binary64.Reading
import WatLink.Settings.Datum
import WatLink.Text.Split

/-!
# Plain scalars

An unquoted scalar of a configuration file is read as a number, a truth value
or nothing if it is spelled like one, and as text otherwise.  Integers are
decimal, octal behind a zero, hexadecimal or binary, or sexagesimal parts
between colons; a floating-point number has a point.  Dates and a few other
spellings are not read.
-/

namespace WatLink

namespace Scalar

/-- Whether a character is a plain decimal digit. -/
def isDigit (character : Char) : Bool :=
  decide ('0' ≤ character) && decide (character ≤ '9')

/-- Whether a character is a digit of a radix or an underscore. -/
def isDigitOrMark (radix : Radix) (character : Char) : Bool :=
  character == '_' || (radix.digit? character).isSome

/-- The number that digits of a radix spell, underscores apart, if there is a
digit. -/
def number? (radix : Radix) (characters : List Char) : Option Nat :=
  let digits := characters.filterMap radix.digit?
  if !characters.isEmpty && characters.all (isDigitOrMark radix) && !digits.isEmpty then
    some (radix.value digits)
  else none

/-- Whether characters are a sexagesimal part: one digit, or two of which the
first is below six. -/
def isSexagesimalPart : List Char → Bool
  | [digit] => isDigit digit
  | [tens, digit] => decide ('0' ≤ tens) && decide (tens ≤ '5') && isDigit digit
  | _ => false

/-- The number that sexagesimal parts spell, behind the leading part. -/
def sexagesimal (leading : Nat) (parts : List (List Char)) : Nat :=
  parts.foldl (fun number part => number * 60 + (number? .decimal part).getD 0) leading

/-- Whether characters start with a nonzero digit and hold digits and
underscores only. -/
def isLeadingPart : List Char → Bool
  | first :: rest =>
      isDigit first && first != '0' && rest.all (isDigitOrMark .decimal)
  | [] => false

/-- The magnitude of an integer scalar behind its sign. -/
def intMagnitude? (characters : List Char) : Option Nat :=
  match characters with
  | ['0'] => some 0
  | '0' :: 'b' :: digits => number? .binary digits
  | '0' :: 'x' :: digits => number? .hexadecimal digits
  | '0' :: digits =>
      if digits.all fun character => character == '_' || (isDigit character && character < '8') then
        some ((digits.filter isDigit).foldl
          (fun number digit => number * 8 + (digit.toNat - '0'.toNat)) 0)
      else none
  | characters =>
      match Text.splitList ':' characters with
      | [leading] => if isLeadingPart leading then number? .decimal leading else none
      | leading :: parts =>
          if isLeadingPart leading && parts.all isSexagesimalPart then
            (number? .decimal leading).map (sexagesimal · parts)
          else none
      | [] => none

/-- The integer that a scalar spells. -/
def int? (characters : List Char) : Option Int :=
  let (negative, unsigned) := Text.spanSign characters
  (intMagnitude? unsigned).map fun magnitude =>
    if negative then -(magnitude : Int) else magnitude

/-- The exponent mark of a floating-point scalar: empty, or a letter, a sign
and digits. -/
def isExponent : List Char → Bool
  | [] => true
  | letter :: sign :: digits =>
      (letter == 'e' || letter == 'E') && (sign == '+' || sign == '-') &&
        !digits.isEmpty && digits.all isDigit
  | _ => false

/-- Whether characters behind a sign are a decimal number with a point. -/
def isPointed (signed : Bool) (characters : List Char) : Bool :=
  let integral := characters.takeWhile (isDigitOrMark .decimal)
  match characters.dropWhile (isDigitOrMark .decimal) with
  | '.' :: rest =>
      let fraction := rest.takeWhile (isDigitOrMark .decimal)
      let afterFraction := rest.dropWhile (isDigitOrMark .decimal)
      isExponent afterFraction &&
        (if integral.isEmpty then !signed && (fraction.head?.any isDigit)
         else integral.head?.any isDigit)
  | _ => false

/-- The floating-point number that a scalar spells. -/
def float? (characters : List Char) : Option Binary64 :=
  let (negative, unsigned) := Text.spanSign characters
  let word := String.ofList unsigned
  let signed := unsigned.length != characters.length
  if [".inf", ".Inf", ".INF"].contains word then some (.infinity negative)
  else if !signed && [".nan", ".NaN", ".NAN"].contains word then some (.notANumber false)
  else if isPointed signed unsigned then
    (Binary64.readDecimal? (unsigned.filter (· != '_'))).map (·.toBinary64 negative)
  else none

/-- The truth value that a scalar spells. -/
def bool? (text : String) : Option Bool :=
  if ["yes", "Yes", "YES", "true", "True", "TRUE", "on", "On", "ON"].contains text then some true
  else if ["no", "No", "NO", "false", "False", "FALSE", "off", "Off", "OFF"].contains text then
    some false
  else none

/-- Whether a scalar is spelled like data that are not read: a date, sexagesimal
parts with a point, an overlong integer, a radix without digits or a mark. -/
def isUnread (characters : List Char) : Bool :=
  let unsigned := (Text.spanSign characters).2
  let isDate := (characters.takeWhile isDigit).length == 4 && characters[4]? == some '-'
  let isPointedSexagesimal := unsigned.head?.any isDigit && unsigned.contains ':' &&
    unsigned.contains '.' &&
    unsigned.all fun character => isDigitOrMark .decimal character || ":.".contains character
  let isOverlong := decide (digitLimit < characters.length) && (int? characters).isSome
  let isBareRadix := ["0b", "0x"].contains (String.ofList (unsigned.filter (· != '_')))
  isDate || isPointedSexagesimal || isOverlong || isBareRadix ||
    ["=", "<<"].contains (String.ofList characters)

/-- The datum that a plain scalar is, if it is read. -/
def resolve (text : String) : Option Datum :=
  let characters := text.toList
  if ["", "~", "null", "Null", "NULL"].contains text then some .null
  else if isUnread characters then none
  else
    match bool? text, float? characters, int? characters with
    | some truth, _, _ => some (.bool truth)
    | none, some number, _ => some (.float number)
    | none, none, some number => some (.int number)
    | none, none, none => some (.text text)

end Scalar

end WatLink
