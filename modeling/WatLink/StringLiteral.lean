import WatLink.Binary64.Reading
import WatLink.Text.Utf8

/-!
# String literals

The body of a string literal is a sequence of characters and escapes.  An
escape is a backslash and a letter for a control character or a quote, two
hexadecimal digits for a byte, or a code point in braces.  A data segment holds
as many bytes as its literals denote.
-/

namespace WatLink

/-- Why the body of a string literal is malformed. -/
inductive EscapeFault where
  | noCharacter
  | oneHexDigit
  | malformedUnicode
  /-- The braces hold no hexadecimal number. -/
  | notANumber (text : String)
  | outOfRange (codePoint : Nat)
  | negative
  /-- A negative number too large for a machine word. -/
  | negativeBeyondWord
  | unknown (character : Char)
  deriving DecidableEq, Repr

/-- How many characters of a number a message shows. -/
def shownNumberLength : Nat := 200

/-- The wording of a fault. -/
def EscapeFault.message : EscapeFault → String
  | .noCharacter => "Escape with no character"
  | .oneHexDigit => "Hex escape with only one digit"
  | .malformedUnicode => "Malformed unicode escape"
  | .notANumber text =>
      "invalid literal for int() with base 16: " ++
        String.ofList ((Text.quoted text).toList.take shownNumberLength)
  | .outOfRange codePoint =>
      "Unicode escape out of range: 0x" ++ String.ofList (Nat.toDigits 16 codePoint)
  | .negative => "chr() arg not in range(0x110000)"
  | .negativeBeyondWord => "Python int too large to convert to C int"
  | .unknown character => "Unknown escape sequence \\" ++ String.singleton character

namespace StringLiteral

open Text

/-- Read a hexadecimal number in braces: an optional sign, an optional `0x` and
digits, with blanks around them. -/
def readCodePoint? (characters : List Char) : Option Int :=
  let (negative, unsigned) := spanSign (numberCharacters characters)
  let bare :=
    match unsigned with
    | '0' :: 'x' :: rest => rest
    | '0' :: 'X' :: rest => rest
    | rest => rest
  match spanDigits .hexadecimal bare with
  | ([], _) => none
  | (digits, []) =>
      let magnitude : Int := Radix.hexadecimal.value digits
      some (if negative then -magnitude else magnitude)
  | _ => none

/-- The number of UTF-8 bytes of a code point, surrogates included. -/
def codePointLength (codePoint : Nat) : Nat :=
  if codePoint < 0x80 then 1
  else if codePoint < 0x800 then 2
  else if codePoint < 0x10000 then 3
  else 4

/-- The number of bytes of a code point escape whose braces hold the given
characters. -/
def unicodeLength (characters : List Char) : Except EscapeFault Nat :=
  let bare := characters.filter (· != '_')
  match readCodePoint? bare with
  | none => .error (.notANumber (String.ofList bare))
  | some codePoint =>
      if 0x10FFFF < codePoint then .error (.outOfRange codePoint.toNat)
      else if codePoint < -Int.pow 2 31 then .error .negativeBeyondWord
      else if codePoint < 0 then .error .negative
      else .ok (codePointLength codePoint.toNat)

/-- Whether a character is a hexadecimal digit. -/
def isHexDigit (character : Char) : Bool :=
  (Radix.hexadecimal.digit? character).isSome

/-- Whether a character behind a backslash stands for one byte. -/
def isSimpleEscape (character : Char) : Bool :=
  ['t', 'n', 'r', '"', '\'', '\\'].contains character

/-- What the reader of a body is inside of. -/
inductive Position where
  /-- Between two elements. -/
  | plain
  /-- Behind a backslash. -/
  | escape
  /-- Behind the first digit of a byte escape. -/
  | hex
  /-- Behind the letter of a code point escape. -/
  | unicode
  /-- Inside its braces; the characters so far are kept in reverse. -/
  | braces (read : List Char)
  deriving DecidableEq, Repr

/-- Count the bytes of the rest of a body from a position, onto the bytes
counted so far. -/
def countFrom (count : Nat) : Position → List Char → Except EscapeFault Nat
  | .plain, [] => .ok count
  | .escape, [] => .error .noCharacter
  | .hex, [] => .error .oneHexDigit
  | .unicode, [] => .error .malformedUnicode
  | .braces _, [] => .error .malformedUnicode
  | .plain, character :: rest =>
      if character = '\\' then countFrom count .escape rest
      else countFrom (count + character.utf8Size) .plain rest
  | .escape, character :: rest =>
      if isHexDigit character then countFrom count .hex rest
      else if character = 'u' then countFrom count .unicode rest
      else if isSimpleEscape character then countFrom (count + 1) .plain rest
      else .error (.unknown character)
  | .hex, character :: rest =>
      if isHexDigit character then countFrom (count + 1) .plain rest
      else .error .oneHexDigit
  | .unicode, character :: rest =>
      if character = '\x7b' then countFrom count (.braces []) rest
      else .error .malformedUnicode
  | .braces read, character :: rest =>
      if character = '\x7d' then
        match unicodeLength read.reverse with
        | .ok length => countFrom (count + length) .plain rest
        | .error fault => .error fault
      else countFrom count (.braces (character :: read)) rest

/-- The number of bytes that the body of a string literal denotes. -/
def byteLength (body : String) : Except EscapeFault Nat :=
  countFrom 0 .plain body.toList

/-- A string literal that denotes the given bytes, each written as an escape of
two hexadecimal digits. -/
def ofBytes (bytes : Bytes) : String :=
  String.ofList
    ('"' :: bytes.flatMap (fun byte => '\\' :: hexPadded 2 byte.toNat) ++ ['"'])

end StringLiteral

end WatLink
