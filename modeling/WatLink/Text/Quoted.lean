import WatLink.Text.Printable
import WatLink.Text.Utf8

/-!
# Quoted text in messages

Messages show a text between quotes so that blanks and control characters in
it can be seen.  Single quotes are used unless the text holds a single quote
and no double quote.  The quote in use and the backslash are escaped by a
backslash, the three common line controls by a letter, and every other
character that is not printable by its code point in hexadecimal.
-/

namespace WatLink
namespace Text

/-- Lower-case hexadecimal digits of a number, padded with zeros on the left
to at least the given width. -/
def hexPadded (width number : Nat) : List Char :=
  let digits := Nat.toDigits 16 number
  List.replicate (width - digits.length) '0' ++ digits

/-- The quote that encloses a text in a message. -/
def enclosingQuote (characters : List Char) : Char :=
  if characters.contains '\'' && !characters.contains '"' then '"' else '\''

/-- How one character is written between the given quotes. -/
def quotedCharacter (quote character : Char) : List Char :=
  if character = quote ∨ character = '\\' then ['\\', character]
  else if character = '\n' then ['\\', 'n']
  else if character = '\r' then ['\\', 'r']
  else if character = '\t' then ['\\', 't']
  else if isPrintable character then [character]
  else if character.toNat < 0x100 then '\\' :: 'x' :: hexPadded 2 character.toNat
  else if character.toNat < 0x10000 then '\\' :: 'u' :: hexPadded 4 character.toNat
  else '\\' :: 'U' :: hexPadded 8 character.toNat

/-- A text as messages show it. -/
def quoted (text : String) : String :=
  let characters := text.toList
  let quote := enclosingQuote characters
  String.ofList (quote :: characters.flatMap (quotedCharacter quote) ++ [quote])

/-- Bytes as messages show them: behind a letter and like text, except that only
those of plain characters stand for themselves. -/
def quotedBytes (bytes : Bytes) : String :=
  let quote := enclosingQuote (bytes.map fun byte => Char.ofNat byte.toNat)
  let written := fun (byte : UInt8) =>
    if byte < 0x80 then quotedCharacter quote (Char.ofNat byte.toNat)
    else '\\' :: 'x' :: hexPadded 2 byte.toNat
  String.ofList ('b' :: quote :: bytes.flatMap written ++ [quote])

end Text
end WatLink
