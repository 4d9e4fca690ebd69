import WatLink.Text.Utf8

/-!
# Line ends

Text that people edit may end its lines with a line feed, a carriage return, or
both; all are read as a line feed.
-/

namespace WatLink
namespace Text

/-- Characters with carriage returns, alone or before a line feed, read as line
feeds. -/
def normalizeLineEnds : List Char → List Char
  | [] => []
  | '\r' :: '\n' :: rest => '\n' :: normalizeLineEnds rest
  | '\r' :: rest => '\n' :: normalizeLineEnds rest
  | character :: rest => character :: normalizeLineEnds rest

/-- The text in a file, with line ends normalized. -/
def decodeLines (bytes : Bytes) : Except Utf8Fault String :=
  (decodeUtf8 bytes).map fun text => String.ofList (normalizeLineEnds text.toList)

end Text
end WatLink
