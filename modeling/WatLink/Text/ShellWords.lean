/-!
# Shell words

A command line is split into words at blanks as a shell does it.  Single quotes
keep everything between them; double quotes keep all but a backslash before a
double quote or a backslash; outside quotes a backslash keeps the next
character.  Comments are not recognized.
-/

namespace WatLink
namespace Text

/-- Why a command line cannot be split. -/
inductive WordFault where
  | noClosingQuote
  | noEscapedCharacter
  deriving DecidableEq, Repr

/-- The wording of a fault. -/
def WordFault.message : WordFault → String
  | .noClosingQuote => "No closing quotation"
  | .noEscapedCharacter => "No escaped character"

/-- What the splitter is inside of. -/
inductive WordMode where
  /-- Between two words. -/
  | gap
  /-- Inside a word, outside quotes. -/
  | word
  /-- Inside quotes. -/
  | quoted (quote : Char)
  /-- Behind a backslash, inside the given quotes if any. -/
  | escape (quote : Option Char)
  deriving DecidableEq, Repr

/-- Whether a character separates words. -/
def isWordBlank (character : Char) : Bool :=
  character == ' ' || character == '\t' || character == '\r' || character == '\n'

/-- Whether a character is a quote. -/
def isQuote (character : Char) : Bool :=
  character == '\'' || character == '"'

/-- Split the rest of a command line.  The words so far and the characters of
the current one are given in reverse. -/
def wordsFrom (words : List String) (current : List Char) :
    WordMode → List Char → Except WordFault (List String)
  | .gap, [] => .ok words.reverse
  | .word, [] => .ok (String.ofList current.reverse :: words).reverse
  | .quoted _, [] => .error .noClosingQuote
  | .escape _, [] => .error .noEscapedCharacter
  | .gap, character :: rest =>
      if isWordBlank character then wordsFrom words [] .gap rest
      else if character = '\\' then wordsFrom words [] (.escape none) rest
      else if isQuote character then wordsFrom words [] (.quoted character) rest
      else wordsFrom words [character] .word rest
  | .word, character :: rest =>
      if isWordBlank character then
        wordsFrom (String.ofList current.reverse :: words) [] .gap rest
      else if character = '\\' then wordsFrom words current (.escape none) rest
      else if isQuote character then wordsFrom words current (.quoted character) rest
      else wordsFrom words (character :: current) .word rest
  | .quoted quote, character :: rest =>
      if character = quote then wordsFrom words current .word rest
      else if character = '\\' ∧ quote = '"' then
        wordsFrom words current (.escape (some quote)) rest
      else wordsFrom words (character :: current) (.quoted quote) rest
  | .escape none, character :: rest => wordsFrom words (character :: current) .word rest
  | .escape (some quote), character :: rest =>
      if character = quote ∨ character = '\\' then
        wordsFrom words (character :: current) (.quoted quote) rest
      else wordsFrom words (character :: '\\' :: current) (.quoted quote) rest

/-- The words of a command line. -/
def shellWords (line : String) : Except WordFault (List String) :=
  wordsFrom [] [] .gap line.toList

end Text
end WatLink
