import WatLink.Text.Blank

/-!
# Lexemes

A source text is read as a sequence of lexemes: opening and closing
parentheses and atoms, each with the place where it starts.  Blanks, line
comments and nested block comments lie between them.  A string literal may
stand anywhere inside an atom, and parentheses, blanks and comment marks inside
it belong to the atom.

Scanning goes through the text one character at a time and looks one character
ahead.  It never fails: a text that ends inside a comment or a string literal
gives the lexemes before it and an ending that says so.
-/

namespace WatLink

/-- A place in a source text.  Lines and columns count from one, columns in
characters; the offset counts UTF-8 bytes from zero. -/
structure Place where
  line : Nat
  column : Nat
  offset : Nat
  deriving DecidableEq, Repr

namespace Place

/-- The first place of a text. -/
def start : Place := ⟨1, 1, 0⟩

/-- The place behind a character. -/
def next (place : Place) (character : Char) : Place :=
  if character = '\n' then ⟨place.line + 1, 1, place.offset + character.utf8Size⟩
  else ⟨place.line, place.column + 1, place.offset + character.utf8Size⟩

end Place

/-- A token of the text format, without its layout. -/
inductive Token where
  | opening
  | closing
  | atom (text : String)
  deriving DecidableEq, Repr

/-- A token and the place of its first character. -/
structure Lexeme where
  token : Token
  start : Place
  deriving DecidableEq, Repr

namespace Lexeme

/-- What the scanner is inside of. -/
inductive Mode where
  /-- Between two lexemes. -/
  | gap
  /-- Inside a line comment. -/
  | line
  /-- Inside `depth` nested block comments, the outermost of which opened at
  `outer`. -/
  | block (outer : Place) (depth : Nat)
  /-- Before the second character of a comment bracket, after which `depth`
  block comments are open. -/
  | bracket (outer : Place) (depth : Nat)
  /-- Inside an atom that began at `start`, outside any string literal.  The
  text read so far is kept in reverse. -/
  | atom (start : Place) (read : List Char)
  /-- Inside a string literal of an atom, opened by the quote at `quote`. -/
  | string (start quote : Place) (read : List Char)
  /-- Before the escaped character of a string literal. -/
  | escape (start quote : Place) (read : List Char)
  deriving DecidableEq, Repr

/-- How a text ends. -/
inductive Ending where
  /-- Behind its last lexeme or in a line comment. -/
  | complete
  /-- Inside a block comment opened at `outer`. -/
  | insideComment (outer : Place)
  /-- Inside the string literal opened by `quote`, in the atom begun at
  `start`. -/
  | insideString (start quote : Place)
  deriving DecidableEq, Repr

/-- The lexemes of a text, how the text ends, and the place behind it. -/
structure Scan where
  lexemes : List Lexeme
  ending : Ending
  finish : Place
  deriving DecidableEq, Repr

/-- The atom with the given start and reversed text. -/
def ofReversed (start : Place) (read : List Char) : Lexeme :=
  ⟨.atom (String.ofList read.reverse), start⟩

/-- Whether an atom ends before a character: at a blank, a parenthesis or a
line comment. -/
def endsAtom (character : Char) (next? : Option Char) : Bool :=
  Text.isBlank character || character == '(' || character == ')' ||
    (character == ';' && next? == some ';')

/-- Read one character between lexemes: the mode behind it and the lexeme that
it is, if it is one by itself. -/
def stepGap (place : Place) (character : Char) (next? : Option Char) :
    Mode × List Lexeme :=
  if Text.isBlank character then (.gap, [])
  else if character = ';' ∧ next? = some ';' then (.line, [])
  else if character = '(' ∧ next? = some ';' then (.bracket place 1, [])
  else if character = '(' then (.gap, [⟨.opening, place⟩])
  else if character = ')' then (.gap, [⟨.closing, place⟩])
  else if character = '"' then (.string place place [character], [])
  else (.atom place [character], [])

/-- Read one character: the mode behind it and the lexemes that are complete
with it. -/
def step (place : Place) (character : Char) (next? : Option Char) :
    Mode → Mode × List Lexeme
  | .gap => stepGap place character next?
  | .line => (if character = '\n' then .gap else .line, [])
  | .block outer depth =>
      if character = '(' ∧ next? = some ';' then (.bracket outer (depth + 1), [])
      else if character = ';' ∧ next? = some ')' then (.bracket outer (depth - 1), [])
      else (.block outer depth, [])
  | .bracket outer depth => (if depth = 0 then .gap else .block outer depth, [])
  | .atom start read =>
      if endsAtom character next? then
        let (mode, lexemes) := stepGap place character next?
        (mode, ofReversed start read :: lexemes)
      else if character = '"' then (.string start place (character :: read), [])
      else (.atom start (character :: read), [])
  | .string start quote read =>
      if character = '\\' then (.escape start quote (character :: read), [])
      else if character = '"' then (.atom start (character :: read), [])
      else (.string start quote (character :: read), [])
  | .escape start quote read => (.string start quote (character :: read), [])

/-- What the end of the text means in a mode: the lexeme that it completes and
the ending. -/
def close : Mode → List Lexeme × Ending
  | .gap | .line => ([], .complete)
  | .block outer _ | .bracket outer _ => ([], .insideComment outer)
  | .atom start read => ([ofReversed start read], .complete)
  | .string start quote _ | .escape start quote _ => ([], .insideString start quote)

/-- Scan the rest of a text from a mode and a place.  The lexemes found so far
are kept in reverse. -/
def scanFrom (found : List Lexeme) (mode : Mode) (place : Place) : List Char → Scan
  | [] =>
      let (last, ending) := close mode
      ⟨(last.reverse ++ found).reverse, ending, place⟩
  | character :: rest =>
      let (mode', lexemes) := step place character rest.head? mode
      scanFrom (lexemes.reverse ++ found) mode' (place.next character) rest

/-- The lexemes of a text. -/
def scan (text : String) : Scan :=
  scanFrom [] .gap .start text.toList

end Lexeme

end WatLink
