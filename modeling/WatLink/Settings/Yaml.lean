import WatLink.Settings.File
import WatLink.Settings.Scalar
import WatLink.Text.LineEnds

/-!
# A reader of configuration text

A reader for a part of YAML: one document of block mappings and block lists, flow
lists and flow mappings, plain and quoted scalars, and comments.  Indentation is
told by the column of the first character of a key or a dash.  Tabs separate
nothing.  Anchors, tags, block scalars, dates and directives are refused, as is
all that YAML itself refuses.

The readers of nested data take a number that bounds how often they call each
other; the length of the text is more than enough.
-/

namespace WatLink

namespace Yaml

/-- What remains to be read, and the line and column where it starts, counted
from zero. -/
structure Cursor where
  rest : List Char
  line : Nat
  column : Nat

/-- Whether a character ends a line. -/
def isBreak (character : Char) : Bool :=
  character == '\n' || character == Char.ofNat 0x85 || character == Char.ofNat 0x2028 ||
    character == Char.ofNat 0x2029

/-- Whether a token ends before a character or the end of the text. -/
def endsToken : Option Char → Bool
  | none => true
  | some character => character == ' ' || character == '\t' || isBreak character

/-- Whether a character may stand in configuration text. -/
def isAllowed (character : Char) : Bool :=
  let codePoint := character.toNat
  codePoint == 0x09 || codePoint == 0x0A || codePoint == 0x0D || codePoint == 0x85 ||
    (decide (0x20 ≤ codePoint) && decide (codePoint ≤ 0x7E)) ||
    (decide (0xA0 ≤ codePoint) && codePoint != 0xFFFE && codePoint != 0xFFFF)

namespace Cursor

/-- The next character. -/
def peek? (cursor : Cursor) : Option Char :=
  cursor.rest.head?

/-- The character behind the next one. -/
def peekSecond? (cursor : Cursor) : Option Char :=
  cursor.rest.tail.head?

/-- The cursor behind the next character. -/
def advance (cursor : Cursor) : Cursor :=
  match cursor.rest with
  | [] => cursor
  | character :: rest =>
      if isBreak character then ⟨rest, cursor.line + 1, 0⟩
      else ⟨rest, cursor.line, cursor.column + 1⟩

/-- The cursor behind a number of characters. -/
def advanceBy (cursor : Cursor) : Nat → Cursor
  | 0 => cursor
  | count + 1 => cursor.advance.advanceBy count

/-- Skip blanks, comments and line ends. -/
def skipGapFrom (inComment : Bool) (line column : Nat) : List Char → Cursor
  | [] => ⟨[], line, column⟩
  | character :: rest =>
      if isBreak character then skipGapFrom false (line + 1) 0 rest
      else if inComment || character == ' ' then skipGapFrom inComment line (column + 1) rest
      else if character == '#' then skipGapFrom true line (column + 1) rest
      else ⟨character :: rest, line, column⟩

/-- The cursor at the next token. -/
def skipGap (cursor : Cursor) : Cursor :=
  skipGapFrom false cursor.line cursor.column cursor.rest

/-- The cursor behind the blanks of the current line. -/
def skipSpaces (cursor : Cursor) : Cursor :=
  cursor.advanceBy (cursor.rest.takeWhile (· == ' ')).length

/-- Whether a document marker of three equal characters stands here, at the
start of a line. -/
def atMarker (cursor : Cursor) (character : Char) : Bool :=
  cursor.column == 0 && List.isPrefixOf [character, character, character] cursor.rest &&
    endsToken (cursor.rest.drop 3).head?

/-- Whether the document ends here. -/
def atEnd (cursor : Cursor) : Bool :=
  cursor.rest.isEmpty || cursor.atMarker '-' || cursor.atMarker '.'

/-- Whether an indicator stands here: the given character with a blank behind
it. -/
def atIndicator (cursor : Cursor) (character : Char) : Bool :=
  cursor.peek? == some character && endsToken cursor.peekSecond?

end Cursor

/-- Characters that do not start a plain scalar, though three of them may with
something behind them. -/
def indicators : List Char :=
  ['-', '?', ':', ',', '[', ']', '\x7b', '\x7d', '#', '&', '*', '!', '|', '>', '\'', '"', '%',
    '@', Char.ofNat 0x60]

/-- The brackets and separators of flow collections. -/
def flowMarks : List Char := [',', '[', ']', '\x7b', '\x7d']

/-- Whether a plain scalar starts here. -/
def startsPlain (inFlow : Bool) (cursor : Cursor) : Bool :=
  match cursor.peek? with
  | none => false
  | some character =>
      (!endsToken (some character) && !indicators.contains character) ||
        (!endsToken cursor.peekSecond? &&
          (character == '-' || (!inFlow && (character == '?' || character == ':'))))

/-- The number of characters of a plain scalar up to the next blank or
indicator. -/
def plainLength (inFlow : Bool) : List Char → Nat
  | [] => 0
  | character :: rest =>
      let isValueMark := character == ':' &&
        (endsToken rest.head? || (inFlow && rest.head?.any flowMarks.contains))
      if endsToken (some character) || isValueMark ||
          (inFlow && (character == '?' || flowMarks.contains character)) then 0
      else plainLength inFlow rest + 1

/-- Skip the blanks and line ends inside a scalar, counting the line ends. -/
def skipFold (breaks : Nat) (line column : Nat) : List Char → Nat × Cursor
  | [] => (breaks, ⟨[], line, column⟩)
  | character :: rest =>
      if isBreak character then skipFold (breaks + 1) (line + 1) 0 rest
      else if character == ' ' then skipFold breaks line (column + 1) rest
      else (breaks, ⟨character :: rest, line, column⟩)

/-- The text that some line ends inside a scalar stand for: a single one is a
space, and of several all but the first are kept. -/
def folded (breaks : Nat) : List Char :=
  if breaks = 1 then [' '] else List.replicate (breaks - 1) '\n'

/-- Read a plain scalar, which may go on over lines indented more than the
given column.  The text so far is given in reverse. -/
def readPlain (inFlow : Bool) (indent : Int) :
    (bound : Nat) → (read : List Char) → Cursor → List Char × Cursor
  | 0, read, cursor => (read.reverse, cursor)
  | bound + 1, read, cursor =>
      let length := plainLength inFlow cursor.rest
      let read := (cursor.rest.take length).reverse ++ read
      let after := cursor.advanceBy length
      let spaces := (after.rest.takeWhile (· == ' ')).length
      let (breaks, next) := skipFold 0 after.line after.column after.rest
      let continues := (spaces != 0 || breaks != 0) && !next.atEnd && next.peek? != some '#' &&
        (inFlow || decide (indent < next.column)) && plainLength inFlow next.rest != 0
      if continues then
        let gap := if breaks = 0 then List.replicate spaces ' ' else folded breaks
        readPlain inFlow indent bound (gap.reverse ++ read) next
      else (read.reverse, after)

/-- What a reader of a quoted scalar is inside of. -/
inductive QuoteMode where
  | plain
  /-- Behind a quote that may be doubled. -/
  | quote
  /-- Behind a backslash. -/
  | escape
  /-- Inside a numeric escape with so many digits to come. -/
  | digits (remaining : Nat) (codePoint : Nat)
  /-- Behind blanks, kept in reverse. -/
  | spaces (blanks : List Char)
  /-- Behind line ends, so many of which count. -/
  | fold (breaks : Nat)
  /-- Behind an escaped line end. -/
  | escapedFold (breaks : Nat)

/-- The character of a single-letter escape. -/
def escapeOf? : Char → Option Char
  | '0' => some (Char.ofNat 0)
  | 'a' => some (Char.ofNat 7)
  | 'b' => some (Char.ofNat 8)
  | 't' => some '\t'
  | '\t' => some '\t'
  | 'n' => some '\n'
  | 'v' => some (Char.ofNat 11)
  | 'f' => some (Char.ofNat 12)
  | 'r' => some '\r'
  | 'e' => some (Char.ofNat 27)
  | ' ' => some ' '
  | '"' => some '"'
  | '\\' => some '\\'
  | '/' => some '/'
  | 'N' => some (Char.ofNat 0x85)
  | '_' => some (Char.ofNat 0xA0)
  | 'L' => some (Char.ofNat 0x2028)
  | 'P' => some (Char.ofNat 0x2029)
  | _ => none

/-- The number of digits of a numeric escape. -/
def escapeDigits? : Char → Option Nat
  | 'x' => some 2
  | 'u' => some 4
  | 'U' => some 8
  | _ => none

/-- The text so far, in reverse, with what a mode holds back. -/
def flush (read : List Char) : QuoteMode → List Char
  | .spaces blanks => blanks ++ read
  | .fold breaks => (folded breaks).reverse ++ read
  | .escapedFold breaks => List.replicate breaks '\n' ++ read
  | _ => read

/-- Read a quoted scalar behind its opening quote, up to and with the closing
one. -/
def readQuoted (double : Bool) (read : List Char) (mode : QuoteMode) (line column : Nat) :
    List Char → Option (List Char × Cursor)
  | [] =>
      match mode with
      | .quote => some (read.reverse, ⟨[], line, column⟩)
      | _ => none
  | character :: rest =>
      let line' := if isBreak character then line + 1 else line
      let column' := if isBreak character then 0 else column + 1
      let cursor : Cursor := ⟨character :: rest, line, column⟩
      if cursor.atMarker '-' || cursor.atMarker '.' then none
      else
        match mode with
        | .quote =>
            if character = '\'' then readQuoted double ('\'' :: read) .plain line' column' rest
            else some (read.reverse, cursor)
        | .escape =>
            match escapeOf? character, escapeDigits? character with
            | some escaped, _ => readQuoted double (escaped :: read) .plain line' column' rest
            | none, some count => readQuoted double read (.digits count 0) line' column' rest
            | none, none =>
                if isBreak character then
                  readQuoted double read (.escapedFold 0) line' column' rest
                else none
        | .digits remaining codePoint =>
            match Radix.hexadecimal.digit? character with
            | none => none
            | some digit =>
                let codePoint := codePoint * 16 + digit
                if remaining ≤ 1 then
                  readQuoted double (Char.ofNat codePoint :: read) .plain line' column' rest
                else
                  readQuoted double read (.digits (remaining - 1) codePoint) line' column' rest
        | mode =>
            if isBreak character then
              let mode :=
                match mode with
                | .fold breaks => QuoteMode.fold (breaks + 1)
                | .escapedFold breaks => QuoteMode.escapedFold (breaks + 1)
                | _ => QuoteMode.fold 1
              readQuoted double read mode line' column' rest
            else if character = ' ' ∨ character = '\t' then
              let mode :=
                match mode with
                | .spaces blanks => QuoteMode.spaces (character :: blanks)
                | .plain => QuoteMode.spaces [character]
                | mode => mode
              readQuoted double read mode line' column' rest
            else
              let read := flush read mode
              if double && character == '"' then some (read.reverse, ⟨rest, line', column'⟩)
              else if double && character == '\\' then
                readQuoted double read .escape line' column' rest
              else if !double && character == '\'' then
                readQuoted double read .quote line' column' rest
              else readQuoted double (character :: read) .plain line' column' rest

/-- Read a scalar.  The column bounds how far a plain one may go on. -/
def readScalar (inFlow : Bool) (indent : Int) (cursor : Cursor) : Option (Datum × Cursor) :=
  match cursor.peek? with
  | some '"' =>
      let cursor := cursor.advance
      (readQuoted true [] .plain cursor.line cursor.column cursor.rest).map
        fun (text, after) => (.text (String.ofList text), after)
  | some '\'' =>
      let cursor := cursor.advance
      (readQuoted false [] .plain cursor.line cursor.column cursor.rest).map
        fun (text, after) => (.text (String.ofList text), after)
  | _ =>
      if startsPlain inFlow cursor then
        let (text, after) := readPlain inFlow indent (cursor.rest.length + 1) [] cursor
        (Scalar.resolve (String.ofList text)).map (·, after)
      else none

mutual

/-- Read a value inside a flow collection. -/
def readFlow : (bound : Nat) → Cursor → Option (Datum × Cursor)
  | 0, _ => none
  | bound + 1, cursor =>
      match cursor.peek? with
      | some '[' => readFlowList bound [] cursor.advance
      | some '\x7b' => readFlowMapping bound [] cursor.advance
      | _ => readScalar true (-1) cursor

/-- Read an optional value behind a colon in a flow collection. -/
def readFlowValue : (bound : Nat) → Cursor → Option (Datum × Cursor)
  | 0, _ => none
  | bound + 1, cursor =>
      let cursor := cursor.skipGap
      match cursor.peek? with
      | some ',' | some ']' | some '\x7d' => some (.null, cursor)
      | _ => readFlow bound cursor

/-- Read the rest of a flow list.  The items so far are given in reverse. -/
def readFlowList : (bound : Nat) → List Datum → Cursor → Option (Datum × Cursor)
  | 0, _, _ => none
  | bound + 1, items, cursor =>
      let cursor := cursor.skipGap
      if cursor.peek? = some ']' then some (.list items.reverse, cursor.advance)
      else do
        let (item, after) ← readFlow bound cursor
        let next := after.skipGap
        let (item, next) ←
          if next.peek? = some ':' ∧ next.line = cursor.line ∧ item.unhashable?.isNone then do
            let (value, after) ← readFlowValue bound next.advance
            pure (Datum.mapping [(item, value)], after.skipGap)
          else pure (item, next)
        match next.peek? with
        | some ',' => readFlowList bound (item :: items) next.advance
        | some ']' => some (.list (item :: items).reverse, next.advance)
        | _ => none

/-- Read the rest of a flow mapping. -/
def readFlowMapping :
    (bound : Nat) → List (Datum × Datum) → Cursor → Option (Datum × Cursor)
  | 0, _, _ => none
  | bound + 1, entries, cursor =>
      let cursor := cursor.skipGap
      if cursor.peek? = some '\x7d' then some (.mapping entries, cursor.advance)
      else do
        let (key, after) ← readFlow bound cursor
        if key.unhashable?.isSome then none
        let next := after.skipGap
        let (value, next) ←
          if next.peek? = some ':' ∧ next.line = cursor.line then do
            let (value, after) ← readFlowValue bound next.advance
            pure (value, after.skipGap)
          else pure (Datum.null, next)
        let entries := Datum.insertEntry key value entries
        match next.peek? with
        | some ',' => readFlowMapping bound entries next.advance
        | some '\x7d' => some (.mapping entries, next.advance)
        | _ => none

end

/-- Read a scalar or a flow collection in block context. -/
def readInline (bound : Nat) (indent : Int) (cursor : Cursor) : Option (Datum × Cursor) :=
  match cursor.peek? with
  | some '[' | some '\x7b' => readFlow bound cursor
  | _ => readScalar false indent cursor

/-- Read a key of a block mapping, and the colon behind it on the same line. -/
def readKey (bound : Nat) (indent : Int) (cursor : Cursor) : Option (Datum × Cursor) := do
  let (key, after) ← readInline bound indent cursor
  let colon := after.skipSpaces
  if colon.atIndicator ':' ∧ colon.line = cursor.line ∧ key.unhashable?.isNone then
    pure (key, colon.advance)
  else none

mutual

/-- Read a value in block context, below a collection with the given column.
The flags say whether a block collection may start on this line, and whether a
list may stand in the column of the collection. -/
def readBlock :
    (bound : Nat) → (indent : Int) → (startsLine listBelow : Bool) → Cursor →
      Option (Datum × Cursor)
  | 0, _, _, _, _ => none
  | bound + 1, indent, startsLine, listBelow, cursor =>
      let isDash := cursor.atIndicator '-'
      if cursor.atEnd then some (.null, cursor)
      else if (cursor.column : Int) ≤ indent then
        if listBelow && isDash && (cursor.column : Int) == indent then
          readBlockList bound cursor.column [] cursor
        else some (.null, cursor)
      else if isDash then
        if startsLine then readBlockList bound cursor.column [] cursor else none
      else do
        let (value, after) ← readInline bound indent cursor
        if after.skipSpaces.atIndicator ':' then
          if startsLine then do
            let (key, behind) ← readKey bound indent cursor
            readBlockMapping bound cursor.column [] key behind
          else none
        else pure (value, after)

/-- Read the rest of a block list from one of its dashes on.  The items so far
are given in reverse. -/
def readBlockList :
    (bound : Nat) → (column : Nat) → List Datum → Cursor → Option (Datum × Cursor)
  | 0, _, _, _ => none
  | bound + 1, column, items, cursor => do
      let (item, after) ← readBlock bound column true false cursor.advance.skipGap
      let next := after.skipGap
      if next.atEnd || decide (next.column < column) then
        pure (.list (item :: items).reverse, next)
      else if next.column = column then
        if next.atIndicator '-' then readBlockList bound column (item :: items) next
        else pure (.list (item :: items).reverse, next)
      else none

/-- Read the rest of a block mapping from behind the colon of one of its keys
on. -/
def readBlockMapping :
    (bound : Nat) → (column : Nat) → List (Datum × Datum) → Datum → Cursor →
      Option (Datum × Cursor)
  | 0, _, _, _, _ => none
  | bound + 1, column, entries, key, cursor => do
      let start := cursor.skipGap
      let onNewLine := start.line != cursor.line
      let (value, after) ← readBlock bound column onNewLine onNewLine start
      let entries := Datum.insertEntry key value entries
      let next := after.skipGap
      if next.atEnd || decide (next.column < column) then pure (.mapping entries, next)
      else if next.column = column then do
        let (key, behind) ← readKey bound column next
        readBlockMapping bound column entries key behind
      else none

end

/-- Whether nothing but gaps follows, possibly behind an end marker. -/
def isFinished (cursor : Cursor) : Bool :=
  let cursor := cursor.skipGap
  cursor.rest.isEmpty ||
    (cursor.atMarker '.' && (cursor.advanceBy 3).skipGap.rest.isEmpty)

/-- Read the only document of a text. -/
def parse (text : String) : Option Datum :=
  let characters := text.toList
  if !characters.all isAllowed then none
  else
    let characters :=
      if characters.head? = some (Char.ofNat 0xFEFF) then characters.tail else characters
    let bound := 4 * characters.length + 8
    let start := Cursor.skipGap ⟨characters, 0, 0⟩
    let marked := start.atMarker '-'
    let content := if marked then (start.advanceBy 3).skipGap else start
    let startsLine := !marked || content.line != start.line
    match readBlock bound (-1) startsLine false content with
    | none => none
    | some (value, after) => if isFinished after then some value else none

/-- What is said about text that cannot be read. -/
def refusal : String := "not in the part of YAML that is read"

/-- Read the contents of a configuration file. -/
def read : DocumentReader := fun bytes =>
  match Text.decodeLines bytes with
  | .error fault => .broken ⟨"UnicodeDecodeError", fault.message⟩
  | .ok text =>
      match parse text with
      | some datum => .data datum
      | none => .malformed refusal

end Yaml

end WatLink
