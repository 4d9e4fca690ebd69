import Mathlib
import WatLink.Tree.Lexeme

/-!
# Layouts of token sequences

The grammar of source texts, stated without the scanner.  A layout writes
tokens in order, with a gap in front of each token and one behind the last.  A
gap is made of blanks, line comments and complete block comments.

Three rules say where a gap may not be left out or may not start with a comment
because the token in front of it would read on: two adjacent atoms stand apart,
an atom that ends in a semicolon is not directly followed by a line comment, and
nothing that starts with a semicolon stands directly behind an opening
parenthesis.
-/

namespace WatLink

namespace Lexeme

/-- The rest of a string literal behind its opening quote. -/
inductive LiteralRest : List Char → Prop
  | close : LiteralRest ['"']
  | character {character : Char} {rest : List Char} :
      character ≠ '"' → character ≠ '\\' → LiteralRest rest →
        LiteralRest (character :: rest)
  | escape {character : Char} {rest : List Char} :
      LiteralRest rest → LiteralRest ('\\' :: character :: rest)

/-- A character that stands for itself in an atom. -/
def IsPlain (character : Char) : Prop :=
  Text.isBlank character = false ∧ character ≠ '(' ∧ character ≠ ')' ∧ character ≠ '"'

/-- A piece of an atom: one plain character or one complete string literal. -/
inductive TokenPiece : List Char → Prop
  | plain {character : Char} : IsPlain character → TokenPiece [character]
  | literal {rest : List Char} : LiteralRest rest → TokenPiece ('"' :: rest)

/-- Whether two pieces may be adjacent: they are not both semicolons. -/
def Adjacent (first second : List Char) : Prop :=
  ¬ (first = [';'] ∧ second = [';'])

/-- A text that can be an atom: a nonempty sequence of pieces without two
consecutive semicolons outside string literals. -/
def CompleteToken (text : List Char) : Prop :=
  ∃ pieces : List (List Char), pieces ≠ [] ∧ (∀ piece ∈ pieces, TokenPiece piece) ∧
    pieces.IsChain Adjacent ∧ pieces.flatten = text

/-- The rest of a block comment behind its opening bracket.  Brackets are
recognized from left to right, so a character is skipped only if it does not
begin one. -/
inductive BlockRest : List Char → Prop
  | close : BlockRest [';', ')']
  | skip {character : Char} {rest : List Char} :
      ¬ (character = '(' ∧ rest.head? = some ';') →
        ¬ (character = ';' ∧ rest.head? = some ')') →
          BlockRest rest → BlockRest (character :: rest)
  | nested {inner rest : List Char} :
      BlockRest inner → BlockRest rest → BlockRest ('(' :: ';' :: (inner ++ rest))

/-- A sequence of blanks, line comments and complete block comments. -/
inductive Gap : List Char → Prop
  | nil : Gap []
  | blank {character : Char} {rest : List Char} :
      Text.isBlank character = true → Gap rest → Gap (character :: rest)
  | line {comment rest : List Char} :
      '\n' ∉ comment → Gap rest → Gap (';' :: ';' :: (comment ++ '\n' :: rest))
  | block {comment rest : List Char} :
      BlockRest comment → Gap rest → Gap ('(' :: ';' :: (comment ++ rest))

/-- A gap at the end of a text, where a line comment needs no newline. -/
def FinalGap (text : List Char) : Prop :=
  Gap text ∨ ∃ gap comment, Gap gap ∧ '\n' ∉ comment ∧ text = gap ++ ';' :: ';' :: comment

end Lexeme

namespace Token

/-- The characters of a token. -/
def characters : Token → List Char
  | .opening => ['(']
  | .closing => [')']
  | .atom text => text.toList

/-- Whether the text of an atom can be one. -/
def Complete : Token → Prop
  | .atom text => Lexeme.CompleteToken text.toList
  | _ => True

end Token

namespace Lexeme

/-- Whether a gap may stand between two tokens, either of which is missing at
an end of the text. -/
structure Fits (previous : Option Token) (gap : List Char) (next : Option Token) : Prop where
  atomsApart : ∀ first second, previous = some (.atom first) →
    next = some (.atom second) → gap ≠ []
  noLineComment : ∀ text, previous = some (.atom text) →
    text.toList.getLast? = some ';' → ¬ [';', ';'] <+: gap
  noSemicolon : previous = some .opening →
    (gap ++ (next.map Token.characters).getD []).head? ≠ some ';'

/-- Tokens written in order behind a token, with a gap in front of each. -/
inductive Written : Option Token → List Token → List Char → Prop
  | nil {previous : Option Token} : Written previous [] []
  | token {previous : Option Token} {gap : List Char} {token : Token} {rest : List Token}
      {text : List Char} :
      Gap gap → Fits previous gap (some token) → token.Complete →
        Written (some token) rest text →
          Written previous (token :: rest) (gap ++ (token.characters ++ text))

/-- The last of some tokens behind a token. -/
def lastToken (previous : Option Token) : List Token → Option Token
  | [] => previous
  | token :: rest => lastToken (some token) rest

/-- A text that writes tokens behind a token, with a gap in front of each and
one behind the last. -/
def LayoutBehind (previous : Option Token) (tokens : List Token) (text : List Char) : Prop :=
  ∃ written gap, Written previous tokens written ∧ FinalGap gap ∧
    Fits (lastToken previous tokens) gap none ∧ text = written ++ gap

/-- A text that writes tokens and nothing else but gaps. -/
def Layout (tokens : List Token) (text : List Char) : Prop :=
  LayoutBehind none tokens text

/-! ## Joining what is written -/

@[simp]
theorem lastToken_append (previous : Option Token) (first second : List Token) :
    lastToken previous (first ++ second) = lastToken (lastToken previous first) second := by
  induction first generalizing previous with
  | nil => rfl
  | cons token rest ih => exact ih (some token)

theorem Written.append {previous : Option Token} {first second : List Token}
    {firstText secondText : List Char} (writtenFirst : Written previous first firstText)
    (writtenSecond : Written (lastToken previous first) second secondText) :
    Written previous (first ++ second) (firstText ++ secondText) := by
  induction writtenFirst with
  | nil => exact writtenSecond
  | token gap fits complete _ ih =>
      simpa [List.append_assoc] using Written.token gap fits complete (ih writtenSecond)

theorem Written.single {previous : Option Token} {gap : List Char} {token : Token}
    (isGap : Gap gap) (fits : Fits previous gap (some token)) (complete : token.Complete) :
    Written previous [token] (gap ++ token.characters) := by
  simpa using Written.token isGap fits complete Written.nil

theorem Gap.append {first second : List Char} (gapFirst : Gap first) (gapSecond : Gap second) :
    Gap (first ++ second) := by
  induction gapFirst with
  | nil => exact gapSecond
  | blank isBlank _ ih => exact Gap.blank isBlank ih
  | line noNewline _ ih => simpa using Gap.line noNewline ih
  | block comment _ ih => simpa using Gap.block comment ih

theorem Gap.ofBlanks {blanks : List Char}
    (allBlank : ∀ character ∈ blanks, Text.isBlank character = true) : Gap blanks := by
  induction blanks with
  | nil => exact Gap.nil
  | cons character rest ih =>
      exact Gap.blank (allBlank character (by simp))
        (ih fun other member => allBlank other (by simp [member]))

theorem Fits.ofBlank {character : Char} {rest : List Char} (previous next : Option Token)
    (isBlank : Text.isBlank character = true) : Fits previous (character :: rest) next := by
  have notSemicolon : character ≠ ';' := by
    rintro rfl
    exact absurd isBlank (by decide)
  refine ⟨fun _ _ _ _ => by simp, ?_, ?_⟩
  · rintro text - - ⟨behind, same⟩
    exact notSemicolon (List.cons.inj same).1.symm
  · intro _ starts
    exact notSemicolon (by simpa using starts)

theorem Fits.closing (previous : Option Token) : Fits previous [] (some .closing) :=
  ⟨fun _ _ _ next => by simp at next, fun _ _ _ => by simp, fun _ => by simp [Token.characters]⟩

theorem Fits.opening (previous : Option Token) : Fits previous [] (some .opening) :=
  ⟨fun _ _ _ next => by simp at next, fun _ _ _ => by simp, fun _ => by simp [Token.characters]⟩

theorem Fits.start (gap : List Char) (next : Option Token) : Fits none gap next :=
  ⟨fun _ _ previous => by simp at previous, fun _ previous => by simp at previous,
    fun previous => by simp at previous⟩

end Lexeme

end WatLink
