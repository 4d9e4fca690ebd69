import WatLink.Proofs.TokenLayout

/-!
# Scanning layouts

The scanner passes over a gap without finding anything, and over the characters
of a token finding that token, provided that what follows does not make it read
on.  `MayFollow` states this proviso for each token; it looks at two characters
at most.  Each equation below moves the scanner over one part of a text and
leaves the rest of the text as it is.
-/

namespace WatLink

/-- The place behind several characters. -/
def Place.after (place : Place) (text : List Char) : Place :=
  text.foldl Place.next place

@[simp]
theorem Place.after_nil (place : Place) : place.after [] = place :=
  rfl

@[simp]
theorem Place.after_cons (place : Place) (character : Char) (rest : List Char) :
    place.after (character :: rest) = (place.next character).after rest :=
  rfl

@[simp]
theorem Place.after_append (place : Place) (first second : List Char) :
    place.after (first ++ second) = (place.after first).after second :=
  List.foldl_append

namespace Lexeme

/-- Whether an atom ends in front of a text. -/
def AtomEnds : List Char → Prop
  | [] => True
  | character :: rest => endsAtom character rest.head? = true

/-- Whether a text may stand directly behind a token without being read as a
part of it. -/
def MayFollow (previous : Option Token) (text : List Char) : Prop :=
  match previous with
  | some (.atom atom) =>
      AtomEnds text ∧ (atom.toList.getLast? = some ';' → text.head? ≠ some ';')
  | some .opening => text.head? ≠ some ';'
  | _ => True

/-! ## Characters -/

@[simp]
theorem isBlank_opening : Text.isBlank '(' = false := by decide

@[simp]
theorem isBlank_closing : Text.isBlank ')' = false := by decide

@[simp]
theorem isBlank_semicolon : Text.isBlank ';' = false := by decide

@[simp]
theorem isBlank_quote : Text.isBlank '"' = false := by decide

theorem ne_of_isBlank {character other : Char} (isBlank : Text.isBlank character = true)
    (notBlank : Text.isBlank other = false) : character ≠ other := by
  rintro rfl
  simp [isBlank] at notBlank

/-! ## Gaps -/

theorem scanFrom_cons (found : List Lexeme) (mode : Mode) (place : Place) (character : Char)
    (rest : List Char) :
    scanFrom found mode place (character :: rest) =
      scanFrom ((step place character rest.head? mode).2.reverse ++ found)
        (step place character rest.head? mode).1 (place.next character) rest :=
  rfl

theorem scanFrom_gap_blank {character : Char} (isBlank : Text.isBlank character = true)
    (found : List Lexeme) (place : Place) (rest : List Char) :
    scanFrom found .gap place (character :: rest) =
      scanFrom found .gap (place.next character) rest := by
  simp [scanFrom_cons, step, stepGap, isBlank]

theorem scanFrom_gap_line (found : List Lexeme) (place : Place) (rest : List Char) :
    scanFrom found .gap place (';' :: ';' :: rest) =
      scanFrom found .line (place.after [';', ';']) rest := by
  simp [scanFrom_cons, step, stepGap]

theorem scanFrom_gap_block (found : List Lexeme) (place : Place) (rest : List Char) :
    scanFrom found .gap place ('(' :: ';' :: rest) =
      scanFrom found (.block place 1) (place.after ['(', ';']) rest := by
  simp [scanFrom_cons, step, stepGap]

theorem scanFrom_line {comment : List Char} (noNewline : '\n' ∉ comment)
    (found : List Lexeme) (place : Place) (rest : List Char) :
    scanFrom found .line place (comment ++ '\n' :: rest) =
      scanFrom found .gap (place.after (comment ++ ['\n'])) rest := by
  induction comment generalizing place with
  | nil => simp [scanFrom_cons, step]
  | cons character comment ih =>
      rw [List.mem_cons, not_or] at noNewline
      have different : character ≠ '\n' := Ne.symm noNewline.1
      rw [List.cons_append, scanFrom_cons]
      simp only [step, different, if_false]
      exact ih noNewline.2 (place.next character)

theorem scanFrom_lastLine {comment : List Char} (noNewline : '\n' ∉ comment)
    (found : List Lexeme) (place : Place) :
    scanFrom found .line place comment =
      ⟨found.reverse, .complete, place.after comment⟩ := by
  induction comment generalizing place with
  | nil => rfl
  | cons character comment ih =>
      rw [List.mem_cons, not_or] at noNewline
      have different : character ≠ '\n' := Ne.symm noNewline.1
      rw [scanFrom_cons]
      simp only [step, different, if_false]
      exact ih noNewline.2 (place.next character)

/-- The mode behind a closing comment bracket that leaves `depth` block comments
open. -/
def behindBracket (outer : Place) (depth : Nat) : Mode :=
  if depth = 0 then .gap else .block outer depth

theorem scanFrom_block_opening (found : List Lexeme) (outer place : Place) (depth : Nat)
    (rest : List Char) :
    scanFrom found (.block outer depth) place ('(' :: ';' :: rest) =
      scanFrom found (.block outer (depth + 1)) (place.after ['(', ';']) rest := by
  simp [scanFrom_cons, step]

theorem scanFrom_block_closing (found : List Lexeme) (outer place : Place) (depth : Nat)
    (rest : List Char) :
    scanFrom found (.block outer (depth + 1)) place (';' :: ')' :: rest) =
      scanFrom found (behindBracket outer depth) (place.after [';', ')']) rest := by
  simp [scanFrom_cons, step, behindBracket]

theorem scanFrom_block_skip {character : Char} {rest : List Char}
    (noOpening : ¬ (character = '(' ∧ rest.head? = some ';'))
    (noClosing : ¬ (character = ';' ∧ rest.head? = some ')'))
    (found : List Lexeme) (outer place : Place) (depth : Nat) :
    scanFrom found (.block outer depth) place (character :: rest) =
      scanFrom found (.block outer depth) (place.next character) rest := by
  rw [scanFrom_cons, step, if_neg noOpening, if_neg noClosing]
  rfl

theorem BlockRest.ne_nil {comment : List Char} (isRest : BlockRest comment) : comment ≠ [] := by
  cases isRest <;> simp

theorem scanFrom_blockRest {comment : List Char} (isRest : BlockRest comment)
    (found : List Lexeme) (outer place : Place) (depth : Nat) (rest : List Char) :
    scanFrom found (.block outer (depth + 1)) place (comment ++ rest) =
      scanFrom found (behindBracket outer depth) (place.after comment) rest := by
  induction isRest generalizing depth place rest with
  | close => exact scanFrom_block_closing found outer place depth rest
  | @skip character behind noOpening noClosing isRest ih =>
      have sameHead : (behind ++ rest).head? = behind.head? :=
        List.head?_append_of_ne_nil behind isRest.ne_nil
      rw [List.cons_append, scanFrom_block_skip (by rwa [sameHead]) (by rwa [sameHead]), ih]
      rfl
  | @nested inner behind _ _ innerIH behindIH =>
      simp only [List.cons_append, List.append_assoc]
      rw [scanFrom_block_opening, innerIH, behindBracket, if_neg (Nat.succ_ne_zero depth),
        behindIH]
      simp

theorem scanFrom_gap {gap : List Char} (isGap : Gap gap) (found : List Lexeme)
    (place : Place) (rest : List Char) :
    scanFrom found .gap place (gap ++ rest) = scanFrom found .gap (place.after gap) rest := by
  induction isGap generalizing place with
  | nil => rfl
  | blank isBlank _ ih => rw [List.cons_append, scanFrom_gap_blank isBlank, ih, Place.after_cons]
  | line noNewline _ ih =>
      simp only [List.cons_append, List.append_assoc]
      rw [scanFrom_gap_line, scanFrom_line noNewline, ih]
      simp
  | block isRest _ ih =>
      simp only [List.cons_append, List.append_assoc]
      rw [scanFrom_gap_block, scanFrom_blockRest isRest, behindBracket, if_pos rfl, ih]
      simp

theorem scanFrom_finalGap {gap : List Char} (isFinal : FinalGap gap) (found : List Lexeme)
    (place : Place) :
    scanFrom found .gap place gap = ⟨found.reverse, .complete, place.after gap⟩ := by
  rcases isFinal with isGap | ⟨before, comment, isGap, noNewline, rfl⟩
  · have scanned := scanFrom_gap isGap found place []
    rw [List.append_nil] at scanned
    rw [scanned]
    rfl
  · rw [scanFrom_gap isGap, scanFrom_gap_line, scanFrom_lastLine noNewline]
    simp

/-! ## Atoms -/

theorem scanFrom_atom_plain {character : Char} {rest : List Char}
    (isPlain : IsPlain character)
    (noComment : ¬ (character = ';' ∧ rest.head? = some ';'))
    (found : List Lexeme) (start place : Place) (read : List Char) :
    scanFrom found (.atom start read) place (character :: rest) =
      scanFrom found (.atom start (character :: read)) (place.next character) rest := by
  obtain ⟨notBlank, notOpening, notClosing, notQuote⟩ := isPlain
  have goesOn : endsAtom character rest.head? = false := by
    simpa [endsAtom, notBlank, notOpening, notClosing] using noComment
  simp [scanFrom_cons, step, goesOn, notQuote]

theorem scanFrom_atom_quote (found : List Lexeme) (start place : Place)
    (read rest : List Char) :
    scanFrom found (.atom start read) place ('"' :: rest) =
      scanFrom found (.string start place ('"' :: read)) (place.next '"') rest := by
  simp [scanFrom_cons, step, endsAtom]

theorem scanFrom_string_character {character : Char} (notQuote : character ≠ '"')
    (notEscape : character ≠ '\\') (found : List Lexeme) (start quote place : Place)
    (read rest : List Char) :
    scanFrom found (.string start quote read) place (character :: rest) =
      scanFrom found (.string start quote (character :: read)) (place.next character) rest := by
  simp [scanFrom_cons, step, notQuote, notEscape]

theorem scanFrom_string_escape (found : List Lexeme) (start quote place : Place)
    (read : List Char) (character : Char) (rest : List Char) :
    scanFrom found (.string start quote read) place ('\\' :: character :: rest) =
      scanFrom found (.string start quote (character :: '\\' :: read))
        (place.after ['\\', character]) rest := by
  simp [scanFrom_cons, step]

theorem scanFrom_literalRest {literal : List Char} (isRest : LiteralRest literal)
    (found : List Lexeme) (start quote place : Place) (read rest : List Char) :
    scanFrom found (.string start quote read) place (literal ++ rest) =
      scanFrom found (.atom start (literal.reverse ++ read)) (place.after literal) rest := by
  induction isRest generalizing read place with
  | close => simp [scanFrom_cons, step]
  | character notQuote notEscape _ ih =>
      rw [List.cons_append, scanFrom_string_character notQuote notEscape, ih]
      simp
  | escape _ ih =>
      simp only [List.cons_append]
      rw [scanFrom_string_escape, ih]
      simp

/-- Pieces of an atom in front of a text that does not turn a last semicolon
into a line comment. -/
structure PiecesBefore (rest : List Char) (pieces : List (List Char)) : Prop where
  arePieces : ∀ piece ∈ pieces, TokenPiece piece
  chain : pieces.IsChain Adjacent
  bounded : pieces.flatten.getLast? = some ';' → rest.head? ≠ some ';'

namespace PiecesBefore

theorem nil (rest : List Char) : PiecesBefore rest [] :=
  ⟨by simp, .nil, by simp⟩

theorem tail {rest piece : List Char} {pieces : List (List Char)}
    (before : PiecesBefore rest (piece :: pieces)) : PiecesBefore rest pieces where
  arePieces := fun other member => before.arePieces other (by simp [member])
  chain := before.chain.of_cons
  bounded := fun last => before.bounded (by simp [List.getLast?_append, last])

theorem noComment {rest : List Char} {character : Char} {pieces : List (List Char)}
    (before : PiecesBefore rest ([character] :: pieces)) :
    ¬ (character = ';' ∧ (pieces.flatten ++ rest).head? = some ';') := by
  rintro ⟨rfl, next⟩
  cases pieces with
  | nil => exact before.bounded rfl (by simpa using next)
  | cons piece pieces =>
      have adjacent : Adjacent [';'] piece := (List.isChain_cons_cons.mp before.chain).1
      cases before.arePieces piece (by simp) with
      | plain isPlain =>
          have same := Option.some.inj (by simpa using next)
          exact adjacent ⟨rfl, by rw [same]⟩
      | literal isRest => simp at next

end PiecesBefore

theorem scanFrom_pieces {pieces : List (List Char)} {rest : List Char}
    (before : PiecesBefore rest pieces) (found : List Lexeme) (start place : Place)
    (read : List Char) :
    scanFrom found (.atom start read) place (pieces.flatten ++ rest) =
      scanFrom found (.atom start (pieces.flatten.reverse ++ read))
        (place.after pieces.flatten) rest := by
  induction pieces generalizing read place with
  | nil => rfl
  | cons piece pieces ih =>
      cases before.arePieces piece (by simp) with
      | plain isPlain =>
          rw [List.flatten_cons, List.append_assoc, List.singleton_append,
            scanFrom_atom_plain isPlain before.noComment, ih before.tail]
          simp
      | literal isRest =>
          rw [List.flatten_cons, List.append_assoc, List.cons_append, scanFrom_atom_quote,
            scanFrom_literalRest isRest, ih before.tail]
          simp

theorem scanFrom_atomEnd {rest : List Char} (ends : AtomEnds rest) (found : List Lexeme)
    (start place : Place) (read : List Char) :
    scanFrom found (.atom start read) place rest =
      scanFrom (ofReversed start read :: found) .gap place rest := by
  cases rest with
  | nil => rfl
  | cons character rest =>
      have ends' : endsAtom character rest.head? = true := ends
      simp [scanFrom_cons, step, ends']

theorem scanFrom_atomStart {text : List Char} (goesOn : ¬ AtomEnds text)
    (found : List Lexeme) (place : Place) :
    scanFrom found .gap place text = scanFrom found (.atom place []) place text := by
  cases text with
  | nil => exact absurd trivial goesOn
  | cons character rest =>
      have goesOn' : endsAtom character rest.head? = false := by
        simpa [AtomEnds] using goesOn
      have ⟨notBlank, notOpening, notClosing, noComment⟩ :
          Text.isBlank character = false ∧ character ≠ '(' ∧ character ≠ ')' ∧
            ¬ (character = ';' ∧ rest.head? = some ';') := by
        simpa [endsAtom, and_assoc] using goesOn'
      rw [scanFrom_cons, scanFrom_cons]
      simp only [step, stepGap, goesOn', notBlank, notOpening, notClosing, noComment]
      by_cases isQuote : character = '"' <;> simp [isQuote]

theorem PiecesBefore.not_atomEnds {rest piece : List Char} {pieces : List (List Char)}
    (before : PiecesBefore rest (piece :: pieces)) :
    ¬ AtomEnds ((piece :: pieces).flatten ++ rest) := by
  cases before.arePieces piece (by simp) with
  | plain isPlain =>
      obtain ⟨notBlank, notOpening, notClosing, notQuote⟩ := isPlain
      simpa [AtomEnds, endsAtom, notBlank, notOpening, notClosing] using before.noComment
  | literal isRest => simp [AtomEnds, endsAtom]

/-- The scanner finds a token that nothing behind it extends. -/
theorem scanFrom_token {token : Token} {rest : List Char} (complete : token.Complete)
    (follows : MayFollow (some token) rest) (found : List Lexeme) (place : Place) :
    scanFrom found .gap place (token.characters ++ rest) =
      scanFrom (⟨token, place⟩ :: found) .gap (place.after token.characters) rest := by
  cases token with
  | opening =>
      have noSemicolon : rest.head? ≠ some ';' := follows
      simp [Token.characters, scanFrom_cons, step, stepGap, noSemicolon]
  | closing => simp [Token.characters, scanFrom_cons, step, stepGap]
  | atom text =>
      obtain ⟨pieces, nonempty, arePieces, chain, same⟩ := complete
      obtain ⟨ends, bounded⟩ := follows
      simp only [Token.characters]
      rw [← same] at bounded ⊢
      have before : PiecesBefore rest pieces := ⟨arePieces, chain, bounded⟩
      obtain ⟨piece, others, rfl⟩ := List.exists_cons_of_ne_nil nonempty
      rw [scanFrom_atomStart before.not_atomEnds, scanFrom_pieces before, scanFrom_atomEnd ends]
      simp only [ofReversed, List.append_nil, List.reverse_reverse, same, String.ofList_toList]

/-! ## Layouts -/

theorem FinalGap.start_cases {gap : List Char} (isFinal : FinalGap gap) :
    gap = [] ∨ (∃ character rest, gap = character :: rest ∧ Text.isBlank character = true) ∨
      (∃ rest, gap = ';' :: ';' :: rest) ∨ ∃ rest, gap = '(' :: rest := by
  rcases isFinal with isGap | ⟨before, comment, isGap, -, rfl⟩
  · cases isGap with
    | nil => exact .inl rfl
    | blank isBlank _ => exact .inr (.inl ⟨_, _, rfl, isBlank⟩)
    | line _ _ => exact .inr (.inr (.inl ⟨_, rfl⟩))
    | block _ _ => exact .inr (.inr (.inr ⟨_, rfl⟩))
  · cases isGap with
    | nil => exact .inr (.inr (.inl ⟨_, rfl⟩))
    | blank isBlank _ => exact .inr (.inl ⟨_, _, rfl, isBlank⟩)
    | line _ _ => exact .inr (.inr (.inl ⟨_, rfl⟩))
    | block _ _ => exact .inr (.inr (.inr ⟨_, rfl⟩))

theorem mayFollow_gap {previous next : Option Token} {gap : List Char}
    (isFinal : FinalGap gap) (fits : Fits previous gap next) (nonempty : gap ≠ [])
    (rest : List Char) : MayFollow previous (gap ++ rest) := by
  match previous with
  | none | some .closing => trivial
  | some .opening =>
      have noSemicolon := fits.noSemicolon rfl
      rw [List.head?_append_of_ne_nil gap nonempty] at noSemicolon
      show (gap ++ rest).head? ≠ some ';'
      rwa [List.head?_append_of_ne_nil gap nonempty]
  | some (.atom text) =>
      rcases isFinal.start_cases with rfl | ⟨character, behind, rfl, isBlank⟩ | ⟨behind, rfl⟩ |
          ⟨behind, rfl⟩
      · exact absurd rfl nonempty
      · have notSemicolon := ne_of_isBlank isBlank isBlank_semicolon
        exact ⟨by simp [AtomEnds, endsAtom, isBlank], fun _ => by simpa using notSemicolon⟩
      · refine ⟨by simp [AtomEnds, endsAtom], fun last => ?_⟩
        exact absurd ⟨behind, rfl⟩ (fits.noLineComment text rfl last)
      · exact ⟨by simp [AtomEnds, endsAtom], fun _ => by simp⟩

theorem CompleteToken.ne_nil {text : List Char} (complete : CompleteToken text) : text ≠ [] := by
  obtain ⟨pieces, nonempty, arePieces, -, rfl⟩ := complete
  cases pieces with
  | nil => exact absurd rfl nonempty
  | cons piece pieces => cases arePieces piece (by simp) <;> simp

theorem characters_ne_nil {token : Token}
    (complete : token.Complete) : token.characters ≠ [] := by
  cases token with
  | atom text => exact CompleteToken.ne_nil complete
  | opening | closing => simp [Token.characters]

theorem mayFollow_token {previous : Option Token} {token : Token}
    (fits : Fits previous [] (some token)) (complete : token.Complete) (rest : List Char) :
    MayFollow previous (token.characters ++ rest) := by
  match previous with
  | none | some .closing => trivial
  | some .opening =>
      have noSemicolon := fits.noSemicolon rfl
      show (token.characters ++ rest).head? ≠ some ';'
      rw [List.head?_append_of_ne_nil _ (characters_ne_nil complete)]
      simpa using noSemicolon
  | some (.atom text) =>
      cases token with
      | atom other => exact absurd rfl (fits.atomsApart text other rfl rfl)
      | opening => exact ⟨by simp [Token.characters, AtomEnds, endsAtom],
          fun _ => by simp [Token.characters]⟩
      | closing => exact ⟨by simp [Token.characters, AtomEnds, endsAtom],
          fun _ => by simp [Token.characters]⟩

/-- Lexemes at their places behind a token, in a text that starts at a place and has
a gap in front of each of them. -/
inductive Laid : Option Token → Place → List Lexeme → List Char → Prop
  | nil {previous : Option Token} {place : Place} : Laid previous place [] []
  | lexeme {previous : Option Token} {place : Place} {gap : List Char} {token : Token}
      {rest : List Lexeme} {text : List Char} :
      Gap gap → Fits previous gap (some token) → token.Complete →
        Laid (some token) ((place.after gap).after token.characters) rest text →
          Laid previous place (⟨token, place.after gap⟩ :: rest)
            (gap ++ (token.characters ++ text))

/-- What is written has its lexemes at some places. -/
theorem Written.exists_laid {previous : Option Token} {tokens : List Token} {text : List Char}
    (isWritten : Written previous tokens text) (place : Place) :
    ∃ lexemes, Laid previous place lexemes text ∧ lexemes.map Lexeme.token = tokens := by
  induction isWritten generalizing place with
  | nil => exact ⟨[], .nil, rfl⟩
  | @token previous gap token tokens text isGap fits complete _ ih =>
      obtain ⟨lexemes, laid, sameTokens⟩ := ih ((place.after gap).after token.characters)
      exact ⟨_, .lexeme isGap fits complete laid, by simp [sameTokens]⟩

/-- The scanner finds lexemes where they are laid. -/
theorem scanFrom_laid {previous : Option Token} {place : Place} {lexemes : List Lexeme}
    {text rest : List Char} (laid : Laid previous place lexemes text)
    (follows : MayFollow (lastToken previous (lexemes.map Lexeme.token)) rest) :
    MayFollow previous (text ++ rest) ∧
      ∀ found : List Lexeme, scanFrom found .gap place (text ++ rest) =
        scanFrom (lexemes.reverse ++ found) .gap (place.after text) rest := by
  induction laid with
  | nil => exact ⟨follows, fun found => rfl⟩
  | @lexeme previous place gap token lexemes text isGap fits complete _ ih =>
      obtain ⟨followsToken, scanned⟩ := ih follows
      simp only [List.append_assoc]
      refine ⟨?_, fun found => ?_⟩
      · by_cases empty : gap = []
        · subst empty
          exact mayFollow_token fits complete (text ++ rest)
        · exact mayFollow_gap (.inl isGap) fits empty _
      · rw [scanFrom_gap isGap, scanFrom_token complete followsToken, scanned]
        simp

/-- A layout behind a token may follow it, and the scanner finds its lexemes where they
are laid. -/
theorem scanFrom_layoutBehind {previous : Option Token} {tokens : List Token} {text : List Char}
    (layout : LayoutBehind previous tokens text) (place : Place) :
    MayFollow previous text ∧ ∃ lexemes written gap, text = written ++ gap ∧
      Laid previous place lexemes written ∧ lexemes.map Lexeme.token = tokens ∧
        ∀ found : List Lexeme, scanFrom found .gap place text =
          ⟨found.reverse ++ lexemes, .complete, place.after text⟩ := by
  obtain ⟨written, gap, isWritten, isFinal, fits, rfl⟩ := layout
  have follows : MayFollow (lastToken previous tokens) gap := by
    by_cases empty : gap = []
    · subst empty
      cases lastToken previous tokens with
      | none => trivial
      | some token => cases token <;> simp [MayFollow, AtomEnds]
    · simpa using mayFollow_gap isFinal fits empty []
  obtain ⟨lexemes, laid, sameTokens⟩ := isWritten.exists_laid place
  rw [← sameTokens] at follows
  obtain ⟨followsAll, scanned⟩ := scanFrom_laid laid follows
  refine ⟨followsAll, lexemes, written, gap, rfl, laid, sameTokens, fun found => ?_⟩
  rw [scanned, scanFrom_finalGap isFinal]
  simp

/-- The scanner does not break off in a layout and finds its tokens where they are
laid. -/
theorem scanFrom_layout {tokens : List Token} {text : List Char}
    (layout : Layout tokens text) (place : Place) :
    (scanFrom [] .gap place text).ending = .complete ∧
      (scanFrom [] .gap place text).lexemes.map Lexeme.token = tokens ∧
      ∃ written gap, text = written ++ gap ∧
        Laid none place (scanFrom [] .gap place text).lexemes written := by
  obtain ⟨-, lexemes, written, gap, isText, laid, sameTokens, scanned⟩ :=
    scanFrom_layoutBehind layout place
  rw [scanned]
  exact ⟨rfl, sameTokens, written, gap, isText, laid⟩

end Lexeme

end WatLink
