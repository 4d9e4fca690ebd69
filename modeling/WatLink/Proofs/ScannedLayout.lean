import WatLink.Proofs.LayoutScanning

/-!
# Layouts of scanned texts

Every text can be read up to its end or up to a comment or a string literal that is
not closed.  The scanner is followed from mode to mode: each mode has its part of the
grammar ahead of it or breaks off, and the equations for scanning that part lead to
the next mode with a shorter text.  A text in which the scanner does not break off is
therefore a layout.
-/

namespace WatLink

namespace Lexeme

/-! ## Comments and literals that are not closed -/

/-- Whether a block comment is not closed in the text behind its opening bracket. -/
def OpenComment (text : List Char) : Prop :=
  ∀ comment, BlockRest comment → ¬ comment <+: text

/-- Whether a string literal is not closed in the text behind its opening quote. -/
def OpenLiteral (text : List Char) : Prop :=
  ∀ literal, LiteralRest literal → ¬ literal <+: text

theorem closed_or_openComment (text : List Char) :
    (∃ comment rest, BlockRest comment ∧ text = comment ++ rest) ∨ OpenComment text := by
  by_cases closed : ∃ comment, BlockRest comment ∧ comment <+: text
  · obtain ⟨comment, isRest, rest, rfl⟩ := closed
    exact .inl ⟨comment, rest, isRest, rfl⟩
  · exact .inr fun comment isRest isPrefix => closed ⟨comment, isRest, isPrefix⟩

theorem closed_or_openLiteral (text : List Char) :
    (∃ literal rest, LiteralRest literal ∧ text = literal ++ rest) ∨ OpenLiteral text := by
  by_cases closed : ∃ literal, LiteralRest literal ∧ literal <+: text
  · obtain ⟨literal, isRest, rest, rfl⟩ := closed
    exact .inl ⟨literal, rest, isRest, rfl⟩
  · exact .inr fun literal isRest isPrefix => closed ⟨literal, isRest, isPrefix⟩

namespace OpenComment

theorem behind_skip {character : Char} {text : List Char}
    (isOpen : OpenComment (character :: text))
    (noOpening : ¬ (character = '(' ∧ text.head? = some ';'))
    (noClosing : ¬ (character = ';' ∧ text.head? = some ')')) : OpenComment text := by
  rintro comment isRest ⟨rest, rfl⟩
  have sameHead : (comment ++ rest).head? = comment.head? :=
    List.head?_append_of_ne_nil comment isRest.ne_nil
  rw [sameHead] at noOpening noClosing
  exact isOpen _ (.skip noOpening noClosing isRest) ⟨rest, rfl⟩

theorem behind_nested {inner behind : List Char}
    (isOpen : OpenComment ('(' :: ';' :: (inner ++ behind))) (isInner : BlockRest inner) :
    OpenComment behind := by
  rintro comment isRest ⟨rest, rfl⟩
  exact isOpen _ (.nested isInner isRest) ⟨rest, by simp⟩

end OpenComment

/-- The scanner breaks off in a comment that is not closed. -/
theorem scanFrom_openComment {text : List Char} (isOpen : OpenComment text) (found : List Lexeme)
    (outer place : Place) (depth : Nat) :
    scanFrom found (.block outer (depth + 1)) place text =
      ⟨found.reverse, .insideComment outer, place.after text⟩ := by
  induction length : text.length using Nat.strong_induction_on generalizing text place depth with
  | _ length ih =>
      subst length
      cases text with
      | nil => rfl
      | cons character text =>
          by_cases opens : character = '(' ∧ text.head? = some ';'
          · obtain ⟨rfl, next⟩ := opens
            obtain ⟨text, rfl⟩ := List.head?_eq_some_iff.mp next
            rw [scanFrom_block_opening]
            rcases closed_or_openComment text with ⟨inner, behind, isInner, rfl⟩ | isOpenInside
            · rw [scanFrom_blockRest isInner, behindBracket, if_neg (Nat.succ_ne_zero depth),
                ih _ (by simp only [List.length_cons, List.length_append]; omega)
                  (isOpen.behind_nested isInner) _ _ rfl]
              simp
            · rw [ih _ (by simp only [List.length_cons]; omega) isOpenInside _ _ rfl]
              simp
          · by_cases closes : character = ';' ∧ text.head? = some ')'
            · obtain ⟨rfl, next⟩ := closes
              obtain ⟨text, rfl⟩ := List.head?_eq_some_iff.mp next
              exact absurd ⟨text, rfl⟩ (isOpen _ .close)
            · rw [scanFrom_block_skip opens closes,
                ih _ (by simp) (isOpen.behind_skip opens closes) _ _ rfl, Place.after_cons]

/-- The scanner breaks off in a string literal that is not closed. -/
theorem scanFrom_openLiteral {text : List Char} (isOpen : OpenLiteral text) (found : List Lexeme)
    (start quote place : Place) (read : List Char) :
    scanFrom found (.string start quote read) place text =
      ⟨found.reverse, .insideString start quote, place.after text⟩ := by
  induction length : text.length using Nat.strong_induction_on generalizing text place read with
  | _ length ih =>
      subst length
      cases text with
      | nil => rfl
      | cons character text =>
          by_cases isQuote : character = '"'
          · subst isQuote
            exact absurd ⟨text, rfl⟩ (isOpen _ .close)
          by_cases isEscape : character = '\\'
          · subst isEscape
            cases text with
            | nil => rfl
            | cons escaped text =>
                have isOpenBehind : OpenLiteral text := by
                  rintro literal isRest ⟨rest, rfl⟩
                  exact isOpen _ (.escape isRest) ⟨rest, rfl⟩
                rw [scanFrom_string_escape,
                  ih _ (by simp only [List.length_cons]; omega) isOpenBehind _ _ rfl]
                simp
          · have isOpenBehind : OpenLiteral text := by
              rintro literal isRest ⟨rest, rfl⟩
              exact isOpen _ (.character isQuote isEscape isRest) ⟨rest, rfl⟩
            rw [scanFrom_string_character isQuote isEscape, ih _ (by simp) isOpenBehind _ _ rfl,
              Place.after_cons]

/-! ## Atoms -/

theorem LiteralRest.getLast? {literal : List Char} (isRest : LiteralRest literal) :
    literal.getLast? = some '"' := by
  induction isRest with
  | close => rfl
  | character _ _ _ ih => simp [List.getLast?_cons, ih]
  | escape _ ih => simp [List.getLast?_cons, ih]

namespace PiecesBefore

theorem plain {rest : List Char} {character : Char} {pieces : List (List Char)}
    (isPlain : IsPlain character)
    (noComment : ¬ (character = ';' ∧ (pieces.flatten ++ rest).head? = some ';'))
    (before : PiecesBefore rest pieces) : PiecesBefore rest ([character] :: pieces) where
  arePieces := by simpa using ⟨TokenPiece.plain isPlain, before.arePieces⟩
  chain := by
    refine List.isChain_cons.mpr ⟨fun piece first => ?_, before.chain⟩
    rintro ⟨same, rfl⟩
    obtain ⟨others, rfl⟩ := List.head?_eq_some_iff.mp first
    exact noComment ⟨by simpa using same, by simp⟩
  bounded := by
    intro last next
    cases nonempty : pieces.flatten.getLast? with
    | none =>
        have empty : pieces.flatten = [] := List.getLast?_eq_none_iff.mp nonempty
        rw [empty] at noComment
        exact noComment ⟨by simpa [empty] using last, next⟩
    | some other =>
        have same : other = ';' := by simpa [List.getLast?_cons, nonempty] using last
        exact before.bounded (same ▸ nonempty) next

theorem literal {rest literal : List Char} {pieces : List (List Char)}
    (isRest : LiteralRest literal) (before : PiecesBefore rest pieces) :
    PiecesBefore rest (('"' :: literal) :: pieces) where
  arePieces := by simpa using ⟨TokenPiece.literal isRest, before.arePieces⟩
  chain := by
    refine List.isChain_cons.mpr ⟨fun piece _ => ?_, before.chain⟩
    rintro ⟨first, -⟩
    simp at first
  bounded := by
    intro last
    apply before.bounded
    cases nonempty : pieces.flatten.getLast? with
    | none =>
        simp [List.getLast?_append, nonempty, List.getLast?_cons, isRest.getLast?] at last
    | some other => simpa [List.getLast?_cons, List.getLast?_append, nonempty] using last

end PiecesBefore

/-- Pieces of an atom stand in front of its end or of a literal that is not closed. -/
theorem exists_pieces (text : List Char) :
    ∃ (pieces : List (List Char)) (rest : List Char), PiecesBefore rest pieces ∧
      text = pieces.flatten ++ rest ∧
        (AtomEnds rest ∨ ∃ inside, rest = '"' :: inside ∧ OpenLiteral inside) := by
  induction length : text.length using Nat.strong_induction_on generalizing text with
  | _ length ih =>
      subst length
      by_cases ends : AtomEnds text
      · exact ⟨[], text, .nil text, rfl, .inl ends⟩
      cases text with
      | nil => exact absurd trivial ends
      | cons character text =>
          by_cases isQuote : character = '"'
          · subst isQuote
            rcases closed_or_openLiteral text with ⟨literal, behind, isRest, rfl⟩ | isOpen
            · obtain ⟨pieces, rest, before, rfl, restEnds⟩ :=
                ih _ (by simp only [List.length_cons, List.length_append]; omega) behind rfl
              exact ⟨('"' :: literal) :: pieces, rest, before.literal isRest, by simp, restEnds⟩
            · exact ⟨[], _, .nil _, rfl, .inr ⟨text, rfl, isOpen⟩⟩
          · have plainStart :
                IsPlain character ∧ ¬ (character = ';' ∧ text.head? = some ';') := by
              simpa [AtomEnds, endsAtom, IsPlain, isQuote, and_assoc] using ends
            obtain ⟨isPlain, noComment⟩ := plainStart
            obtain ⟨pieces, rest, before, rfl, restEnds⟩ := ih _ (by simp) text rfl
            exact ⟨[character] :: pieces, rest, before.plain isPlain noComment, by simp,
              restEnds⟩

/-! ## Fronts of texts -/

/-- What is left of a text behind its last lexeme: nothing, or a line comment without a
newline. -/
def LastLine (text : List Char) : Prop :=
  text = [] ∨ ∃ comment, '\n' ∉ comment ∧ text = ';' :: ';' :: comment

theorem LastLine.finalGap {gap text : List Char} (isLast : LastLine text) (isGap : Gap gap) :
    FinalGap (gap ++ text) := by
  rcases isLast with rfl | ⟨comment, noNewline, rfl⟩
  · exact .inl (by simpa using isGap)
  · exact .inr ⟨gap, comment, isGap, noNewline, rfl⟩

/-- A text that starts with a comment that is not closed, or with an atom in which a
string literal is not closed. -/
inductive Broken : List Char → Prop
  | comment {inside : List Char} : OpenComment inside → Broken ('(' :: ';' :: inside)
  | literal {pieces : List (List Char)} {inside : List Char} :
      PiecesBefore ('"' :: inside) pieces → OpenLiteral inside →
        Broken (pieces.flatten ++ '"' :: inside)

theorem PiecesBefore.not_atomEnds_quote {pieces : List (List Char)} {inside : List Char}
    (before : PiecesBefore ('"' :: inside) pieces) :
    ¬ AtomEnds (pieces.flatten ++ '"' :: inside) := by
  cases pieces with
  | nil => simp [AtomEnds, endsAtom]
  | cons piece pieces => exact before.not_atomEnds

theorem scanFrom_brokenAtom {pieces : List (List Char)} {inside : List Char}
    (before : PiecesBefore ('"' :: inside) pieces) (isOpen : OpenLiteral inside)
    (found : List Lexeme) (place : Place) :
    scanFrom found .gap place (pieces.flatten ++ '"' :: inside) =
      ⟨found.reverse, .insideString place (place.after pieces.flatten),
        place.after (pieces.flatten ++ '"' :: inside)⟩ := by
  rw [scanFrom_atomStart before.not_atomEnds_quote, scanFrom_pieces before, scanFrom_atom_quote,
    scanFrom_openLiteral isOpen]
  simp

theorem Broken.ending_ne_complete {text : List Char} (broken : Broken text) (found : List Lexeme)
    (place : Place) : (scanFrom found .gap place text).ending ≠ .complete := by
  cases broken with
  | comment isOpen => simp [scanFrom_gap_block, scanFrom_openComment isOpen]
  | literal before isOpen => simp [scanFrom_brokenAtom before isOpen]

theorem fits_of_mayFollow {previous : Option Token} {gap rest : List Char} (nonempty : gap ≠ [])
    (follows : MayFollow previous (gap ++ rest)) (next : Option Token) :
    Fits previous gap next where
  atomsApart := fun _ _ _ _ => nonempty
  noLineComment := by
    rintro text rfl last ⟨behind, rfl⟩
    exact follows.2 last rfl
  noSemicolon := by
    rintro rfl
    have noSemicolon : (gap ++ rest).head? ≠ some ';' := follows
    rw [List.head?_append_of_ne_nil gap nonempty] at noSemicolon ⊢
    exact noSemicolon

theorem fits_token {previous : Option Token} {token : Token} {rest : List Char}
    (complete : token.Complete)
    (goesOn : ∀ text, token = .atom text → ¬ AtomEnds (token.characters ++ rest))
    (follows : MayFollow previous (token.characters ++ rest)) :
    Fits previous [] (some token) where
  atomsApart := by
    rintro first second rfl next
    exact absurd follows.1 (goesOn second (Option.some.inj next))
  noLineComment := fun _ _ _ => by simp
  noSemicolon := by
    rintro rfl
    have noSemicolon : (token.characters ++ rest).head? ≠ some ';' := follows
    rw [List.head?_append_of_ne_nil _ (characters_ne_nil complete)] at noSemicolon
    simpa using noSemicolon

theorem exists_line (text : List Char) :
    (∃ comment rest, '\n' ∉ comment ∧ text = comment ++ '\n' :: rest) ∨ '\n' ∉ text := by
  by_cases newline : '\n' ∈ text
  · obtain ⟨comment, rest, rfl, noNewline⟩ := List.eq_append_cons_of_mem newline
    exact .inl ⟨comment, rest, noNewline, rfl⟩
  · exact .inr newline

/-- How a text can start: it is the last line or breaks off, or a gap or a token stands
in front of the rest. -/
inductive Front (text : List Char) : Prop
  | last : LastLine text → Front text
  | broken : Broken text → Front text
  | gap {gap rest : List Char} : text = gap ++ rest → Gap gap → gap ≠ [] → Front text
  | token {token : Token} {rest : List Char} :
      text = token.characters ++ rest → token.Complete → MayFollow (some token) rest →
        (∀ previous, MayFollow previous text → Fits previous [] (some token)) → Front text

theorem front_opening (text : List Char) : Front ('(' :: text) := by
  by_cases next : text.head? = some ';'
  · obtain ⟨text, rfl⟩ := List.head?_eq_some_iff.mp next
    rcases closed_or_openComment text with ⟨comment, rest, isRest, rfl⟩ | isOpen
    · have sameText : '(' :: ';' :: (comment ++ rest) = ('(' :: ';' :: comment) ++ rest := rfl
      have isGap : Gap ('(' :: ';' :: comment) := by simpa using Gap.block isRest .nil
      exact .gap sameText isGap (by simp)
    · exact .broken (.comment isOpen)
  · have sameText : '(' :: text = Token.opening.characters ++ text := rfl
    exact .token sameText trivial next fun previous _ => .opening previous

theorem front_lineComment (text : List Char) : Front (';' :: ';' :: text) := by
  rcases exists_line text with ⟨comment, rest, noNewline, rfl⟩ | noNewline
  · have sameText : ';' :: ';' :: (comment ++ '\n' :: rest) =
        (';' :: ';' :: (comment ++ ['\n'])) ++ rest := by
      simp
    exact .gap sameText (.line noNewline .nil) (by simp)
  · exact .last (.inr ⟨text, noNewline, rfl⟩)

theorem front_atom {text : List Char} (goesOn : ¬ AtomEnds text) : Front text := by
  obtain ⟨pieces, rest, before, rfl, restEnds | ⟨inside, rfl, isOpen⟩⟩ := exists_pieces text
  · have nonempty : pieces ≠ [] := by
      rintro rfl
      exact goesOn restEnds
    have isComplete : (Token.atom (String.ofList pieces.flatten)).Complete :=
      ⟨pieces, nonempty, before.arePieces, before.chain, by simp⟩
    have sameText : pieces.flatten ++ rest =
        (Token.atom (String.ofList pieces.flatten)).characters ++ rest := by
      simp [Token.characters]
    refine .token sameText isComplete ⟨restEnds, by simpa using before.bounded⟩ ?_
    intro previous follows
    rw [sameText] at goesOn follows
    exact fits_token isComplete (fun _ _ => goesOn) follows
  · exact .broken (.literal before isOpen)

theorem exists_front (text : List Char) : Front text := by
  by_cases ends : AtomEnds text
  · cases text with
    | nil => exact .last (.inl rfl)
    | cons character text =>
        by_cases isBlank : Text.isBlank character = true
        · have isGap : Gap [character] := .blank isBlank .nil
          exact .gap rfl isGap (by simp)
        by_cases isClosing : character = ')'
        · subst isClosing
          have sameText : ')' :: text = Token.closing.characters ++ text := rfl
          exact .token sameText trivial trivial fun previous _ => .closing previous
        by_cases isOpening : character = '('
        · subst isOpening
          exact front_opening text
        · have isLine : character = ';' ∧ text.head? = some ';' := by
            simpa [AtomEnds, endsAtom, isBlank, isOpening, isClosing] using ends
          obtain ⟨rfl, next⟩ := isLine
          obtain ⟨text, rfl⟩ := List.head?_eq_some_iff.mp next
          exact front_lineComment text
  · exact front_atom ends

/-! ## What is written before a text -/

/-- Tokens written behind a token, and a gap, in front of a text that may follow
them. -/
def WrittenBefore (previous : Option Token) (tokens : List Token) (before behind : List Char) :
    Prop :=
  ∃ written gap, Written previous tokens written ∧ Gap gap ∧
    MayFollow (lastToken previous tokens) (gap ++ behind) ∧ before = written ++ gap

namespace WrittenBefore

theorem nil {previous : Option Token} {text : List Char} (follows : MayFollow previous text) :
    WrittenBefore previous [] [] text :=
  ⟨[], [], .nil, .nil, follows, rfl⟩

theorem token {previous : Option Token} {token : Token} {tokens : List Token}
    {before behind : List Char} (fits : Fits previous [] (some token)) (complete : token.Complete)
    (written : WrittenBefore (some token) tokens before behind) :
    WrittenBefore previous (token :: tokens) (token.characters ++ before) behind := by
  obtain ⟨written, gap, isWritten, isGap, follows, rfl⟩ := written
  exact ⟨_, gap, .token .nil fits complete isWritten, isGap, follows, by simp⟩

theorem gap {previous : Option Token} {gap : List Char} {tokens : List Token}
    {before behind : List Char} (isGap : Gap gap) (nonempty : gap ≠ [])
    (follows : MayFollow previous (gap ++ (before ++ behind)))
    (written : WrittenBefore none tokens before behind) :
    WrittenBefore previous tokens (gap ++ before) behind := by
  obtain ⟨written, last, isWritten, isLast, followsLast, rfl⟩ := written
  cases isWritten with
  | nil =>
      have followsBoth : MayFollow previous ((gap ++ last) ++ behind) := by simpa using follows
      exact ⟨[], gap ++ last, .nil, isGap.append isLast, followsBoth, by simp⟩
  | @token _ first token tokens text isFirst _ complete isWritten =>
      have fitsFirst : Fits previous (gap ++ first) (some token) :=
        fits_of_mayFollow (by simp [nonempty]) (by simpa using follows) _
      exact ⟨_, last, .token (isGap.append isFirst) fitsFirst complete isWritten, isLast,
        followsLast, by simp⟩

theorem layout {previous : Option Token} {tokens : List Token} {before behind : List Char}
    (written : WrittenBefore previous tokens before behind) (isLast : LastLine behind) :
    LayoutBehind previous tokens (before ++ behind) := by
  obtain ⟨written, gap, isWritten, isGap, follows, rfl⟩ := written
  have fits : Fits (lastToken previous tokens) (gap ++ behind) none := by
    by_cases empty : gap ++ behind = []
    · rw [empty]
      exact ⟨by simp, by simp, by simp⟩
    · rw [← List.append_nil (gap ++ behind)] at follows
      exact fits_of_mayFollow empty follows none
  exact ⟨written, gap ++ behind, isWritten, isLast.finalGap isGap, fits, by simp⟩

end WrittenBefore

/-- Lexemes at their places behind a token, and a gap, in front of a text that may follow
them. -/
def LaidBefore (previous : Option Token) (place : Place) (lexemes : List Lexeme)
    (before behind : List Char) : Prop :=
  ∃ written gap, Laid previous place lexemes written ∧ Gap gap ∧
    MayFollow (lastToken previous (lexemes.map Lexeme.token)) (gap ++ behind) ∧
      before = written ++ gap

theorem WrittenBefore.exists_laidBefore {previous : Option Token} {tokens : List Token}
    {before behind : List Char} (written : WrittenBefore previous tokens before behind)
    (place : Place) :
    ∃ lexemes, LaidBefore previous place lexemes before behind ∧
      lexemes.map Lexeme.token = tokens := by
  obtain ⟨written, gap, isWritten, isGap, follows, rfl⟩ := written
  obtain ⟨lexemes, laid, rfl⟩ := isWritten.exists_laid place
  exact ⟨lexemes, ⟨written, gap, laid, isGap, follows, rfl⟩, rfl⟩

/-- The scanner finds what is laid and goes on between two lexemes. -/
theorem LaidBefore.scanFrom_eq {previous : Option Token} {place : Place} {lexemes : List Lexeme}
    {before behind : List Char} (laid : LaidBefore previous place lexemes before behind)
    (found : List Lexeme) :
    scanFrom found .gap place (before ++ behind) =
      scanFrom (lexemes.reverse ++ found) .gap (place.after before) behind := by
  obtain ⟨written, gap, laid, isGap, follows, rfl⟩ := laid
  obtain ⟨-, scanned⟩ := scanFrom_laid laid follows
  rw [List.append_assoc, scanned, scanFrom_gap isGap, Place.after_append]

/-- Every text writes tokens up to its last line or up to where it breaks off. -/
theorem exists_writtenBefore (text : List Char) (previous : Option Token)
    (follows : MayFollow previous text) :
    ∃ tokens before behind, text = before ++ behind ∧
      WrittenBefore previous tokens before behind ∧ (LastLine behind ∨ Broken behind) := by
  induction length : text.length using Nat.strong_induction_on generalizing text previous with
  | _ length ih =>
      subst length
      cases exists_front text with
      | last isLast => exact ⟨[], [], text, rfl, .nil follows, .inl isLast⟩
      | broken isBroken => exact ⟨[], [], text, rfl, .nil follows, .inr isBroken⟩
      | @gap gap rest sameText isGap nonempty =>
          -- The rest of the text may follow nothing, since its first gap grows.
          subst sameText
          have shorter : rest.length < (gap ++ rest).length := by
            have := List.length_pos_of_ne_nil nonempty
            simp only [List.length_append]
            omega
          obtain ⟨tokens, before, behind, rfl, written, ends⟩ := ih _ shorter rest none trivial rfl
          exact ⟨tokens, gap ++ before, behind, by simp, written.gap isGap nonempty follows, ends⟩
      | @token token rest sameText complete followsToken fits =>
          subst sameText
          have shorter : rest.length < (token.characters ++ rest).length := by
            have := List.length_pos_of_ne_nil (characters_ne_nil complete)
            simp only [List.length_append]
            omega
          obtain ⟨tokens, before, behind, rfl, written, ends⟩ :=
            ih _ shorter rest (some token) followsToken rfl
          exact ⟨token :: tokens, token.characters ++ before, behind, by simp,
            written.token (fits previous follows) complete, ends⟩

theorem Written.complete {previous : Option Token} {tokens : List Token} {written : List Char}
    (isWritten : Written previous tokens written) : ∀ token ∈ tokens, token.Complete := by
  induction isWritten with
  | nil => simp
  | token _ _ complete _ ih => simpa using ⟨complete, ih⟩

/-- The scanner finds given tokens without breaking off exactly in their
layouts. -/
theorem layout_iff_scan (text : String) (tokens : List Token) :
    Layout tokens text.toList ↔
      (scan text).ending = .complete ∧ (scan text).lexemes.map Lexeme.token = tokens := by
  constructor
  · intro layout
    obtain ⟨complete, sameTokens, -⟩ := scanFrom_layout layout .start
    exact ⟨complete, sameTokens⟩
  · rintro ⟨complete, rfl⟩
    obtain ⟨tokens, before, behind, isText, written, isLast | isBroken⟩ :=
      exists_writtenBefore text.toList none trivial
    · have layout := isText ▸ written.layout isLast
      have sameTokens := (scanFrom_layout layout .start).2.1
      rw [scan, sameTokens]
      exact layout
    · obtain ⟨lexemes, laid, -⟩ := written.exists_laidBefore .start
      rw [scan, isText, laid.scanFrom_eq] at complete
      exact absurd complete (isBroken.ending_ne_complete _ _)

theorem completeToken_iff_scan (text : String) :
    CompleteToken text.toList ↔
      (scan text).ending = .complete ∧
        (scan text).lexemes.map Lexeme.token = [.atom text] := by
  rw [← layout_iff_scan]
  constructor
  · intro complete
    have isComplete : (Token.atom text).Complete := complete
    exact ⟨_, [], .single .nil (.start [] _) isComplete, .inl .nil, ⟨by simp, by simp, by simp⟩,
      by simp [Token.characters]⟩
  · rintro ⟨written, gap, isWritten, -, -, -⟩
    exact isWritten.complete (.atom text) (by simp)

end Lexeme

end WatLink
