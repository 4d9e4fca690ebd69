import WatLink.Proofs.SourceOffsets

/-!
# Culprits of syntax errors

A text that is no tree has one culprit: the parenthesis of the innermost list that is
still open, the quote of a string literal that is not closed, the bracket of a comment
that is not closed, a closing parenthesis without a list, the first content behind the
tree, or the end of a text without content.  Culprits are stated through the grammar,
and the reader reports the culprit at its place.

The reader keeps the places of the parentheses of the open lists beside their items.
The stack mirrors the lexemes that were taken in: each list starts at its parenthesis,
and its items are written behind it.
-/

namespace WatLink

namespace Lexeme

/-! ## Parts of what is laid before a text -/

namespace LaidBefore

variable {previous : Option Token} {place : Place} {lexemes : List Lexeme}
  {before behind : List Char}

theorem writtenBefore (laid : LaidBefore previous place lexemes before behind) :
    WrittenBefore previous (lexemes.map Lexeme.token) before behind := by
  obtain ⟨written, gap, laid, isGap, follows, rfl⟩ := laid
  exact ⟨written, gap, laid.written, isGap, follows, rfl⟩

theorem mayFollow (laid : LaidBefore previous place lexemes before behind) :
    MayFollow previous (before ++ behind) := by
  obtain ⟨written, gap, laid, -, follows, rfl⟩ := laid
  rw [List.append_assoc]
  exact (scanFrom_laid laid follows).1

theorem gap_of_nil (laid : LaidBefore previous place [] before behind) : Gap before := by
  obtain ⟨written, gap, laid, isGap, -, rfl⟩ := laid
  cases laid
  exact isGap

/-- What is laid is cut at each of its lexemes. -/
theorem split {first second : List Lexeme} {lexeme : Lexeme}
    (laid : LaidBefore previous place (first ++ lexeme :: second) before behind) :
    ∃ front back, before = front ++ (lexeme.token.characters ++ back) ∧
      lexeme.start = place.after front ∧ lexeme.token.Complete ∧
      LaidBefore previous place first front (lexeme.token.characters ++ (back ++ behind)) ∧
      LaidBefore (some lexeme.token) (lexeme.start.after lexeme.token.characters) second back
        behind := by
  obtain ⟨written, last, laid, isLast, follows, rfl⟩ := laid
  obtain ⟨front, rest, rfl, laidFirst, laidRest⟩ := laid.exists_append
  have followsFirst := (scanFrom_laid laidRest (by simpa using follows)).1
  cases laidRest with
  | @lexeme _ _ gap token _ back isGap fits complete laidSecond =>
      refine ⟨front ++ gap, back ++ last, by simp, by simp, complete, ?_, ?_⟩
      · exact ⟨front, gap, laidFirst, isGap, by simpa using followsFirst, rfl⟩
      · exact ⟨back, last, laidSecond, isLast, by simpa [lastToken] using follows, rfl⟩

end LaidBefore

/-! ## Starts of gaps -/

/-- Whether a text starts with a blank or a comment. -/
def StartsGap (text : List Char) : Prop :=
  (∃ character rest, text = character :: rest ∧ Text.isBlank character = true) ∨
    [';', ';'] <+: text ∨ ['(', ';'] <+: text

theorem StartsGap.atomEnds {text : List Char} (starts : StartsGap text) : AtomEnds text := by
  rcases starts with ⟨character, rest, rfl, isBlank⟩ | ⟨rest, rfl⟩ | ⟨rest, rfl⟩
  · simp [AtomEnds, endsAtom, isBlank]
  · simp [AtomEnds, endsAtom]
  · simp [AtomEnds, endsAtom]

theorem Gap.startsGap {gap : List Char} (isGap : Gap gap) (nonempty : gap ≠ []) (rest : List Char) :
    StartsGap (gap ++ rest) := by
  cases isGap with
  | nil => exact absurd rfl nonempty
  | blank isBlank _ => exact .inl ⟨_, _, rfl, isBlank⟩
  | line _ _ => exact .inr (.inl ⟨_, rfl⟩)
  | block _ _ => exact .inr (.inr ⟨_, rfl⟩)

theorem atom_not_atomEnds {text : String} {rest : List Char} (complete : (Token.atom text).Complete)
    (follows : MayFollow (some (.atom text)) rest) :
    ¬ AtomEnds ((Token.atom text).characters ++ rest) := by
  obtain ⟨pieces, nonempty, arePieces, chain, same⟩ := complete
  obtain ⟨piece, others, rfl⟩ := List.exists_cons_of_ne_nil nonempty
  have before : PiecesBefore rest (piece :: others) :=
    ⟨arePieces, chain, by simpa [same] using follows.2⟩
  rw [Token.characters, ← same]
  exact before.not_atomEnds

/-- A token is no part of a gap. -/
theorem not_startsGap_token {token : Token} {rest : List Char} (complete : token.Complete)
    (follows : MayFollow (some token) rest) : ¬ StartsGap (token.characters ++ rest) := by
  cases token with
  | opening =>
      have noSemicolon : rest.head? ≠ some ';' := follows
      rintro (⟨character, others, same, isBlank⟩ | ⟨others, same⟩ | ⟨others, same⟩)
      · obtain ⟨rfl, -⟩ := List.cons.inj same
        simp at isBlank
      · simp [Token.characters] at same
      · obtain rfl : ';' :: others = rest := (List.cons.inj same).2
        exact noSemicolon rfl
  | closing =>
      rintro (⟨character, others, same, isBlank⟩ | ⟨others, same⟩ | ⟨others, same⟩)
      · obtain ⟨rfl, -⟩ := List.cons.inj same
        simp at isBlank
      · simp [Token.characters] at same
      · simp [Token.characters] at same
  | atom text => exact fun starts => atom_not_atomEnds complete follows starts.atomEnds

/-! ## Ends of texts -/

/-- What the scanner has found stays in front of what it finds. -/
theorem exists_found (found : List Lexeme) (mode : Mode) (place : Place) (text : List Char) :
    ∃ more, (scanFrom found mode place text).lexemes = found.reverse ++ more := by
  induction text generalizing found mode place with
  | nil => exact ⟨(close mode).1, by simp [scanFrom]⟩
  | cons character rest ih =>
      obtain ⟨more, same⟩ := ih ((step place character rest.head? mode).2.reverse ++ found)
        (step place character rest.head? mode).1 (place.next character)
      exact ⟨(step place character rest.head? mode).2 ++ more, by simp [scanFrom_cons, same]⟩

/-- How a text ends, for the characters that are read up to its last line or up to where
it breaks off, and the rest. -/
inductive EndsAs (before : List Char) : List Char → Ending → Prop
  | complete {behind : List Char} : LastLine behind → EndsAs before behind .complete
  | comment {inside : List Char} : OpenComment inside →
      EndsAs before ('(' :: ';' :: inside) (.insideComment (Place.start.after before))
  | literal {pieces : List (List Char)} {inside : List Char} :
      PiecesBefore ('"' :: inside) pieces → OpenLiteral inside →
        EndsAs before (pieces.flatten ++ '"' :: inside)
          (.insideString (Place.start.after before)
            (Place.start.after (before ++ pieces.flatten)))

/-- The scan of a text: what is laid in it, and how it ends. -/
theorem exists_scan (text : String) :
    ∃ lexemes before behind ending, text.toList = before ++ behind ∧
      LaidBefore none .start lexemes before behind ∧ EndsAs before behind ending ∧
        scan text = ⟨lexemes, ending, Place.start.after text.toList⟩ := by
  obtain ⟨tokens, before, behind, isText, written, ends⟩ :=
    exists_writtenBefore text.toList none trivial
  obtain ⟨lexemes, laid, -⟩ := written.exists_laidBefore .start
  have scanned : scan text =
      scanFrom lexemes.reverse .gap (Place.start.after before) behind := by
    rw [scan, isText, laid.scanFrom_eq, List.append_nil]
  rw [isText, Place.after_append]
  rcases ends with isLast | ⟨isOpen⟩ | ⟨isBefore, isOpen⟩
  · have isFinal : FinalGap behind := isLast.finalGap .nil
    rw [scanFrom_finalGap isFinal, List.reverse_reverse] at scanned
    exact ⟨lexemes, before, behind, .complete, rfl, laid, .complete isLast, scanned⟩
  · rw [scanFrom_gap_block, scanFrom_openComment isOpen, List.reverse_reverse] at scanned
    exact ⟨lexemes, before, _, _, rfl, laid, .comment isOpen, by simpa using scanned⟩
  · rw [scanFrom_brokenAtom isBefore isOpen, List.reverse_reverse, ← Place.after_append] at scanned
    exact ⟨lexemes, before, _, _, rfl, laid, .literal isBefore isOpen, scanned⟩

end Lexeme

namespace Tree

open Lexeme
open LocatedTree (trees trees_eq_map)

/-- The tokens of the lists that are open at some place, from the outside in: each has
its parenthesis and its items so far. -/
def openTokens (lists : List (List Tree)) : List Token :=
  lists.flatMap fun items => .opening :: tokensOfItems items

/-- What makes a text no tree, for the characters in front of the culprit and the text
from the culprit on. -/
inductive Culprit : SyntaxFault → List Char → List Char → Prop
  /-- The end of a text that is one gap. -/
  | emptyInput {before : List Char} : FinalGap before → Culprit .emptyInput before []
  /-- The first character behind a tree that belongs to no blank and no comment. -/
  | contentAfterRoot {root : Tree} {before behind : List Char} :
      WrittenBefore none root.tokens before behind → behind ≠ [] → ¬ StartsGap behind →
        Culprit .contentAfterRoot before behind
  /-- A closing parenthesis in front of everything else. -/
  | unexpectedClosing {before behind : List Char} :
      Gap before → Culprit .unexpectedClosing before (')' :: behind)
  /-- The parenthesis of an open list, behind which all lists are closed. -/
  | unterminatedList {lists : List (List Tree)} {items : List Tree} {before behind : List Char} :
      WrittenBefore none (openTokens lists) before ('(' :: behind) →
        LayoutBehind (some .opening) (tokensOfItems items) behind →
          Culprit .unterminatedList before ('(' :: behind)
  /-- The quote, behind the first pieces of an atom, of a literal that is not closed. -/
  | unterminatedString {lists : List (List Tree)} {pieces : List (List Char)}
      {before inside : List Char} :
      WrittenBefore none (openTokens lists) before (pieces.flatten ++ '"' :: inside) →
        PiecesBefore ('"' :: inside) pieces → OpenLiteral inside →
          Culprit .unterminatedString (before ++ pieces.flatten) ('"' :: inside)
  /-- The bracket of a comment that is not closed, before or behind the end of the tree. -/
  | unterminatedComment {tokens : List Token} {before inside : List Char} :
      (∃ lists, tokens = openTokens lists) ∨ (∃ root : Tree, tokens = root.tokens) →
        WrittenBefore none tokens before ('(' :: ';' :: inside) → OpenComment inside →
          Culprit .unterminatedComment before ('(' :: ';' :: inside)

namespace Assembly

/-! ## What an assembly has taken in -/

/-- Lexemes that a stack of open lists has taken in.  Each list keeps the place of its
parenthesis, and its items are written behind that. -/
inductive Mirrors : List OpenList → List Lexeme → Prop
  | nil : Mirrors [] []
  | cons {innermost : OpenList} {outer : List OpenList} {before inside : List Lexeme} :
      Mirrors outer before →
        inside.map Lexeme.token = tokensOfItems (trees innermost.reversedItems.reverse) →
          Mirrors (innermost :: outer) (before ++ ⟨.opening, innermost.opening⟩ :: inside)

theorem Mirrors.exists_openTokens {stack : List OpenList} {lexemes : List Lexeme}
    (mirrors : Mirrors stack lexemes) :
    ∃ lists, lexemes.map Lexeme.token = openTokens lists := by
  induction mirrors with
  | nil => exact ⟨[], rfl⟩
  | @cons innermost outer before inside _ sameItems ih =>
      obtain ⟨lists, same⟩ := ih
      refine ⟨lists ++ [trees innermost.reversedItems.reverse], ?_⟩
      rw [List.map_append, List.map_cons, same, sameItems, openTokens, openTokens,
        List.flatMap_append]
      simp

/-- Whether an assembly has taken in some lexemes. -/
def Holds : Assembly → List Lexeme → Prop
  | .complete root, lexemes => lexemes.map Lexeme.token = root.tree.tokens
  | assembly, lexemes => Mirrors assembly.openLists lexemes

theorem Holds.mirrors {assembly : Assembly} {lexemes : List Lexeme}
    (holds : Holds assembly lexemes) (isOpen : assembly.IsOpen) :
    Mirrors assembly.openLists lexemes := by
  cases assembly with
  | empty => exact holds
  | inside innermost outer => exact holds
  | complete root => exact isOpen.elim

theorem holds_add {stack : List OpenList} {done more : List Lexeme} {node : LocatedTree}
    (mirrors : Mirrors stack done) (same : more.map Lexeme.token = node.tree.tokens) :
    Holds (add node stack) (done ++ more) := by
  cases mirrors with
  | nil => exact same
  | @cons innermost outer before inside mirrorsOuter sameItems =>
      have sameMore : (inside ++ more).map Lexeme.token =
          tokensOfItems (trees (node :: innermost.reversedItems).reverse) := by
        rw [List.map_append, sameItems, same, List.reverse_cons, trees_eq_map, trees_eq_map,
          List.map_append, tokensOfItems_append]
        simp [tokensOfItems]
      rw [List.append_assoc, List.cons_append]
      exact Mirrors.cons mirrorsOuter sameMore

/-- A lexeme that is pushed is held behind the others. -/
theorem holds_push {assembly assembly' : Assembly} {done : List Lexeme} {lexeme : Lexeme}
    (holds : Holds assembly done) (pushed : assembly.push lexeme = .ok assembly') :
    Holds assembly' (done ++ [lexeme]) := by
  obtain ⟨token, start⟩ := lexeme
  cases assembly with
  | complete root => cases token <;> simp [push] at pushed
  | empty =>
      cases token with
      | opening =>
          cases pushed
          exact Mirrors.cons holds rfl
      | closing => simp [push] at pushed
      | atom text =>
          cases pushed
          exact holds_add holds rfl
  | inside innermost outer =>
      cases token with
      | opening =>
          cases pushed
          exact Mirrors.cons holds rfl
      | atom text =>
          cases pushed
          exact holds_add holds rfl
      | closing =>
          cases pushed
          cases holds with
          | @cons _ _ before inside mirrorsOuter sameItems =>
              rw [List.append_assoc]
              refine holds_add mirrorsOuter ?_
              simp [LocatedTree.tree, Tree.tokens, sameItems]

theorem push_eq_error {assembly : Assembly} {lexeme : Lexeme} {error : SyntaxError}
    (refused : assembly.push lexeme = .error error) :
    (∃ root, assembly = .complete root ∧ error = ⟨.contentAfterRoot, lexeme.start⟩) ∨
      (assembly = .empty ∧ lexeme.token = .closing ∧
        error = ⟨.unexpectedClosing, lexeme.start⟩) := by
  obtain ⟨token, start⟩ := lexeme
  cases assembly with
  | complete root =>
      refine .inl ⟨root, rfl, ?_⟩
      cases token <;> exact (Except.error.inj refused).symm
  | empty =>
      cases token with
      | closing => exact .inr ⟨rfl, rfl, (Except.error.inj refused).symm⟩
      | opening => cases refused
      | atom text => cases refused
  | inside innermost outer => cases token <;> cases refused

/-- An error comes from a lexeme that is refused or from the end of the text. -/
theorem run_eq_error {ending : Ending} {place : Place} {assembly : Assembly}
    {done lexemes : List Lexeme} {error : SyntaxError} (holds : Holds assembly done)
    (failed : run ending place assembly lexemes = .error error) :
    (∃ front lexeme back assembly', lexemes = front ++ lexeme :: back ∧
        Holds assembly' (done ++ front) ∧ assembly'.push lexeme = .error error) ∨
      ∃ assembly', Holds assembly' (done ++ lexemes) ∧
        assembly'.finish ending place = .error error := by
  induction lexemes generalizing assembly done with
  | nil => exact .inr ⟨assembly, by simpa using holds, failed⟩
  | cons lexeme rest ih =>
      rw [run] at failed
      cases pushed : assembly.push lexeme with
      | error fault =>
          rw [pushed] at failed
          cases failed
          exact .inl ⟨[], lexeme, rest, assembly, rfl, by simpa using holds, pushed⟩
      | ok assembly' =>
          rw [pushed] at failed
          rcases ih (holds_push holds pushed) failed with
            ⟨front, refused, back, last, rfl, holdsFront, isRefused⟩ | ⟨last, holdsAll, fails⟩
          · exact .inl ⟨lexeme :: front, refused, back, last, rfl, by simpa using holdsFront,
              isRefused⟩
          · exact .inr ⟨last, by simpa using holdsAll, fails⟩

end Assembly

/-! ## Every error has its culprit -/

/-- The culprit of an error stands in a text at the place of the error. -/
def PointsAtCulprit (text : List Char) (error : SyntaxError) : Prop :=
  ∃ before behind, text = before ++ behind ∧ Culprit error.fault before behind ∧
    error.place = Place.start.after before

theorem culprit_of_refused {lexemes : List Lexeme} {lexeme : Lexeme} {before behind : List Char}
    (laid : LaidBefore none .start lexemes before (lexeme.token.characters ++ behind))
    (complete : lexeme.token.Complete) (follows : MayFollow (some lexeme.token) behind)
    (start : lexeme.start = Place.start.after before) {assembly : Assembly}
    (holds : assembly.Holds lexemes) {error : SyntaxError}
    (refused : assembly.push lexeme = .error error) :
    PointsAtCulprit (before ++ (lexeme.token.characters ++ behind)) error := by
  rcases Assembly.push_eq_error refused with ⟨root, rfl, rfl⟩ | ⟨rfl, isClosing, rfl⟩
  · have written := laid.writtenBefore
    rw [show lexemes.map Lexeme.token = root.tree.tokens from holds] at written
    refine ⟨before, _, rfl, .contentAfterRoot written ?_ (not_startsGap_token complete follows),
      start⟩
    simp [characters_ne_nil complete]
  · cases holds
    rw [isClosing]
    exact ⟨before, _, rfl, .unexpectedClosing laid.gap_of_nil, start⟩

theorem culprit_of_unfinished {text : List Char} {lexemes : List Lexeme}
    {before behind : List Char} {ending : Ending} (isText : text = before ++ behind)
    (laid : LaidBefore none .start lexemes before behind) (ends : EndsAs before behind ending)
    {assembly : Assembly} (holds : assembly.Holds lexemes) {error : SyntaxError}
    (failed : assembly.finish ending (Place.start.after text) = .error error) :
    PointsAtCulprit text error := by
  subst isText
  cases ends with
  | complete isLast =>
      cases assembly with
      | complete root => cases failed
      | empty =>
          cases failed
          cases holds
          exact ⟨before ++ behind, [], by simp, .emptyInput (isLast.finalGap laid.gap_of_nil), rfl⟩
      | inside innermost outer =>
          cases failed
          cases holds with
          | @cons _ _ front inside mirrors sameItems =>
              obtain ⟨lists, sameLists⟩ := mirrors.exists_openTokens
              obtain ⟨front, back, rfl, start, -, laidFront, laidBack⟩ := laid.split
              have writtenFront := laidFront.writtenBefore
              have layout := laidBack.writtenBefore.layout isLast
              rw [sameLists] at writtenFront
              rw [sameItems] at layout
              exact ⟨front, '(' :: (back ++ behind), by simp [Token.characters],
                .unterminatedList writtenFront layout, start⟩
  | comment isOpen =>
      have written := laid.writtenBefore
      have atPlace : error = ⟨.unterminatedComment, Place.start.after before⟩ := by
        cases assembly <;> exact (Except.error.inj failed).symm
      subst atPlace
      refine ⟨before, _, rfl, .unterminatedComment ?_ written isOpen, rfl⟩
      cases assembly with
      | complete root => exact .inr ⟨root.tree, holds⟩
      | empty => exact .inl (holds.mirrors trivial).exists_openTokens
      | inside innermost outer => exact .inl (holds.mirrors trivial).exists_openTokens
  | @literal pieces inside isBefore isOpen =>
      have written := laid.writtenBefore
      by_cases isComplete : ∃ root, assembly = .complete root
      · obtain ⟨root, rfl⟩ := isComplete
        cases failed
        rw [show lexemes.map Lexeme.token = root.tree.tokens from holds] at written
        refine ⟨before, _, rfl, .contentAfterRoot written (by simp) fun starts => ?_, rfl⟩
        exact isBefore.not_atomEnds_quote starts.atomEnds
      · have atQuote : error = ⟨.unterminatedString,
            Place.start.after (before ++ pieces.flatten)⟩ ∧ assembly.IsOpen := by
          cases assembly with
          | complete root => exact absurd ⟨root, rfl⟩ isComplete
          | empty => exact ⟨(Except.error.inj failed).symm, trivial⟩
          | inside innermost outer => exact ⟨(Except.error.inj failed).symm, trivial⟩
        obtain ⟨rfl, isOpenAssembly⟩ := atQuote
        obtain ⟨lists, sameLists⟩ := (holds.mirrors isOpenAssembly).exists_openTokens
        rw [sameLists] at written
        exact ⟨before ++ pieces.flatten, _, by simp, .unterminatedString written isBefore isOpen,
          rfl⟩

theorem pointsAtCulprit_of_parse {text : String} {error : SyntaxError}
    (failed : parse text = .error error) : PointsAtCulprit text.toList error := by
  obtain ⟨lexemes, before, behind, ending, isText, laid, ends, scanned⟩ := exists_scan text
  rw [parse, ofScan_eq_error_iff_located, LocatedTree.ofScan, scanned] at failed
  have nothing : Assembly.empty.Holds [] := Assembly.Mirrors.nil
  rcases Assembly.run_eq_error nothing failed with
    ⟨first, lexeme, second, assembly, rfl, holds, refused⟩ | ⟨assembly, holds, fails⟩
  · obtain ⟨front, back, rfl, start, complete, laidFirst, laidSecond⟩ := laid.split
    have isWhole : text.toList = front ++ (lexeme.token.characters ++ (back ++ behind)) := by
      rw [isText]
      simp
    rw [isWhole]
    exact culprit_of_refused laidFirst complete laidSecond.mayFollow start holds refused
  · exact culprit_of_unfinished isText laid ends holds fails

/-! ## Every culprit is reported -/

namespace Assembly

/-- The reader takes in the lexemes of open lists and stays open. -/
theorem run_openTokens {lists : List (List Tree)} {assembly : Assembly} (isOpen : assembly.IsOpen)
    {lexemes : List Lexeme} (same : lexemes.map Lexeme.token = openTokens lists) :
    ∃ assembly' : Assembly, assembly'.IsOpen ∧ ∀ ending place rest,
      run ending place assembly (lexemes ++ rest) = run ending place assembly' rest := by
  induction lists generalizing assembly lexemes with
  | nil =>
      obtain rfl : lexemes = [] := List.map_eq_nil_iff.mp same
      exact ⟨assembly, isOpen, fun _ _ _ => rfl⟩
  | cons items lists ih =>
      rw [openTokens, List.flatMap_cons, List.cons_append] at same
      obtain ⟨⟨token, start⟩, others, rfl, rfl, sameOthers⟩ := List.map_eq_cons_iff.mp same
      obtain ⟨inside, behind, rfl, sameItems, sameLists⟩ := List.map_eq_append_iff.mp sameOthers
      obtain ⟨nodes, -, runsItems⟩ := run_items (fun item _ => reads item) inside sameItems
      obtain ⟨last, lastIsOpen, runs⟩ :=
        @ih (.inside ⟨start, nodes.reverse ++ []⟩ assembly.openLists) trivial behind sameLists
      refine ⟨last, lastIsOpen, fun ending place rest => ?_⟩
      rw [List.cons_append, List.append_assoc, run_opening isOpen, runsItems, runs]

theorem finish_insideComment (assembly : Assembly) (outer place : Place) :
    assembly.finish (.insideComment outer) place = .error ⟨.unterminatedComment, outer⟩ := by
  cases assembly <;> rfl

theorem finish_insideString {assembly : Assembly} (isOpen : assembly.IsOpen)
    (start quote place : Place) :
    assembly.finish (.insideString start quote) place = .error ⟨.unterminatedString, quote⟩ := by
  cases assembly with
  | empty => rfl
  | inside innermost outer => rfl
  | complete root => exact isOpen.elim

end Assembly

theorem ofScan_of_openTokens {lists : List (List Tree)} {lexemes : List Lexeme}
    (same : lexemes.map Lexeme.token = openTokens lists) :
    ∃ assembly : Assembly, assembly.IsOpen ∧ ∀ ending place,
      LocatedTree.ofScan ⟨lexemes, ending, place⟩ = assembly.finish ending place := by
  obtain ⟨assembly, isOpen, runs⟩ := @Assembly.run_openTokens lists .empty trivial lexemes same
  refine ⟨assembly, isOpen, fun ending place => ?_⟩
  have final := runs ending place []
  rwa [List.append_nil] at final

theorem ofScan_of_root {root : Tree} {lexemes : List Lexeme}
    (same : lexemes.map Lexeme.token = root.tokens) :
    ∃ node, ∀ ending place, LocatedTree.ofScan ⟨lexemes, ending, place⟩ =
      (Assembly.complete node).finish ending place := by
  obtain ⟨node, -, readsAs⟩ := Assembly.reads root lexemes same
  refine ⟨node, fun ending place => ?_⟩
  have final := readsAs ending place .empty [] trivial
  rwa [List.append_nil] at final

/-- What stands behind some characters decides how the text is read on. -/
theorem parse_writtenBefore {text : String} {tokens : List Token} {before behind : List Char}
    (isText : text.toList = before ++ behind)
    (written : WrittenBefore none tokens before behind) :
    ∃ lexemes : List Lexeme, lexemes.map Lexeme.token = tokens ∧
      LocatedTree.parse text =
        LocatedTree.ofScan (scanFrom lexemes.reverse .gap (Place.start.after before) behind) := by
  obtain ⟨lexemes, laid, same⟩ := written.exists_laidBefore .start
  refine ⟨lexemes, same, ?_⟩
  rw [LocatedTree.parse, scan, isText, laid.scanFrom_eq, List.append_nil]

theorem ofScan_content_after_root {root : Tree} {lexemes : List Lexeme}
    (same : lexemes.map Lexeme.token = root.tokens) {behind : List Char}
    (nonempty : behind ≠ []) (noGap : ¬ StartsGap behind) (place : Place) :
    LocatedTree.ofScan (scanFrom lexemes.reverse .gap place behind) =
      .error ⟨.contentAfterRoot, place⟩ := by
  cases exists_front behind with
  | last isLast =>
      rcases isLast with rfl | ⟨comment, -, rfl⟩
      · exact absurd rfl nonempty
      · exact absurd (.inr (.inl ⟨comment, rfl⟩)) noGap
  | gap sameText isGap notNil =>
      subst sameText
      exact absurd (isGap.startsGap notNil _) noGap
  | broken isBroken =>
      cases isBroken with
      | @comment inside isOpen => exact absurd (.inr (.inr ⟨inside, rfl⟩)) noGap
      | literal isBefore isOpen =>
          obtain ⟨node, finishes⟩ := ofScan_of_root same
          rw [scanFrom_brokenAtom isBefore isOpen, List.reverse_reverse, finishes]
          rfl
  | @token token rest sameText complete follows _ =>
      subst sameText
      obtain ⟨node, -, readsAs⟩ := Assembly.reads root lexemes same
      rw [scanFrom_token complete follows, LocatedTree.ofScan]
      obtain ⟨more, found⟩ := exists_found (⟨token, place⟩ :: lexemes.reverse) .gap
        (place.after token.characters) rest
      rw [found, List.reverse_cons, List.reverse_reverse, List.append_assoc,
        readsAs _ _ .empty _ trivial]
      rfl

/-- A list whose items are all that follows is reported at its parenthesis. -/
theorem ofScan_open_list {lists : List (List Tree)} {lexemes : List Lexeme}
    (same : lexemes.map Lexeme.token = openTokens lists) {items : List Tree} {behind : List Char}
    (layout : LayoutBehind (some .opening) (tokensOfItems items) behind) (place : Place) :
    LocatedTree.ofScan (scanFrom lexemes.reverse .gap place ('(' :: behind)) =
      .error ⟨.unterminatedList, place⟩ := by
  obtain ⟨follows, inside, -, -, -, -, sameItems, scanned⟩ :=
    scanFrom_layoutBehind layout (place.next '(')
  have opens : scanFrom lexemes.reverse .gap place ('(' :: behind) =
      scanFrom (⟨.opening, place⟩ :: lexemes.reverse) .gap (place.next '(') behind :=
    @scanFrom_token .opening behind trivial follows lexemes.reverse place
  obtain ⟨assembly, isOpen, runs⟩ := @Assembly.run_openTokens lists .empty trivial lexemes same
  obtain ⟨nodes, -, runsItems⟩ :=
    Assembly.run_items (fun item _ => Assembly.reads item) inside sameItems
  have runItems := runsItems .complete ((place.next '(').after behind) place []
    assembly.openLists []
  rw [List.append_nil] at runItems
  rw [opens, scanned, List.reverse_cons, List.reverse_reverse, List.append_assoc,
    LocatedTree.ofScan, runs, List.singleton_append, Assembly.run_opening isOpen, runItems]
  rfl

/-- The reader reports the culprit of a text. -/
theorem parse_of_culprit {text : String} {fault : SyntaxFault} {before behind : List Char}
    (isText : text.toList = before ++ behind) (culprit : Culprit fault before behind) :
    parse text = .error ⟨fault, Place.start.after before⟩ := by
  rw [parse, ofScan_eq_error_iff_located, ← LocatedTree.parse]
  cases culprit with
  | emptyInput isFinal =>
      rw [List.append_nil] at isText
      rw [LocatedTree.parse, scan, isText, scanFrom_finalGap isFinal]
      rfl
  | contentAfterRoot written nonempty noGap =>
      obtain ⟨lexemes, same, reads⟩ := parse_writtenBefore isText written
      rw [reads, ofScan_content_after_root same nonempty noGap]
  | @unexpectedClosing _ behind isGap =>
      have closes : scanFrom [] .gap (Place.start.after before) (')' :: behind) =
          scanFrom [⟨.closing, Place.start.after before⟩] .gap
            ((Place.start.after before).next ')') behind :=
        @scanFrom_token .closing behind trivial trivial [] (Place.start.after before)
      obtain ⟨more, found⟩ := exists_found [⟨.closing, Place.start.after before⟩] .gap
        ((Place.start.after before).next ')') behind
      rw [LocatedTree.parse, scan, isText, scanFrom_gap isGap, closes, LocatedTree.ofScan, found]
      rfl
  | unterminatedList written layout =>
      obtain ⟨lexemes, same, reads⟩ := parse_writtenBefore isText written
      rw [reads, ofScan_open_list same layout]
  | @unterminatedString lists pieces before inside written isBefore isOpen =>
      obtain ⟨lexemes, same, reads⟩ := parse_writtenBefore (by simpa using isText) written
      obtain ⟨assembly, isOpenAssembly, finishes⟩ := ofScan_of_openTokens same
      rw [reads, scanFrom_brokenAtom isBefore isOpen, List.reverse_reverse, finishes,
        Assembly.finish_insideString isOpenAssembly, Place.after_append]
  | unterminatedComment isPart written isOpen =>
      obtain ⟨lexemes, same, reads⟩ := parse_writtenBefore isText written
      rw [reads, scanFrom_gap_block, scanFrom_openComment isOpen, List.reverse_reverse]
      rcases isPart with ⟨lists, rfl⟩ | ⟨root, rfl⟩
      · obtain ⟨assembly, -, finishes⟩ := ofScan_of_openTokens same
        rw [finishes, Assembly.finish_insideComment]
      · obtain ⟨node, finishes⟩ := ofScan_of_root same
        rw [finishes, Assembly.finish_insideComment]

end Tree

/-! ## Places in terms of the text -/

namespace Place

/-- Whether a place stands behind the given characters of a text: its offset counts their
bytes, its line their newlines, and its column the characters behind the last of these. -/
structure IsBehind (place : Place) (before : List Char) : Prop where
  offset : place.offset = (Text.encodeUtf8 (String.ofList before)).length
  line : place.line = 1 + before.count '\n'
  column : place.column = 1 + (before.reverse.takeWhile (· != '\n')).length

theorem line_after (place : Place) (before : List Char) :
    (place.after before).line = place.line + before.count '\n' := by
  induction before generalizing place with
  | nil => rfl
  | cons character rest ih =>
      rw [after_cons, ih, next]
      by_cases isNewline : character = '\n'
      · simp only [isNewline, if_true, List.count_cons_self]
        omega
      · simp only [isNewline, if_false, List.count_cons_of_ne isNewline]

theorem column_after (before : List Char) :
    (start.after before).column = 1 + (before.reverse.takeWhile (· != '\n')).length := by
  induction before using List.reverseRecOn with
  | nil => rfl
  | append_singleton before character ih =>
      rw [after_append, after_cons, after_nil, next, List.reverse_concat]
      by_cases isNewline : character = '\n'
      · simp [isNewline]
      · simp only [isNewline, if_false, ih, List.takeWhile_cons, bne_iff_ne, ne_eq, not_false_iff,
          if_true, List.length_cons]
        omega

theorem isBehind_after (before : List Char) : (start.after before).IsBehind before where
  offset := by
    rw [offset_after]
    exact Nat.zero_add _
  line := line_after start before
  column := column_after before

theorem IsBehind.eq {first second : Place} {before : List Char} (isFirst : first.IsBehind before)
    (isSecond : second.IsBehind before) : first = second := by
  cases first
  cases second
  rw [Place.mk.injEq]
  exact ⟨isFirst.line.trans isSecond.line.symm, isFirst.column.trans isSecond.column.symm,
    isFirst.offset.trans isSecond.offset.symm⟩

end Place

namespace Tree

/-- Parse errors point at the culprit.  A text is refused with an error exactly if the
culprit for that error stands in it, at the position whose bytes, lines and columns the
error gives. -/
theorem parse_error_iff_culprit (text : String) (error : SyntaxError) :
    parse text = .error error ↔
      ∃ position ≤ text.length,
        Culprit error.fault (text.toList.take position) (text.toList.drop position) ∧
          error.place.IsBehind (text.toList.take position) := by
  constructor
  · intro failed
    obtain ⟨before, behind, isText, culprit, isPlace⟩ := pointsAtCulprit_of_parse failed
    refine ⟨before.length, ?_, ?_⟩
    · rw [← String.length_toList, isText]
      simp
    · rw [isText, List.take_left, List.drop_left]
      exact ⟨culprit, isPlace ▸ Place.isBehind_after before⟩
  · rintro ⟨position, -, culprit, isBehind⟩
    rw [parse_of_culprit (List.take_append_drop position text.toList).symm culprit,
      (Place.isBehind_after _).eq isBehind]

example : parse "(é\n (b\"\\\")" = .error ⟨.unterminatedString, ⟨2, 4, 7⟩⟩ := by rfl

end Tree

end WatLink
