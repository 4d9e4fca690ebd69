import WatLink.Proofs.PrinterLayout

/-!
# When printing is a fixed point

Printing what was read, reading it again and printing it once more gives the
same text exactly if no list of the tree starts with an atom that starts with a
semicolon.  Such a list is printed without a blank behind its parenthesis, where
the two characters open a block comment.

The argument counts characters that are not blank.  The scanner never finds more
of them in lexemes than the text holds, and it loses some to every comment; a
printed text holds exactly those of its tokens.
-/

namespace WatLink

namespace Lexeme

/-- The number of characters that are not blank. -/
def weight (text : List Char) : Nat :=
  text.countP fun character => !Text.isBlank character

/-- The number of characters of tokens that are not blank. -/
def weightOfTokens (tokens : List Token) : Nat :=
  weight (tokens.flatMap Token.characters)

/-- The number of characters of lexemes that are not blank. -/
def weightOfLexemes (lexemes : List Lexeme) : Nat :=
  weightOfTokens (lexemes.map Lexeme.token)

/-- The characters, not counting blanks, of the atom that the scanner is in. -/
def Mode.weight : Mode → Nat
  | .atom _ read | .string _ _ read | .escape _ _ read => Lexeme.weight read
  | _ => 0

@[simp]
theorem weight_nil : weight [] = 0 := rfl

@[simp]
theorem weight_cons (character : Char) (rest : List Char) :
    weight (character :: rest) =
      (if Text.isBlank character then 0 else 1) + weight rest := by
  rw [weight, List.countP_cons, ← weight, Nat.add_comm]
  cases Text.isBlank character <;> rfl

@[simp]
theorem weight_append (first second : List Char) :
    weight (first ++ second) = weight first + weight second := by
  simp [weight]

@[simp]
theorem weight_reverse (text : List Char) : weight text.reverse = weight text := by
  simp [weight]

@[simp]
theorem weightOfTokens_nil : weightOfTokens [] = 0 := rfl

@[simp]
theorem weightOfTokens_cons (token : Token) (rest : List Token) :
    weightOfTokens (token :: rest) = weight token.characters + weightOfTokens rest := by
  simp [weightOfTokens]

@[simp]
theorem weightOfTokens_append (first second : List Token) :
    weightOfTokens (first ++ second) = weightOfTokens first + weightOfTokens second := by
  simp [weightOfTokens]

theorem weightOfLexemes_append (first second : List Lexeme) :
    weightOfLexemes (first ++ second) = weightOfLexemes first + weightOfLexemes second := by
  simp [weightOfLexemes]

theorem weightOfLexemes_reverse (lexemes : List Lexeme) :
    weightOfLexemes lexemes.reverse = weightOfLexemes lexemes := by
  induction lexemes with
  | nil => rfl
  | cons lexeme rest ih =>
      rw [List.reverse_cons, weightOfLexemes_append, ih]
      simp [weightOfLexemes, Nat.add_comm]

theorem weight_stepGap (place : Place) (character : Char) (next? : Option Char) :
    weightOfLexemes (stepGap place character next?).2 +
        (stepGap place character next?).1.weight ≤ weight [character] := by
  unfold stepGap
  split_ifs with isBlank isLine isBlock isOpening isClosing isQuote
  all_goals simp_all [weightOfLexemes, Mode.weight, Token.characters]

/-- One character adds at most itself to what the scanner has found and holds. -/
theorem weight_step (place : Place) (character : Char) (next? : Option Char) (mode : Mode) :
    weightOfLexemes (step place character next? mode).2 +
        (step place character next? mode).1.weight ≤
      mode.weight + weight [character] := by
  cases mode with
  | gap => simpa [step, Mode.weight] using weight_stepGap place character next?
  | line =>
      simp only [step]
      split <;> simp [weightOfLexemes, Mode.weight]
  | block outer depth =>
      simp only [step]
      split_ifs <;> simp [weightOfLexemes, Mode.weight]
  | bracket outer depth =>
      simp only [step]
      split <;> simp [weightOfLexemes, Mode.weight]
  | atom start read =>
      have gapBound := weight_stepGap place character next?
      simp only [step]
      split_ifs with ends isQuote
      · simp only [weightOfLexemes, ofReversed, List.map_cons, weightOfTokens_cons,
          Token.characters, String.toList_ofList, weight_reverse, Mode.weight] at gapBound ⊢
        omega
      · simp [weightOfLexemes, Mode.weight, Nat.add_comm]
      · simp [weightOfLexemes, Mode.weight, Nat.add_comm]
  | string start quote read =>
      simp only [step]
      split_ifs <;> simp [weightOfLexemes, Mode.weight, Nat.add_comm]
  | escape start quote read => simp [step, weightOfLexemes, Mode.weight, Nat.add_comm]

theorem weight_close (mode : Mode) : weightOfLexemes (close mode).1 ≤ mode.weight := by
  cases mode <;> simp [close, weightOfLexemes, Mode.weight, ofReversed, Token.characters]

theorem weight_scanFrom (found : List Lexeme) (mode : Mode) (place : Place) (text : List Char) :
    weightOfLexemes (scanFrom found mode place text).lexemes ≤
      weightOfLexemes found + mode.weight + weight text := by
  induction text generalizing found mode place with
  | nil =>
      have closed := weight_close mode
      simp only [scanFrom, weightOfLexemes_reverse, weightOfLexemes_append, weight_nil]
      omega
  | cons character rest ih =>
      have stepped := weight_step place character rest.head? mode
      have scanned := ih ((step place character rest.head? mode).2.reverse ++ found)
        (step place character rest.head? mode).1 (place.next character)
      rw [weightOfLexemes_append, weightOfLexemes_reverse] at scanned
      rw [scanFrom_cons]
      simp only [weight_cons, weight_nil] at stepped ⊢
      omega

/-- Whether the scanner loses some of a text to a comment. -/
def Loses (text : List Char) : Prop :=
  ∀ found place, weightOfLexemes (scanFrom found .gap place text).lexemes <
    weightOfLexemes found + weight text

theorem loses_block (rest : List Char) : Loses ('(' :: ';' :: rest) := by
  intro found place
  have scanned := weight_scanFrom found (.block place 1) (place.after ['(', ';']) rest
  rw [scanFrom_gap_block]
  simp only [Mode.weight] at scanned
  simp only [weight_cons, isBlank_opening, isBlank_semicolon]
  simp only [Bool.false_eq_true, if_false]
  omega

theorem Loses.blank {rest : List Char} (loses : Loses rest) : Loses (' ' :: rest) := by
  intro found place
  have isBlank : Text.isBlank ' ' = true := by decide
  rw [scanFrom_gap_blank isBlank]
  simpa [isBlank] using loses found (place.next ' ')

theorem weightOfTokens_le_of_written {previous : Option Token} {tokens : List Token}
    {written : List Char} (isWritten : Written previous tokens written) :
    weightOfTokens tokens ≤ weight written := by
  induction isWritten with
  | nil => exact Nat.le_refl 0
  | token _ _ _ _ ih =>
      simp only [weightOfTokens_cons, weight_append]
      omega

theorem Loses.written {previous : Option Token} {tokens : List Token} {written rest : List Char}
    (isWritten : Written previous tokens written)
    (follows : MayFollow (lastToken previous tokens) rest) (loses : Loses rest) :
    Loses (written ++ rest) := by
  intro found place
  obtain ⟨lexemes, laid, sameTokens⟩ := isWritten.exists_laid place
  have bound := weightOfTokens_le_of_written isWritten
  rw [← sameTokens] at follows bound
  obtain ⟨-, scanned⟩ := scanFrom_laid laid follows
  have restLoses := loses (lexemes.reverse ++ found) (place.after written)
  rw [← weightOfLexemes] at bound
  rw [weightOfLexemes_append, weightOfLexemes_reverse] at restLoses
  rw [scanned, weight_append]
  omega

theorem mayFollow_space (previous : Option Token) (rest : List Char) :
    MayFollow previous (' ' :: rest) := by
  have isBlank : Text.isBlank ' ' = true := by decide
  exact mayFollow_gap (.inl (.blank isBlank .nil)) (.ofBlank previous none isBlank) (by simp) rest

end Lexeme

namespace Tree

open Lexeme

mutual

theorem weight_text (tree : Tree) : weight tree.text.toList = weightOfTokens tree.tokens := by
  cases tree with
  | atom characters => simp [text, tokens, Token.characters]
  | list items =>
      simp [text, tokens, Token.characters, weight_textOfItems items]

theorem weight_textOfItems (items : List Tree) :
    weight (textOfItems items).toList = weightOfTokens (tokensOfItems items) := by
  cases items with
  | nil => rfl
  | cons item rest =>
      simp [textOfItems, tokensOfItems, weight_text item, weight_textOfRest rest]

theorem weight_textOfRest (rest : List Tree) :
    weight (textOfRest rest).toList = weightOfTokens (tokensOfItems rest) := by
  cases rest with
  | nil => rfl
  | cons item rest =>
      have isBlank : Text.isBlank ' ' = true := by decide
      simp [textOfRest, tokensOfItems, weight_text item, weight_textOfRest rest, isBlank]

end

theorem mayFollow_textOfRest {rest : List Tree} (nonempty : rest ≠ [])
    (previous : Option Token) (behind : List Char) :
    MayFollow previous ((textOfRest rest).toList ++ behind) := by
  obtain ⟨item, others, rfl⟩ := List.exists_cons_of_ne_nil nonempty
  simpa [textOfRest] using mayFollow_space previous _

theorem loses_textOfRest {rest : List Tree} (complete : ∀ item ∈ rest, CompleteAtoms item)
    (loses : ∀ item ∈ rest, ¬ PlainHeads item →
      ∀ behind, Loses (item.text.toList ++ behind))
    (notPlain : ¬ ∀ item ∈ rest, PlainHeads item) (behind : List Char) :
    Loses ((textOfRest rest).toList ++ behind) := by
  induction rest with
  | nil => simp at notPlain
  | cons item rest ih =>
      by_cases plain : item.PlainHeads
      · have notPlainRest : ¬ ∀ other ∈ rest, PlainHeads other := by
          simpa [plain] using notPlain
        have nonempty : rest ≠ [] := by
          rintro rfl
          simp at notPlainRest
        have isBlank : Text.isBlank ' ' = true := by decide
        have written := written_text (complete item (by simp)) plain (.blank isBlank .nil)
          (.ofBlank none (some item.firstToken) isBlank)
        have losesRest := ih (fun other member => complete other (by simp [member]))
          (fun other member => loses other (by simp [member])) notPlainRest
        simpa [textOfRest] using losesRest.written written (mayFollow_textOfRest nonempty _ behind)
      · have losesItem := loses item (by simp) plain ((textOfRest rest).toList ++ behind)
        simpa [textOfRest] using losesItem.blank

/-- A tree with a list that starts with a semicolon loses characters when it is
printed and scanned. -/
theorem loses_text {tree : Tree} (complete : tree.CompleteAtoms) (notPlain : ¬ tree.PlainHeads)
    (behind : List Char) : Loses (tree.text.toList ++ behind) := by
  induction tree generalizing behind with
  | atom characters => exact absurd (plainHeads_atom characters) notPlain
  | list items ih =>
      rw [completeAtoms_list] at complete
      rw [plainHeads_list] at notPlain
      have losesItem : ∀ item ∈ items, ¬ PlainHeads item →
          ∀ behind, Loses (item.text.toList ++ behind) :=
        fun item member => ih item member (complete item member)
      by_cases plainHead : ∀ head rest, items = .atom head :: rest → head.toList.head? ≠ some ';'
      · have notPlainItem : ¬ ∀ item ∈ items, PlainHeads item :=
          fun plain => notPlain ⟨plainHead, plain⟩
        cases items with
        | nil => simp at notPlainItem
        | cons item rest =>
            have opening : Written none [.opening] ['('] := .single .nil (.opening none) trivial
            by_cases plain : item.PlainHeads
            · -- The first item is read back, so the loss is in the others.
              have notPlainRest : ¬ ∀ other ∈ rest, PlainHeads other := by
                simpa [plain] using notPlainItem
              have nonempty : rest ≠ [] := by
                rintro rfl
                simp at notPlainRest
              have losesRest := loses_textOfRest
                (fun other member => complete other (by simp [member]))
                (fun other member => losesItem other (by simp [member])) notPlainRest
                (')' :: behind)
              have writtenItem := written_text (complete item (by simp)) plain .nil
                (fits_firstItem plainHead)
              have loses := losesRest.written (opening.append writtenItem)
                (mayFollow_textOfRest nonempty _ (')' :: behind))
              simpa [text, textOfItems] using loses
            · -- The first item is a list, so the scanner gets into it.
              have follows : MayFollow (some .opening)
                  (item.text.toList ++ ((textOfRest rest).toList ++ ')' :: behind)) := by
                cases item with
                | atom characters => exact absurd (plainHeads_atom characters) plain
                | list inner => simp [MayFollow, text]
              have loses := losesItem item (by simp) plain
                ((textOfRest rest).toList ++ ')' :: behind)
              simpa [text, textOfItems] using loses.written opening follows
      · push Not at plainHead
        obtain ⟨head, rest, rfl, starts⟩ := plainHead
        obtain ⟨others, same⟩ := List.head?_eq_some_iff.mp starts
        simpa [text, textOfItems, same] using loses_block _

/-- Printing a parsed tree gives a text that is read and printed as itself
exactly if no list of the tree starts with a semicolon. -/
theorem print_fixed_point_iff {source : String} {tree : Tree} (parsed : parse source = .ok tree) :
    (∃ again, parse tree.print = .ok again ∧ again.print = tree.print) ↔ tree.PlainHeads := by
  have complete := completeAtoms_of_parse parsed
  constructor
  · rintro ⟨again, parsedAgain, samePrint⟩
    by_contra notPlain
    obtain ⟨-, sameTokens⟩ := (ofScan_eq_ok_iff _ _).mp parsedAgain
    have loses : weightOfLexemes (scan tree.print).lexemes < weight tree.print.toList := by
      have losesText := loses_text complete notPlain [] [] .start
      simpa [scan, print_eq_text, weightOfLexemes] using losesText
    have keeps : weight tree.print.toList = weightOfLexemes (scan tree.print).lexemes :=
      calc
        weight tree.print.toList = weight again.print.toList := by rw [samePrint]
        _ = weightOfTokens again.tokens := by rw [print_eq_text, weight_text]
        _ = weightOfLexemes (scan tree.print).lexemes := by rw [weightOfLexemes, sameTokens]
    omega
  · intro plain
    exact ⟨tree, (parse_eq_ok_iff_isLayout _ _).mpr (isLayout_print complete plain), rfl⟩

/-- A semicolon behind a blank is an atom; printed directly behind the
parenthesis it opens a comment. -/
theorem print_semicolon_not_fixed_point :
    parse "( ;a)" = .ok (.list [.atom ";a"]) ∧ (Tree.list [.atom ";a"]).print = "(;a)" ∧
      ¬ ∃ again, parse (Tree.list [.atom ";a"]).print = .ok again ∧
        again.print = (Tree.list [.atom ";a"]).print := by
  have parsed : parse "( ;a)" = .ok (.list [.atom ";a"]) := by cbv
  refine ⟨parsed, by rw [print_eq_text]; decide, ?_⟩
  rw [print_fixed_point_iff parsed]
  decide

end Tree

end WatLink
