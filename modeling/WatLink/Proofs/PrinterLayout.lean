import WatLink.Proofs.ParserGrammar
import WatLink.Tree.Layout

/-!
# Printed trees are layouts

Both printers write the tokens of a tree in order and put only blanks between
them, whatever the indentation.  The one place where they leave no blank in
front of an atom is behind an opening parenthesis, so a printed tree is a layout
of that tree as soon as its atoms can be read and none that heads a list starts
with a semicolon.
-/

namespace WatLink

namespace Tree

mutual

/-- A tree and all trees inside it. -/
def subtrees : Tree → List Tree
  | .atom text => [.atom text]
  | .list items => .list items :: subtreesOfItems items

/-- The trees among and inside some items. -/
def subtreesOfItems : List Tree → List Tree
  | [] => []
  | item :: rest => item.subtrees ++ subtreesOfItems rest

end

/-- Whether all atoms of a tree can be read as atoms. -/
def CompleteAtoms (tree : Tree) : Prop :=
  ∀ subtree ∈ tree.subtrees, ∀ text ∈ subtree.text?, Lexeme.CompleteToken text.toList

/-- Whether no list of a tree starts with an atom that starts with a
semicolon. -/
def PlainHeads (tree : Tree) : Prop :=
  ∀ subtree ∈ tree.subtrees, ∀ tag ∈ subtree.tag?, tag.toList.head? ≠ some ';'

instance (text : String) : Decidable (Lexeme.CompleteToken text.toList) :=
  decidable_of_iff _ (Lexeme.completeToken_iff_scan text).symm

instance (tree : Tree) : Decidable tree.CompleteAtoms :=
  inferInstanceAs (Decidable (∀ subtree ∈ tree.subtrees, ∀ text ∈ subtree.text?, _))

instance (tree : Tree) : Decidable tree.PlainHeads :=
  inferInstanceAs (Decidable (∀ subtree ∈ tree.subtrees, ∀ tag ∈ subtree.tag?, _))

theorem mem_subtreesOfItems {tree : Tree} {items : List Tree} :
    tree ∈ subtreesOfItems items ↔ ∃ item ∈ items, tree ∈ item.subtrees := by
  induction items with
  | nil => simp [subtreesOfItems]
  | cons item rest ih => simp [subtreesOfItems, ih]

theorem forall_mem_subtrees_list {property : Tree → Prop} {items : List Tree} :
    (∀ subtree ∈ (Tree.list items).subtrees, property subtree) ↔
      property (.list items) ∧ ∀ item ∈ items, ∀ subtree ∈ item.subtrees, property subtree := by
  simp only [subtrees, List.forall_mem_cons, mem_subtreesOfItems]
  constructor
  · rintro ⟨whole, parts⟩
    exact ⟨whole, fun item member subtree inside => parts subtree ⟨item, member, inside⟩⟩
  · rintro ⟨whole, parts⟩
    exact ⟨whole, fun subtree ⟨item, member, inside⟩ => parts item member subtree inside⟩

theorem completeAtoms_atom {text : String} :
    CompleteAtoms (.atom text) ↔ Lexeme.CompleteToken text.toList := by
  simp [CompleteAtoms, subtrees, text?]

theorem completeAtoms_list {items : List Tree} :
    CompleteAtoms (.list items) ↔ ∀ item ∈ items, CompleteAtoms item := by
  rw [CompleteAtoms, forall_mem_subtrees_list]
  simp [text?, CompleteAtoms]

theorem plainHeads_atom (text : String) : PlainHeads (.atom text) := by
  simp [PlainHeads, subtrees, tag?]

theorem plainHeads_list {items : List Tree} :
    PlainHeads (.list items) ↔
      (∀ text rest, items = .atom text :: rest → text.toList.head? ≠ some ';') ∧
        ∀ item ∈ items, PlainHeads item := by
  rw [PlainHeads, forall_mem_subtrees_list]
  refine and_congr_left fun _ => ?_
  match items with
  | [] | .list _ :: _ => simp [tag?]
  | .atom text :: rest => simp [tag?]

theorem atom_mem_tokens {text : String} {tree : Tree} (inside : .atom text ∈ tree.subtrees) :
    .atom text ∈ tree.tokens := by
  induction tree with
  | atom other => simpa [subtrees, tokens] using inside
  | list items ih =>
      simp only [subtrees, List.mem_cons, mem_subtreesOfItems] at inside
      rcases inside with same | ⟨item, member, inside⟩
      · cases same
      · obtain ⟨before, behind, rfl⟩ := List.append_of_mem member
        simp [tokens, tokensOfItems_append, tokensOfItems, ih item member inside]

theorem completeAtoms_of_parse {text : String} {tree : Tree} (parsed : parse text = .ok tree) :
    tree.CompleteAtoms := by
  obtain ⟨written, gap, isWritten, -, -, -⟩ := (parse_eq_ok_iff_isLayout text tree).mp parsed
  rintro subtree inside atom isAtom
  cases subtree with
  | list items => simp [text?] at isAtom
  | atom other =>
      obtain rfl : other = atom := by simpa [text?] using isAtom
      exact isWritten.complete _ (atom_mem_tokens inside)

/-! ## Printing on one line -/

/-- The text of a piece. -/
def Piece.text : Piece → String
  | .mark text => text
  | .node tree => tree.text

/-- The text of several pieces. -/
def textOfPieces : List Piece → String
  | [] => ""
  | piece :: rest => piece.text ++ textOfPieces rest

theorem textOfPieces_append (first second : List Piece) :
    textOfPieces (first ++ second) = textOfPieces first ++ textOfPieces second := by
  induction first with
  | nil => simp [textOfPieces]
  | cons piece rest ih => simp [textOfPieces, ih, String.append_assoc]

theorem textOfPieces_piecesOfRest (rest : List Tree) :
    textOfPieces (piecesOfRest rest) = textOfRest rest := by
  induction rest with
  | nil => rfl
  | cons item rest ih =>
      rw [piecesOfRest, List.flatMap_cons, textOfPieces_append, ← piecesOfRest, ih]
      simp [textOfPieces, Piece.text, textOfRest]

theorem textOfPieces_piecesOfItems (items : List Tree) :
    textOfPieces (piecesOfItems items) = textOfItems items := by
  cases items with
  | nil => rfl
  | cons item rest =>
      simp [piecesOfItems, textOfPieces, Piece.text, textOfItems, textOfPieces_piecesOfRest]

theorem printPieces_eq (written : String) (pieces : List Piece) :
    printPieces written pieces = written ++ textOfPieces pieces := by
  fun_induction printPieces written pieces with
  | case1 written => simp [textOfPieces]
  | case2 written text stack ih => rw [ih, textOfPieces, Piece.text, String.append_assoc]
  | case3 written text stack ih => rw [ih, textOfPieces, Piece.text, Tree.text, String.append_assoc]
  | case4 written items stack ih =>
      rw [ih, textOfPieces_append, textOfPieces_piecesOfItems]
      simp [textOfPieces, Piece.text, text, String.append_assoc]

/-- Printing with a stack gives the canonical text. -/
theorem print_eq_text (tree : Tree) : tree.print = tree.text := by
  rw [print, printPieces_eq]
  simp [textOfPieces, Piece.text]

/-- The first token of a tree. -/
def firstToken : Tree → Token
  | .atom text => .atom text
  | .list _ => .opening

/-- What it means that the canonical text of a tree writes its tokens behind any
gap that fits. -/
def WritesText (tree : Tree) : Prop :=
  ∀ {previous : Option Token} {gap : List Char}, Lexeme.Gap gap →
    Lexeme.Fits previous gap (some tree.firstToken) →
      Lexeme.Written previous tree.tokens (gap ++ tree.text.toList)

theorem written_textOfRest {rest : List Tree} (writes : ∀ item ∈ rest, WritesText item)
    (previous : Option Token) :
    Lexeme.Written previous (tokensOfItems rest) (textOfRest rest).toList := by
  induction rest generalizing previous with
  | nil => exact .nil
  | cons item rest ih =>
      have isBlank : Text.isBlank ' ' = true := by decide
      have writtenItem := writes item (by simp) (.blank isBlank .nil)
        (.ofBlank previous (some item.firstToken) isBlank)
      have writtenRest := ih (fun other member => writes other (by simp [member]))
        (Lexeme.lastToken previous item.tokens)
      simpa [tokensOfItems, textOfRest] using writtenItem.append writtenRest

theorem fits_firstItem {item : Tree} {rest : List Tree}
    (plainHead : ∀ text behind, item :: rest = .atom text :: behind →
      text.toList.head? ≠ some ';') :
    Lexeme.Fits (some .opening) [] (some item.firstToken) := by
  cases item with
  | atom text =>
      refine ⟨fun _ _ previous => by simp at previous, fun _ _ _ => by simp, fun _ => ?_⟩
      simpa [firstToken, Token.characters] using plainHead text rest rfl
  | list items => exact .opening _

theorem written_textOfItems {items : List Tree} (writes : ∀ item ∈ items, WritesText item)
    (plainHead : ∀ text rest, items = .atom text :: rest → text.toList.head? ≠ some ';') :
    Lexeme.Written (some .opening) (tokensOfItems items) (textOfItems items).toList := by
  cases items with
  | nil => exact .nil
  | cons item rest =>
      have writtenItem := writes item (by simp) .nil (fits_firstItem plainHead)
      have writesRest : ∀ other ∈ rest, WritesText other :=
        fun other member => writes other (List.mem_cons_of_mem item member)
      have writtenRest := written_textOfRest writesRest
        (Lexeme.lastToken (some .opening) item.tokens)
      simpa [tokensOfItems, textOfItems] using writtenItem.append writtenRest

theorem written_text {tree : Tree} (complete : tree.CompleteAtoms) (plain : tree.PlainHeads) :
    WritesText tree := by
  induction tree with
  | atom text =>
      intro previous gap isGap fits
      exact .single isGap fits (completeAtoms_atom.mp complete)
  | list items ih =>
      intro previous gap isGap fits
      rw [completeAtoms_list] at complete
      rw [plainHeads_list] at plain
      have writes : ∀ item ∈ items, WritesText item :=
        fun item member => ih item member (complete item member) (plain.2 item member)
      have writtenItems := written_textOfItems writes plain.1
      have writtenClosing : Lexeme.Written
          (Lexeme.lastToken (some .opening) (tokensOfItems items)) [.closing] [')'] :=
        .single .nil (.closing _) trivial
      have writtenList := Lexeme.Written.token isGap fits trivial
        (writtenItems.append writtenClosing)
      simpa [tokens, text, Token.characters, firstToken] using writtenList

/-! ## Printing over several lines -/

/-- Lines with a newline in front of each. -/
def newlined (lines : List String) : List Char :=
  lines.flatMap fun line => '\n' :: line.toList

theorem toList_intercalate_cons (line : String) (rest : List String) :
    (String.intercalate "\n" (line :: rest)).toList = line.toList ++ newlined rest := by
  induction rest generalizing line with
  | nil => simp [newlined]
  | cons next rest ih =>
      rw [String.intercalate_cons_cons]
      simp [ih, newlined]

theorem newlined_eq {lines : List String} (nonempty : lines ≠ []) :
    newlined lines = '\n' :: (String.intercalate "\n" lines).toList := by
  obtain ⟨line, rest, rfl⟩ := List.exists_cons_of_ne_nil nonempty
  rw [toList_intercalate_cons]
  simp [newlined]

theorem toList_intercalate_appendToLast {lines : List String} (nonempty : lines ≠ [])
    (suffix : String) :
    (String.intercalate "\n" (appendToLast suffix lines)).toList =
      (String.intercalate "\n" lines).toList ++ suffix.toList := by
  induction lines with
  | nil => exact absurd rfl nonempty
  | cons line rest ih =>
      cases rest with
      | nil => simp [appendToLast]
      | cons next rest =>
          obtain ⟨first, others, same⟩ := List.exists_cons_of_ne_nil
            (show appendToLast suffix (next :: rest) ≠ [] by cases rest <;> simp [appendToLast])
          have ih' := ih (by simp)
          rw [same] at ih'
          rw [appendToLast, same, String.intercalate_cons_cons, String.intercalate_cons_cons]
          · simp [ih']
          · simp

theorem linesOfItems_ne_nil (indent : Int) (level : Nat) (opening : String) (isFirst : Bool)
    (items : List Tree) : linesOfItems indent level opening isFirst items ≠ [] := by
  induction items generalizing opening isFirst with
  | nil => simp [linesOfItems]
  | cons item rest ih =>
      cases item with
      | atom text => simpa [linesOfItems, text?] using ih _ _
      | list items => simp [linesOfItems, text?]

theorem lines_ne_nil (indent : Int) (level : Nat) (tree : Tree) :
    tree.lines indent level ≠ [] := by
  cases tree with
  | atom text => simp [lines]
  | list items =>
      rw [lines]
      split
      · simp
      · have nonempty := linesOfItems_ne_nil indent level (padding indent level ++ "(") true items
        obtain ⟨line, rest, same⟩ := List.exists_cons_of_ne_nil nonempty
        rw [same]
        cases rest <;> simp [appendToLast]

/-- What it means that the lines of a tree write its tokens behind blanks, at
every level. -/
def WritesLines (indent : Int) (tree : Tree) : Prop :=
  ∀ (level : Nat) {previous : Option Token} {blanks : List Char},
    (∀ character ∈ blanks, Text.isBlank character = true) →
      Lexeme.Fits previous (blanks ++ (padding indent level).toList) (some tree.firstToken) →
        Lexeme.Written previous tree.tokens
          (blanks ++ (String.intercalate "\n" (tree.lines indent level)).toList)

theorem padding_blank (indent : Int) (level : Nat) :
    ∀ character ∈ (padding indent level).toList, Text.isBlank character = true := by
  intro character member
  have isSpace : character = ' ' := by
    simp only [padding, String.toList_ofList] at member
    exact List.eq_of_mem_replicate member
  rw [isSpace]
  decide

theorem written_newlined {indent : Int} {tree : Tree} (writes : WritesLines indent tree)
    (level : Nat) (previous : Option Token) :
    Lexeme.Written previous tree.tokens (newlined (tree.lines indent level)) := by
  have isBlank : Text.isBlank '\n' = true := by decide
  have written := writes level (show ∀ character ∈ ['\n'], Text.isBlank character = true by
    simpa using isBlank) (.ofBlank previous (some tree.firstToken) isBlank)
  rw [newlined_eq (lines_ne_nil indent level tree)]
  simpa using written

theorem written_linesOfRest {indent : Int} {rest : List Tree}
    (writes : ∀ item ∈ rest, WritesLines indent item) (level : Nat) (previous : Option Token) :
    Lexeme.Written previous (tokensOfItems rest) (newlined (linesOfRest indent level rest)) := by
  induction rest generalizing previous with
  | nil => exact .nil
  | cons item rest ih =>
      have writesRest : ∀ other ∈ rest, WritesLines indent other :=
        fun other member => writes other (List.mem_cons_of_mem item member)
      have writtenItem := written_newlined (writes item (by simp)) (level + 1) previous
      have writtenRest := ih writesRest (Lexeme.lastToken previous item.tokens)
      simpa [tokensOfItems, linesOfRest, newlined] using writtenItem.append writtenRest

/-- The lines of items go on from the opening line with text that writes the
items.  Only directly behind the parenthesis is there no blank in front of the
next atom. -/
theorem exists_written_linesOfItems {indent : Int} {items : List Tree}
    (complete : ∀ item ∈ items, CompleteAtoms item)
    (writes : ∀ item ∈ items, WritesLines indent item) (level : Nat) (opening : String)
    (isFirst : Bool) (previous : Option Token)
    (fits : isFirst = true → ∀ text rest, items = .atom text :: rest →
      Lexeme.Fits previous [] (some (.atom text))) :
    ∃ body, Lexeme.Written previous (tokensOfItems items) body ∧
      (String.intercalate "\n" (linesOfItems indent level opening isFirst items)).toList =
        opening.toList ++ body := by
  induction items generalizing opening isFirst previous with
  | nil => exact ⟨[], .nil, by simp [linesOfItems]⟩
  | cons item rest ih =>
      have completeRest : ∀ other ∈ rest, CompleteAtoms other :=
        fun other member => complete other (List.mem_cons_of_mem item member)
      have writesRest : ∀ other ∈ rest, WritesLines indent other :=
        fun other member => writes other (List.mem_cons_of_mem item member)
      cases item with
      | atom text =>
          have completeText := completeAtoms_atom.mp (complete (.atom text) (by simp))
          obtain ⟨body, writtenBody, same⟩ := ih completeRest writesRest
            (if isFirst then opening ++ text else opening ++ " " ++ text) false
            (some (.atom text)) (by simp)
          cases isFirst with
          | true =>
              refine ⟨text.toList ++ body, ?_, by simpa [linesOfItems, text?] using same⟩
              exact .token .nil (fits rfl text rest rfl) completeText writtenBody
          | false =>
              have isBlank : Text.isBlank ' ' = true := by decide
              refine ⟨' ' :: (text.toList ++ body), ?_, by simpa [linesOfItems, text?] using same⟩
              exact .token (.blank isBlank .nil) (.ofBlank _ _ isBlank) completeText writtenBody
      | list items =>
          have writtenItem := written_newlined (writes (.list items) (by simp)) (level + 1) previous
          have writtenRest := written_linesOfRest writesRest level
            (Lexeme.lastToken previous (Tree.list items).tokens)
          refine ⟨_, writtenItem.append writtenRest, ?_⟩
          rw [linesOfItems]
          simp only [text?]
          rw [toList_intercalate_cons]
          simp [newlined]

/-- The lines of a tree write its tokens, whatever the indentation. -/
theorem written_lines {tree : Tree} (complete : tree.CompleteAtoms) (plain : tree.PlainHeads)
    (indent : Int) : WritesLines indent tree := by
  induction tree with
  | atom text =>
      intro level previous blanks areBlank fits
      have isGap : Lexeme.Gap (blanks ++ (padding indent level).toList) :=
        (Lexeme.Gap.ofBlanks areBlank).append (.ofBlanks (padding_blank indent level))
      have written := Lexeme.Written.single isGap fits (completeAtoms_atom.mp complete)
      simpa [lines, tokens, Token.characters, firstToken] using written
  | list items ih =>
      intro level previous blanks areBlank fits
      have isGap : Lexeme.Gap (blanks ++ (padding indent level).toList) :=
        (Lexeme.Gap.ofBlanks areBlank).append (.ofBlanks (padding_blank indent level))
      rw [lines]
      split
      · have written := written_text complete plain isGap fits
        simpa [print_eq_text] using written
      · rw [completeAtoms_list] at complete
        rw [plainHeads_list] at plain
        have writes : ∀ item ∈ items, WritesLines indent item :=
          fun item member => ih item member (complete item member) (plain.2 item member)
        have fitsFirst : true = true → ∀ text rest, items = .atom text :: rest →
            Lexeme.Fits (some .opening) [] (some (.atom text)) := by
          rintro - text rest rfl
          exact fits_firstItem plain.1
        obtain ⟨body, writtenBody, same⟩ := exists_written_linesOfItems complete writes level
          (padding indent level ++ "(") true (some .opening) fitsFirst
        have writtenClosing : Lexeme.Written
            (Lexeme.lastToken (some .opening) (tokensOfItems items)) [.closing] [')'] :=
          .single .nil (.closing _) trivial
        have written := Lexeme.Written.token isGap fits trivial
          (writtenBody.append writtenClosing)
        rw [toList_intercalate_appendToLast (linesOfItems_ne_nil _ _ _ _ _), same]
        simpa [tokens, Token.characters, firstToken] using written

/-! ## Reading printed trees -/

theorem isLayout_print {tree : Tree} (complete : tree.CompleteAtoms)
    (plain : tree.PlainHeads) : tree.IsLayout tree.print := by
  have written := written_text complete plain .nil (.start [] (some tree.firstToken))
  refine ⟨tree.print.toList, [], ?_, .inl .nil, ⟨by simp, by simp, by simp⟩, by simp⟩
  simpa [print_eq_text] using written

theorem isLayout_prettyPrint {tree : Tree} (complete : tree.CompleteAtoms)
    (plain : tree.PlainHeads) (indent : Int) : tree.IsLayout (tree.prettyPrint indent) := by
  have isBlank : Text.isBlank '\n' = true := by decide
  have written := written_lines complete plain indent 0 (by simp)
    (.start ([] ++ (padding indent 0).toList) (some tree.firstToken))
  exact ⟨_, ['\n'], written, .inl (.blank isBlank .nil), .ofBlank _ _ isBlank,
    by simp [prettyPrint]⟩

/-- A tree is read back from either of its printed forms, at every indentation,
if its atoms can be read and no list of it starts with a semicolon; and the
atoms of everything that is read can be read again. -/
theorem parse_print_and_prettyPrint :
    (∀ tree : Tree, tree.CompleteAtoms → tree.PlainHeads → ∀ indent : Int,
        parse tree.print = .ok tree ∧ parse (tree.prettyPrint indent) = .ok tree) ∧
      ∀ (text : String) (tree : Tree), parse text = .ok tree → tree.CompleteAtoms := by
  refine ⟨fun tree complete plain indent => ⟨?_, ?_⟩, fun text tree => completeAtoms_of_parse⟩
  · exact (parse_eq_ok_iff_isLayout _ _).mpr (isLayout_print complete plain)
  · exact (parse_eq_ok_iff_isLayout _ _).mpr (isLayout_prettyPrint complete plain indent)

/-- A list that starts with an empty list, a semicolon in front of a closing
parenthesis and one inside a literal, without indentation. -/
theorem parse_prettyPrint_list :
    parse (prettyPrint (-1) (.list [.list [], .atom ";x", .list [.atom "a\"( ;;\"", .atom ";"]])) =
      .ok (.list [.list [], .atom ";x", .list [.atom "a\"( ;;\"", .atom ";"]]) :=
  (parse_print_and_prettyPrint.1 _ (by decide) (by decide) (-1)).2

end Tree

end WatLink
