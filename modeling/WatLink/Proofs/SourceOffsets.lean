import WatLink.Proofs.PrinterLayout
import WatLink.Text.Utf8

/-!
# Offsets of lists and atoms

The nodes of a tree start at the atoms and the opening parentheses of its text, and
the reader keeps their offsets.  The scanner counts the UTF-8 bytes in front of every
lexeme, and a part of a layout that writes one node is a layout of that node, so every
node stands at its offset.  What lies between two offsets holds at least the bytes of
the first lexeme, so offsets increase and atoms do not overlap.
-/

namespace WatLink

/-! ## Bytes of texts -/

namespace Text

theorem toList_loop_eq (bytes : ByteArray) (index : Nat) (read : List UInt8) :
    ByteArray.toList.loop bytes index read = read.reverse ++ bytes.data.toList.drop index := by
  fun_induction ByteArray.toList.loop bytes index read with
  | case1 index read inside ih =>
      have inData : index < bytes.data.size := inside
      have found : bytes.get! index = bytes.data.toList[index] :=
        getElem!_pos bytes.data index inData
      rw [ih, List.reverse_cons, List.append_assoc, List.drop_eq_getElem_cons inData, found]
      rfl
  | case2 index read outside =>
      have isEnd : bytes.data.toList.length ≤ index := Nat.le_of_not_lt outside
      rw [List.drop_eq_nil_of_le isEnd, List.append_nil]

theorem encodeUtf8_ofList (characters : List Char) :
    encodeUtf8 (String.ofList characters) = characters.flatMap String.utf8EncodeChar := by
  rw [encodeUtf8, String.toUTF8_eq_toByteArray, String.toByteArray_ofList, List.utf8Encode,
    ByteArray.toList, toList_loop_eq, List.toList_data_toByteArray]
  rfl

theorem encodeUtf8_append (first second : String) :
    encodeUtf8 (first ++ second) = encodeUtf8 first ++ encodeUtf8 second := by
  rw [← String.ofList_toList (s := first), ← String.ofList_toList (s := second),
    ← String.ofList_append]
  simp only [encodeUtf8_ofList, List.flatMap_append]

end Text

/-- The offset behind some characters counts their bytes. -/
theorem Place.offset_after (place : Place) (characters : List Char) :
    (place.after characters).offset =
      place.offset + (Text.encodeUtf8 (String.ofList characters)).length := by
  rw [Text.encodeUtf8_ofList]
  induction characters generalizing place with
  | nil => rfl
  | cons character rest ih =>
      have next : (place.next character).offset = place.offset + character.utf8Size := by
        unfold Place.next
        split <;> rfl
      rw [Place.after_cons, ih, next, List.flatMap_cons, List.length_append,
        String.length_utf8EncodeChar]
      omega

/-- The bytes of a token. -/
def Token.bytes (token : Token) : Bytes :=
  Text.encodeUtf8 (String.ofList token.characters)

namespace Lexeme

/-! ## Parts of what is laid -/

theorem Laid.written {previous : Option Token} {place : Place} {lexemes : List Lexeme}
    {text : List Char} (laid : Laid previous place lexemes text) :
    Written previous (lexemes.map Lexeme.token) text := by
  induction laid with
  | nil => exact .nil
  | lexeme isGap fits complete _ ih => exact .token isGap fits complete ih

theorem Laid.exists_append {previous : Option Token} {place : Place} {first second : List Lexeme}
    {text : List Char} (laid : Laid previous place (first ++ second) text) :
    ∃ front behind, text = front ++ behind ∧ Laid previous place first front ∧
      Laid (lastToken previous (first.map Lexeme.token)) (place.after front) second behind := by
  induction first generalizing previous place text with
  | nil => exact ⟨[], text, rfl, .nil, laid⟩
  | cons lexeme rest ih =>
      cases laid with
      | @lexeme _ _ gap token _ text isGap fits complete laid =>
          obtain ⟨front, behind, rfl, laidFront, laidBehind⟩ := ih laid
          refine ⟨gap ++ (token.characters ++ front), behind, by simp, ?_, ?_⟩
          · exact .lexeme isGap fits complete laidFront
          · simpa [lastToken] using laidBehind

/-- Without the gap in front of its first lexeme, a text is laid from there on. -/
theorem Laid.exists_gap {previous : Option Token} {place : Place} {lexeme : Lexeme}
    {rest : List Lexeme} {text : List Char} (laid : Laid previous place (lexeme :: rest) text) :
    ∃ gap behind, text = gap ++ (lexeme.token.characters ++ behind) ∧
      lexeme.start = place.after gap ∧
      Laid none lexeme.start (lexeme :: rest) (lexeme.token.characters ++ behind) ∧
      Laid (some lexeme.token) (lexeme.start.after lexeme.token.characters) rest behind := by
  cases laid with
  | @lexeme _ _ gap token _ behind isGap fits complete laid =>
      exact ⟨gap, behind, rfl, rfl, .lexeme .nil (.start [] _) complete laid, laid⟩

/-! ## Order -/

theorem bytes_length_pos {token : Token} (complete : token.Complete) : 0 < token.bytes.length := by
  obtain ⟨character, rest, isText⟩ := List.exists_cons_of_ne_nil (characters_ne_nil complete)
  rw [Token.bytes, Text.encodeUtf8_ofList, isText, List.flatMap_cons, List.length_append,
    String.length_utf8EncodeChar]
  exact Nat.add_pos_left character.utf8Size_pos _

theorem Laid.le_offset {previous : Option Token} {place : Place} {lexemes : List Lexeme}
    {text : List Char} (laid : Laid previous place lexemes text) :
    ∀ lexeme ∈ lexemes, place.offset ≤ lexeme.start.offset := by
  induction laid with
  | nil => simp
  | @lexeme previous place gap token rest text _ _ _ _ ih =>
      have start := place.offset_after gap
      have finish := (place.after gap).offset_after token.characters
      rintro lexeme (_ | ⟨_, inRest⟩)
      · dsimp only
        omega
      · have behind := ih lexeme inRest
        omega

/-- A lexeme starts behind the bytes of every lexeme in front of it. -/
theorem Laid.pairwise {previous : Option Token} {place : Place} {lexemes : List Lexeme}
    {text : List Char} (laid : Laid previous place lexemes text) :
    lexemes.Pairwise fun first second =>
      first.start.offset < second.start.offset ∧
        first.start.offset + first.token.bytes.length ≤ second.start.offset := by
  induction laid with
  | nil => exact .nil
  | @lexeme previous place gap token rest text _ _ complete laid ih =>
      refine .cons (fun second inRest => ?_) ih
      have behind := laid.le_offset second inRest
      have finish := (place.after gap).offset_after token.characters
      have nonempty := bytes_length_pos complete
      rw [← Token.bytes] at finish
      dsimp only
      omega

end Lexeme

namespace LocatedTree

/-! ## Nodes -/

mutual

/-- A node and all nodes inside it, in the order of the text. -/
def nodes : LocatedTree → List LocatedTree
  | .atom offset text => [.atom offset text]
  | .list offset items => .list offset items :: nodesOfItems items

/-- The nodes among and inside some items. -/
def nodesOfItems : List LocatedTree → List LocatedTree
  | [] => []
  | item :: rest => item.nodes ++ nodesOfItems rest

end

theorem trees_nodesOfItems {items : List LocatedTree}
    (same : ∀ item ∈ items, item.nodes.map tree = item.tree.subtrees) :
    (nodesOfItems items).map tree = Tree.subtreesOfItems (trees items) := by
  induction items with
  | nil => rfl
  | cons item rest ih =>
      rw [List.forall_mem_cons] at same
      rw [nodesOfItems, List.map_append, same.1, ih same.2]
      rfl

/-- Without their offsets, the nodes of a tree are its subtrees. -/
theorem trees_nodes (node : LocatedTree) : node.nodes.map tree = node.tree.subtrees := by
  induction node with
  | atom offset text => rfl
  | list offset items ih =>
      rw [nodes, List.map_cons, trees_nodesOfItems ih, tree, Tree.subtrees]

/-- The first token of a node. -/
def firstToken (node : LocatedTree) : Token :=
  node.tree.firstToken

theorem exists_marks (node : LocatedTree) :
    ∃ rest, node.marks = (node.firstToken, some node.offset) :: rest := by
  cases node with
  | atom offset text => exact ⟨[], rfl⟩
  | list offset items => exact ⟨_, rfl⟩

end LocatedTree

namespace Tree

open Lexeme

/-- Whether the part of a text that begins at an offset, with nothing in front of its
first token, is read as a node. -/
def StandsAt (text : String) (node : Tree) (offset : Nat) : Prop :=
  ∃ before spelled behind : String, text = before ++ spelled ++ behind ∧
    offset = (Text.encodeUtf8 before).length ∧
      node.firstToken.characters <+: spelled.toList ∧ parse spelled = .ok node

theorem parse_of_laid {place : Place} {lexemes : List Lexeme} {spelled : List Char} {node : Tree}
    (laid : Laid none place lexemes spelled) (same : lexemes.map Lexeme.token = node.tokens) :
    parse (String.ofList spelled) = .ok node := by
  rw [parse_eq_ok_iff_isLayout, IsLayout, String.toList_ofList, ← same]
  exact ⟨spelled, [], laid.written, .inl .nil, ⟨by simp, by simp, by simp⟩, by simp⟩

theorem prefix_of_standsAt {text : String} {node : Tree} {offset : Nat}
    (stands : StandsAt text node offset) :
    node.firstToken.bytes <+: (Text.encodeUtf8 text).drop offset := by
  obtain ⟨before, spelled, behind, rfl, rfl, ⟨rest, isSpelled⟩, -⟩ := stands
  have bytes : Text.encodeUtf8 spelled =
      node.firstToken.bytes ++ Text.encodeUtf8 (String.ofList rest) := by
    rw [Token.bytes, ← Text.encodeUtf8_append, ← String.ofList_append, isSpelled,
      String.ofList_toList]
  rw [Text.encodeUtf8_append, Text.encodeUtf8_append, List.append_assoc, List.drop_left, bytes,
    List.append_assoc]
  exact List.prefix_append _ _

end Tree

namespace LocatedTree

open Lexeme

/-- Whether a lexeme is the first of a node that stands at its offset. -/
structure Begins (text : String) (node : LocatedTree) (lexeme : Lexeme) : Prop where
  token : lexeme.token = node.firstToken
  offset : lexeme.start.offset = node.offset
  stands : node.tree.StandsAt text node.offset

/-- Where a node is laid in a text, its first lexeme begins it. -/
theorem begins_of_laid {text : String} {before written behind : List Char}
    (isText : text.toList = before ++ (written ++ behind)) {previous : Option Token}
    {lexeme : Lexeme} {rest : List Lexeme}
    (laid : Laid previous (Place.start.after before) (lexeme :: rest) written)
    {node : LocatedTree} (same : (lexeme :: rest).map Lexeme.mark = node.marks) :
    Begins text node lexeme := by
  obtain ⟨others, isFirst⟩ := node.exists_marks
  obtain ⟨gap, inner, rfl, start, laidHere, -⟩ := laid.exists_gap
  have tokens : (lexeme :: rest).map Lexeme.token = node.tree.tokens := by
    rw [← node.tokens_marks, ← same, List.map_map]
    rfl
  have first : lexeme.mark = (node.firstToken, some node.offset) := by
    rw [isFirst, List.map_cons] at same
    exact (List.cons.inj same).1
  have token : lexeme.token = node.firstToken := (Prod.mk.inj first).1
  have offset : lexeme.start.offset = node.offset := by
    have kept := (Prod.mk.inj first).2
    split at kept
    · cases kept
    · exact Option.some.inj kept
  -- behind the gap nothing stands in front of the node, so it is laid there on its own
  refine ⟨token, offset, String.ofList (before ++ gap),
    String.ofList (lexeme.token.characters ++ inner), String.ofList behind, ?_, ?_, ?_,
    Tree.parse_of_laid laidHere tokens⟩
  · rw [← String.ofList_append, ← String.ofList_append, ← String.ofList_toList (s := text), isText]
    simp
  · rw [← offset, start, ← Place.after_append, Place.offset_after]
    exact Nat.zero_add _
  · rw [String.toList_ofList, token]
    exact List.prefix_append _ _

/-- Whether, wherever lexemes with some marks are laid in a text, those of them that
close no list begin some nodes. -/
def BeginNodes (text : String) (marks : List Mark) (nodes : List LocatedTree) : Prop :=
  ∀ ⦃before written behind : List Char⦄ ⦃previous : Option Token⦄ ⦃lexemes : List Lexeme⦄,
    text.toList = before ++ (written ++ behind) →
      Laid previous (Place.start.after before) lexemes written →
        lexemes.map Lexeme.mark = marks →
          List.Forall₂ (Begins text) nodes (lexemes.filter (·.token != .closing))

theorem BeginNodes.append {text : String} {first second : List Mark}
    {nodes nodes' : List LocatedTree} (beginFirst : BeginNodes text first nodes)
    (beginSecond : BeginNodes text second nodes') :
    BeginNodes text (first ++ second) (nodes ++ nodes') := by
  intro before written behind previous lexemes isText laid same
  obtain ⟨front, back, rfl, sameFront, sameBack⟩ := List.map_eq_append_iff.mp same
  obtain ⟨frontText, backText, rfl, laidFront, laidBack⟩ := laid.exists_append
  rw [← Place.after_append] at laidBack
  rw [List.filter_append]
  exact List.rel_append (beginFirst (by simpa using isText) laidFront sameFront)
    (beginSecond (by simpa using isText) laidBack sameBack)

theorem beginNodes_nil (text : String) : BeginNodes text [] [] := by
  intro before written behind previous lexemes _ _ same
  rw [List.map_eq_nil_iff.mp same]
  exact .nil

theorem beginNodes_closing (text : String) : BeginNodes text [(.closing, none)] [] := by
  intro before written behind previous lexemes _ _ same
  obtain ⟨lexeme, rfl, isMark⟩ := List.map_eq_singleton_iff.mp same
  have isClosing : lexeme.token = .closing := (Prod.mk.inj isMark).1
  simp [isClosing]

theorem beginNodes_items {text : String} {items : List LocatedTree}
    (begin : ∀ item ∈ items, BeginNodes text item.marks item.nodes) :
    BeginNodes text (marksOfItems items) (nodesOfItems items) := by
  induction items with
  | nil => exact beginNodes_nil text
  | cons item rest ih =>
      rw [List.forall_mem_cons] at begin
      exact begin.1.append (ih begin.2)

/-- A node begins at its first lexeme and the nodes inside it at the lexemes behind. -/
theorem beginNodes_of_tail {text : String} {node : LocatedTree} {rest : List Mark}
    {nodes : List LocatedTree} (isFirst : node.marks = (node.firstToken, some node.offset) :: rest)
    (begin : BeginNodes text rest nodes) : BeginNodes text node.marks (node :: nodes) := by
  intro before written behind previous lexemes isText laid same
  have split := same
  rw [isFirst] at split
  obtain ⟨lexeme, others, rfl, -, sameOthers⟩ := List.map_eq_cons_iff.mp split
  have begins := begins_of_laid isText laid same
  obtain ⟨gap, inner, rfl, start, -, laidInner⟩ := laid.exists_gap
  rw [start, ← Place.after_append, ← Place.after_append] at laidInner
  have isKept : (lexeme.token != .closing) = true := by
    rw [begins.token]
    cases node <;> rfl
  rw [List.filter_cons, if_pos isKept]
  exact .cons begins (begin (by simpa using isText) laidInner sameOthers)

theorem beginNodes_nodes (text : String) (node : LocatedTree) :
    BeginNodes text node.marks node.nodes := by
  induction node with
  | atom offset atom => exact beginNodes_of_tail rfl (beginNodes_nil text)
  | list offset items ih =>
      have inside := (beginNodes_items ih).append (beginNodes_closing text)
      rw [List.append_nil] at inside
      exact beginNodes_of_tail rfl inside

/-- Nodes that lexemes begin are in the order of these. -/
theorem pairwise_of_begins {text : String} {nodes : List LocatedTree} {lexemes : List Lexeme}
    (begin : List.Forall₂ (Begins text) nodes lexemes)
    (ordered : lexemes.Pairwise fun first second =>
      first.start.offset < second.start.offset ∧
        first.start.offset + first.token.bytes.length ≤ second.start.offset) :
    nodes.Pairwise fun first second =>
      first.offset < second.offset ∧
        first.offset + first.firstToken.bytes.length ≤ second.offset := by
  have same : nodes.map (fun node => (node.firstToken, node.offset)) =
      lexemes.map fun lexeme => (lexeme.token, lexeme.start.offset) := by
    induction begin with
    | nil => rfl
    | cons begins _ ih =>
        rw [List.map_cons, List.map_cons, ih (List.pairwise_cons.mp ordered).2, begins.token,
          begins.offset]
  have pairs : (lexemes.map fun lexeme => (lexeme.token, lexeme.start.offset)).Pairwise
      fun first second => first.2 < second.2 ∧ first.2 + first.1.bytes.length ≤ second.2 :=
    List.pairwise_map.mpr ordered
  rw [← same] at pairs
  exact List.pairwise_map.mp pairs

end LocatedTree

namespace Tree

open Lexeme

/-- Offsets are exact.  A text that is read as a tree is read with an offset for every
list and every atom.  Each node stands at its offset: from there on, the bytes of the
text start with the opening parenthesis of the list or with the atom.  In the order
of the text the offsets increase, and no node starts before the end of an atom in
front of it. -/
theorem parse_offsets_exact (text : String) (tree : Tree) (parsed : parse text = .ok tree) :
    ∃ source : LocatedTree, LocatedTree.parse text = .ok source ∧
      source.nodes.map LocatedTree.tree = tree.subtrees ∧
      (∀ node ∈ source.nodes, node.tree.StandsAt text node.offset ∧
        node.tree.firstToken.bytes <+: (Text.encodeUtf8 text).drop node.offset) ∧
      source.nodes.Pairwise fun first second =>
        first.offset < second.offset ∧
          first.offset + first.tree.firstToken.bytes.length ≤ second.offset := by
  have layout := (parse_eq_ok_iff_isLayout text tree).mp parsed
  obtain ⟨-, -, written, gap, isText, laid⟩ := scanFrom_layout layout .start
  obtain ⟨source, located, rfl⟩ := ofScan_eq_ok_iff_located.mp parsed
  have isWhole : text.toList = [] ++ (written ++ gap) := isText
  have begin := source.beginNodes_nodes text isWhole laid (marks_of_ofScan located).2.symm
  have stands : ∀ node ∈ source.nodes, node.tree.StandsAt text node.offset :=
    ((List.forall₂_and_left _ _).mp (begin.imp fun _ _ begins => ⟨begins.stands, begins.token⟩)).1
  refine ⟨source, located, source.trees_nodes, fun node member => ?_, ?_⟩
  · exact ⟨stands node member, prefix_of_standsAt (stands node member)⟩
  · exact LocatedTree.pairwise_of_begins begin (laid.pairwise.filter _)

/-- Characters of two and three bytes in an atom, a string literal and a comment. -/
theorem parse_offsets_accented :
    ∃ source : LocatedTree, LocatedTree.parse "(é \"ü)\" (;→;)(b))" = .ok source ∧
      source.nodes.map LocatedTree.offset = [0, 1, 4, 17, 18] ∧
      ∀ node ∈ source.nodes, node.tree.StandsAt "(é \"ü)\" (;→;)(b))" node.offset := by
  have parsed : parse "(é \"ü)\" (;→;)(b))" =
      .ok (.list [.atom "é", .atom "\"ü)\"", .list [.atom "b"]]) := by
    cbv
  obtain ⟨source, located, -, stands, -⟩ := parse_offsets_exact _ _ parsed
  have isSource : LocatedTree.parse "(é \"ü)\" (;→;)(b))" =
      .ok (.list 0 [.atom 1 "é", .atom 4 "\"ü)\"", .list 17 [.atom 18 "b"]]) := by
    rfl
  have offsets : source.nodes.map LocatedTree.offset = [0, 1, 4, 17, 18] := by
    cases located.symm.trans isSource
    rfl
  exact ⟨source, located, offsets, fun node member => (stands node member).1⟩

end Tree

end WatLink
