import Mathlib
import WatLink.Tree.Reader

/-!
# Trees as token sequences

Without its layout, a text is the sequence of its tokens.  Every tree has one
such sequence, and the reader assembles a tree from lexemes exactly when they
carry the tokens of that tree.

The reader keeps a stack of open lists.  Its progress is measured by what it keeps
of the lexemes it has taken in, their tokens and offsets: pushing a lexeme appends
one mark, and a finished tree has taken in its own sequence.
-/

namespace WatLink

namespace Tree

/-- Induction over trees, with the hypothesis for every item of a list. -/
@[elab_as_elim, induction_eliminator]
theorem induct {motive : Tree → Prop} (atom : ∀ text, motive (.atom text))
    (list : ∀ items, (∀ item ∈ items, motive item) → motive (.list items)) :
    ∀ tree, motive tree
  | .atom text => atom text
  | .list items => list items fun item _ => induct atom list item

mutual

/-- The tokens of a tree. -/
def tokens : Tree → List Token
  | .atom text => [.atom text]
  | .list items => .opening :: (tokensOfItems items ++ [.closing])

/-- The tokens of the items of a list. -/
def tokensOfItems : List Tree → List Token
  | [] => []
  | item :: rest => item.tokens ++ tokensOfItems rest

end

theorem tokensOfItems_append (first second : List Tree) :
    tokensOfItems (first ++ second) = tokensOfItems first ++ tokensOfItems second := by
  induction first with
  | nil => rfl
  | cons item rest ih =>
      simp only [List.cons_append, tokensOfItems, ih, List.append_assoc]

end Tree

/-- What a tree keeps of a lexeme: its token, and its offset unless it closes a list. -/
abbrev Mark := Token × Option Nat

/-- The mark of a lexeme. -/
def Lexeme.mark (lexeme : Lexeme) : Mark :=
  (lexeme.token, if lexeme.token = .closing then none else some lexeme.start.offset)

namespace LocatedTree

/-- Induction over located trees, with the hypothesis for every item of a list. -/
@[elab_as_elim, induction_eliminator]
theorem induct {motive : LocatedTree → Prop} (atom : ∀ offset text, motive (.atom offset text))
    (list : ∀ offset items, (∀ item ∈ items, motive item) → motive (.list offset items)) :
    ∀ node, motive node
  | .atom offset text => atom offset text
  | .list offset items => list offset items fun item _ => induct atom list item

theorem trees_eq_map (items : List LocatedTree) : trees items = items.map tree := by
  induction items with
  | nil => rfl
  | cons item rest ih => rw [trees, ih, List.map_cons]

mutual

/-- The marks of a node. -/
def marks : LocatedTree → List Mark
  | .atom offset text => [(.atom text, some offset)]
  | .list offset items => (.opening, some offset) :: (marksOfItems items ++ [(.closing, none)])

/-- The marks of the items of a list. -/
def marksOfItems : List LocatedTree → List Mark
  | [] => []
  | item :: rest => item.marks ++ marksOfItems rest

end

theorem marksOfItems_append (first second : List LocatedTree) :
    marksOfItems (first ++ second) = marksOfItems first ++ marksOfItems second := by
  induction first with
  | nil => rfl
  | cons item rest ih => simp only [List.cons_append, marksOfItems, ih, List.append_assoc]

theorem tokens_marksOfItems {items : List LocatedTree}
    (same : ∀ item ∈ items, item.marks.map Prod.fst = item.tree.tokens) :
    (marksOfItems items).map Prod.fst = Tree.tokensOfItems (trees items) := by
  induction items with
  | nil => rfl
  | cons item rest ih =>
      rw [List.forall_mem_cons] at same
      rw [marksOfItems, List.map_append, same.1, ih same.2]
      rfl

/-- Without the offsets, the marks of a node are the tokens of its tree. -/
theorem tokens_marks (node : LocatedTree) : node.marks.map Prod.fst = node.tree.tokens := by
  induction node with
  | atom offset text => rfl
  | list offset items ih =>
      rw [marks, tree, Tree.tokens, List.map_cons, List.map_append, tokens_marksOfItems ih]
      rfl

end LocatedTree

namespace Tree

open LocatedTree (trees marksOfItems marksOfItems_append)

/-- The marks that an open list has taken in. -/
def OpenList.marks (openList : OpenList) : List Mark :=
  (.opening, some openList.opening.offset) :: marksOfItems openList.reversedItems.reverse

/-- The marks that a stack of open lists has taken in. -/
def marksOfStack (stack : List OpenList) : List Mark :=
  stack.reverse.flatMap OpenList.marks

theorem marksOfStack_cons (innermost : OpenList) (outer : List OpenList) :
    marksOfStack (innermost :: outer) = marksOfStack outer ++ innermost.marks := by
  simp [marksOfStack, List.flatMap_append]

namespace Assembly

/-- The marks that an assembly has taken in. -/
def marks : Assembly → List Mark
  | .complete root => root.marks
  | assembly => marksOfStack assembly.openLists

theorem marks_inside (innermost : OpenList) (outer : List OpenList) :
    (Assembly.inside innermost outer).marks = marksOfStack outer ++ innermost.marks :=
  marksOfStack_cons innermost outer

theorem marks_add (node : LocatedTree) (stack : List OpenList) :
    (add node stack).marks = marksOfStack stack ++ node.marks := by
  cases stack with
  | nil => rfl
  | cons innermost outer =>
      rw [add, marks_inside, marksOfStack_cons]
      simp [OpenList.marks, marksOfItems_append, marksOfItems]

theorem marks_push {assembly assembly' : Assembly} {lexeme : Lexeme}
    (pushed : assembly.push lexeme = .ok assembly') :
    assembly'.marks = assembly.marks ++ [lexeme.mark] := by
  rcases lexeme with ⟨token, start⟩
  cases assembly with
  | complete root => cases token <;> simp [push] at pushed
  | empty =>
      cases token with
      | opening => cases pushed; rfl
      | closing => simp [push] at pushed
      | atom text => cases pushed; rfl
  | inside innermost outer =>
      cases token with
      | opening =>
          cases pushed
          rw [marks_inside]
          rfl
      | closing =>
          cases pushed
          rw [marks_add, marks_inside, LocatedTree.marks]
          simp [OpenList.marks, Lexeme.mark]
      | atom text =>
          cases pushed
          exact marks_add (.atom start.offset text) (innermost :: outer)

theorem marks_finish {assembly : Assembly} {ending : Lexeme.Ending} {place : Place}
    {node : LocatedTree} (finished : assembly.finish ending place = .ok node) :
    ending = .complete ∧ node.marks = assembly.marks := by
  cases ending <;> cases assembly <;> simp [finish] at finished
  exact ⟨rfl, finished ▸ rfl⟩

theorem marks_run {ending : Lexeme.Ending} {place : Place} {assembly : Assembly}
    {lexemes : List Lexeme} {node : LocatedTree}
    (assembled : run ending place assembly lexemes = .ok node) :
    ending = .complete ∧ node.marks = assembly.marks ++ lexemes.map Lexeme.mark := by
  induction lexemes generalizing assembly with
  | nil =>
      obtain ⟨complete, same⟩ := marks_finish assembled
      exact ⟨complete, by simpa using same⟩
  | cons lexeme rest ih =>
      rw [run] at assembled
      cases pushed : assembly.push lexeme with
      | error fault => simp [pushed] at assembled
      | ok assembly' =>
          rw [pushed] at assembled
          obtain ⟨complete, same⟩ := ih assembled
          refine ⟨complete, ?_⟩
          rw [same, marks_push pushed]
          simp

/-- An assembly that can still take in lexemes. -/
def IsOpen : Assembly → Prop
  | .complete _ => False
  | _ => True

theorem run_opening {assembly : Assembly} (isOpen : assembly.IsOpen)
    (ending : Lexeme.Ending) (place start : Place) (rest : List Lexeme) :
    run ending place assembly (⟨.opening, start⟩ :: rest) =
      run ending place (.inside ⟨start, []⟩ assembly.openLists) rest := by
  cases assembly with
  | empty => rfl
  | inside innermost outer => rfl
  | complete root => exact isOpen.elim

theorem run_atom {assembly : Assembly} (isOpen : assembly.IsOpen)
    (ending : Lexeme.Ending) (place start : Place) (text : String) (rest : List Lexeme) :
    run ending place assembly (⟨.atom text, start⟩ :: rest) =
      run ending place (add (.atom start.offset text) assembly.openLists) rest := by
  cases assembly with
  | empty => rfl
  | inside innermost outer => rfl
  | complete root => exact isOpen.elim

theorem run_closing (ending : Lexeme.Ending) (place start opening : Place)
    (reversedItems : List LocatedTree) (outer : List OpenList) (rest : List Lexeme) :
    run ending place (.inside ⟨opening, reversedItems⟩ outer) (⟨.closing, start⟩ :: rest) =
      run ending place (add (.list opening.offset reversedItems.reverse) outer) rest :=
  rfl

/-- What it means that the reader takes in some lexemes as a node. -/
def ReadsAs (lexemes : List Lexeme) (node : LocatedTree) : Prop :=
  ∀ (ending : Lexeme.Ending) (place : Place) (assembly : Assembly) (rest : List Lexeme),
    assembly.IsOpen → run ending place assembly (lexemes ++ rest) =
      run ending place (add node assembly.openLists) rest

/-- What it means that the reader takes in the lexemes of a tree. -/
def Reads (tree : Tree) : Prop :=
  ∀ lexemes : List Lexeme, lexemes.map Lexeme.token = tree.tokens →
    ∃ node : LocatedTree, node.tree = tree ∧ ReadsAs lexemes node

theorem run_items {items : List Tree} (reads : ∀ item ∈ items, Reads item)
    (lexemes : List Lexeme) (same : lexemes.map Lexeme.token = tokensOfItems items) :
    ∃ nodes : List LocatedTree, trees nodes = items ∧
      ∀ (ending : Lexeme.Ending) (place opening : Place) (reversedItems : List LocatedTree)
        (outer : List OpenList) (rest : List Lexeme),
        run ending place (.inside ⟨opening, reversedItems⟩ outer) (lexemes ++ rest) =
          run ending place (.inside ⟨opening, nodes.reverse ++ reversedItems⟩ outer) rest := by
  induction items generalizing lexemes with
  | nil =>
      obtain rfl : lexemes = [] := List.map_eq_nil_iff.mp same
      exact ⟨[], rfl, fun _ _ _ _ _ _ => rfl⟩
  | cons item items ih =>
      rw [tokensOfItems] at same
      obtain ⟨itemLexemes, itemsLexemes, rfl, sameItem, sameItems⟩ :=
        List.map_eq_append_iff.mp same
      rw [List.forall_mem_cons] at reads
      obtain ⟨node, rfl, readsItem⟩ := reads.1 itemLexemes sameItem
      obtain ⟨nodes, rfl, runsItems⟩ := ih reads.2 itemsLexemes sameItems
      refine ⟨node :: nodes, rfl, fun ending place opening reversedItems outer rest => ?_⟩
      rw [List.append_assoc, readsItem ending place (.inside ⟨opening, reversedItems⟩ outer) _ trivial,
        openLists, add, runsItems]
      simp

/-- The reader takes in the lexemes of every tree and adds the tree to the
innermost open list. -/
theorem reads (tree : Tree) : Reads tree := by
  induction tree with
  | atom text =>
      intro lexemes same
      obtain ⟨⟨token, start⟩, rfl, rfl⟩ := List.map_eq_singleton_iff.mp same
      exact ⟨.atom start.offset text, rfl, fun ending place assembly rest isOpen =>
        run_atom isOpen ending place start text rest⟩
  | list items ih =>
      intro lexemes same
      rw [Tree.tokens] at same
      obtain ⟨⟨token, start⟩, inner, rfl, rfl, sameInner⟩ := List.map_eq_cons_iff.mp same
      obtain ⟨itemsLexemes, last, rfl, sameItems, sameLast⟩ :=
        List.map_eq_append_iff.mp sameInner
      obtain ⟨⟨token, finish⟩, rfl, rfl⟩ := List.map_eq_singleton_iff.mp sameLast
      obtain ⟨nodes, rfl, runsItems⟩ := run_items ih itemsLexemes sameItems
      refine ⟨.list start.offset nodes, by rw [LocatedTree.tree], ?_⟩
      intro ending place assembly rest isOpen
      rw [List.cons_append, run_opening isOpen, List.append_assoc, runsItems,
        List.singleton_append, run_closing]
      simp

end Assembly

/-- A tree that is read keeps the marks of the lexemes. -/
theorem marks_of_ofScan {scan : Lexeme.Scan} {node : LocatedTree}
    (assembled : LocatedTree.ofScan scan = .ok node) :
    scan.ending = .complete ∧ node.marks = scan.lexemes.map Lexeme.mark :=
  Assembly.marks_run assembled

theorem ofScan_eq_ok_iff_located {scan : Lexeme.Scan} {tree : Tree} :
    ofScan scan = .ok tree ↔
      ∃ node : LocatedTree, LocatedTree.ofScan scan = .ok node ∧ node.tree = tree := by
  rw [ofScan]
  cases LocatedTree.ofScan scan with
  | error error => simp [Except.map]
  | ok node => simp [Except.map]

theorem ofScan_eq_error_iff_located {scan : Lexeme.Scan} {error : SyntaxError} :
    ofScan scan = .error error ↔ LocatedTree.ofScan scan = .error error := by
  rw [ofScan]
  cases LocatedTree.ofScan scan with
  | error error => simp [Except.map]
  | ok node => simp [Except.map]

/-- Lexemes are read as a tree exactly when the text does not break off and
they carry the tokens of the tree. -/
theorem ofScan_eq_ok_iff (scan : Lexeme.Scan) (tree : Tree) :
    ofScan scan = .ok tree ↔
      scan.ending = .complete ∧ scan.lexemes.map Lexeme.token = tree.tokens := by
  rw [ofScan_eq_ok_iff_located]
  constructor
  · rintro ⟨node, assembled, rfl⟩
    obtain ⟨complete, same⟩ := marks_of_ofScan assembled
    rw [← node.tokens_marks, same, List.map_map]
    exact ⟨complete, rfl⟩
  · rintro ⟨complete, same⟩
    obtain ⟨node, isTree, readsAs⟩ := Assembly.reads tree scan.lexemes same
    have assembled := readsAs scan.ending scan.finish .empty [] trivial
    rw [List.append_nil] at assembled
    refine ⟨node, ?_, isTree⟩
    rw [LocatedTree.ofScan, assembled, complete]
    rfl

end Tree

end WatLink
