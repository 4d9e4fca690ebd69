import WatLink.Proofs.PrinterLayout
import WatLink.Tree.Walk

/-!
# Traversals with a stack

Printing and walking keep what remains to be done on a stack.  Their steps push the
parts of a list in front of what is pending, so the invariant is about the whole
stack: the rest of the traversal is what recursion gives for its entries, one after
the other.

Equal subtrees may stand at several places of a tree.  A place is given by its
address, the positions on the way down from the root, and pre-order is the
lexicographic order of addresses.
-/

namespace WatLink

namespace Tree

/-! ## Functions by recursion -/

/-- Whether a function on trees is given by recursion: `leaf` gives its value at an atom,
and `branch` its value at a list, from the items and their values. -/
structure IsRecursion {β : Type} (leaf : String → β) (branch : List Tree → List β → β)
    (function : Tree → β) : Prop where
  atom : ∀ text, function (.atom text) = leaf text
  list : ∀ items, function (.list items) = branch items (items.map function)

theorem IsRecursion.iff_eq {β : Type} {leaf : String → β} {branch : List Tree → List β → β}
    {function other : Tree → β} (recursive : IsRecursion leaf branch function) :
    IsRecursion leaf branch other ↔ other = function := by
  constructor
  · intro recursive'
    ext1 tree
    induction tree with
    | atom text => rw [recursive.atom, recursive'.atom]
    | list items ih => rw [recursive.list, recursive'.list, List.map_congr_left ih]
  · rintro rfl
    exact recursive

/-! ## Printing -/

theorem textOfItems_eq_intercalate (items : List Tree) :
    textOfItems items = String.intercalate " " (items.map text) := by
  cases items with
  | nil => rfl
  | cons item rest =>
      rw [textOfItems]
      induction rest generalizing item with
      | nil => simp [textOfRest]
      | cons next rest ih =>
          have joined : String.intercalate " " ((item :: next :: rest).map text) =
              item.text ++ " " ++ String.intercalate " " ((next :: rest).map text) :=
            String.intercalate_cons_cons
          rw [textOfRest, String.append_assoc, ih next, joined, String.append_assoc]

/-- Printing writes atoms verbatim, and lists as the printed items between parentheses,
joined by single spaces. -/
theorem isRecursion_print :
    IsRecursion (fun text => text)
      (fun _ texts => "(" ++ String.intercalate " " texts ++ ")") print where
  atom text := by rw [print_eq_text, Tree.text]
  list items := by
    have printed : print = text := funext print_eq_text
    rw [printed, text, textOfItems_eq_intercalate]

/-! ## Walking -/

theorem listsOfItems_eq_flatMap (items : List Tree) : listsOfItems items = items.flatMap lists := by
  induction items with
  | nil => rfl
  | cons item rest ih => rw [listsOfItems, ih, List.flatMap_cons]

theorem listsOfItems_append (first second : List Tree) :
    listsOfItems (first ++ second) = listsOfItems first ++ listsOfItems second := by
  simp only [listsOfItems_eq_flatMap, List.flatMap_append]

/-- Atoms have no lists, so a walk may leave them out. -/
theorem listsOfItems_filter (items : List Tree) :
    listsOfItems (items.filter isList) = listsOfItems items := by
  induction items with
  | nil => rfl
  | cons item rest ih =>
      cases item with
      | atom text => simpa [isList, listsOfItems, lists] using ih
      | list inner => rw [List.filter_cons_of_pos rfl, listsOfItems, listsOfItems, ih]

/-- A walk has the lists of the trees on its stack before it. -/
theorem walkStack_eq (visited stack : List Tree) :
    walkStack visited stack = visited.reverse ++ listsOfItems stack := by
  fun_induction walkStack visited stack with
  | case1 visited => simp [listsOfItems]
  | case2 visited text stack ih => simpa [listsOfItems, lists] using ih
  | case3 visited items stack ih =>
      rw [ih, listsOfItems_append, forms, listsOfItems_filter]
      simp [listsOfItems, lists, Tree.items]

theorem walk_eq_lists (tree : Tree) : tree.walk = tree.lists := by
  simp [walk, walkStack_eq, listsOfItems]

/-- A walk visits a list first and then, item by item, the lists inside it. -/
theorem isRecursion_walk :
    IsRecursion (fun _ => []) (fun items visits => .list items :: visits.flatten) walk where
  atom text := by rw [walk_eq_lists, lists]
  list items := by
    have visited : walk = lists := funext walk_eq_lists
    rw [visited, lists, listsOfItems_eq_flatMap, List.flatMap_def]

/-- The atoms among the items of a list are collected first and then, item by item, those
inside the items. -/
theorem isRecursion_walkAtoms :
    IsRecursion (fun _ => []) (fun items texts => items.filterMap text? ++ texts.flatten)
      walkAtoms where
  atom text := by rw [walkAtoms, isRecursion_walk.atom, List.flatMap_nil]
  list items := by
    rw [walkAtoms, isRecursion_walk.list, List.flatMap_cons, ← List.flatMap_def,
      List.flatMap_assoc, ← List.flatMap_def]
    rfl

/-! ## Addresses -/

/-- The node at an address: the positions of the items that lead to it from the root
of the tree. -/
def nodeAt? (tree : Tree) : List Nat → Option Tree
  | [] => some tree
  | position :: address => tree.items[position]?.bind (nodeAt? · address)

theorem nodeAt?_concat (tree : Tree) (address : List Nat) (position : Nat) :
    tree.nodeAt? (address ++ [position]) =
      (tree.nodeAt? address).bind (·.items[position]?) := by
  induction address generalizing tree with
  | nil => simp [nodeAt?]
  | cons first address ih =>
      simp only [List.cons_append, nodeAt?, ih, Option.bind_assoc]

mutual

/-- The addresses of the lists of a tree in pre-order. -/
def listAddresses : Tree → List (List Nat)
  | .atom _ => []
  | .list items => [] :: listAddressesFrom 0 items

/-- The addresses of the lists among and inside some items, of which the first has the
given position. -/
def listAddressesFrom (position : Nat) : List Tree → List (List Nat)
  | [] => []
  | item :: rest =>
      item.listAddresses.map (position :: ·) ++ listAddressesFrom (position + 1) rest

end

theorem mem_listAddressesFrom {position : Nat} {items : List Tree} {address : List Nat} :
    address ∈ listAddressesFrom position items ↔
      ∃ index item inner, items[index]? = some item ∧ inner ∈ item.listAddresses ∧
        address = (position + index) :: inner := by
  induction items generalizing position with
  | nil => simp [listAddressesFrom]
  | cons first rest ih =>
      rw [listAddressesFrom, List.mem_append, List.mem_map, ih]
      constructor
      · rintro (⟨inner, member, rfl⟩ | ⟨index, item, inner, isItem, member, rfl⟩)
        · exact ⟨0, first, inner, rfl, member, rfl⟩
        · refine ⟨index + 1, item, inner, isItem, member, ?_⟩
          rw [Nat.add_right_comm, Nat.add_assoc]
      · rintro ⟨index, item, inner, isItem, member, rfl⟩
        cases index with
        | zero =>
            cases isItem
            exact .inl ⟨inner, member, rfl⟩
        | succ index =>
            refine .inr ⟨index, item, inner, isItem, member, ?_⟩
            rw [Nat.add_right_comm, Nat.add_assoc]

theorem mem_listAddresses {tree : Tree} {address : List Nat} :
    address ∈ tree.listAddresses ↔ ∃ node ∈ tree.nodeAt? address, node.isList = true := by
  induction tree generalizing address with
  | atom text =>
      cases address with
      | nil => simp [listAddresses, nodeAt?, isList]
      | cons position address => simp [listAddresses, nodeAt?, items]
  | list items ih =>
      cases address with
      | nil => simp [listAddresses, nodeAt?, isList]
      | cons position address =>
          have below : position :: address ∈ (list items).listAddresses ↔
              ∃ item, items[position]? = some item ∧ address ∈ item.listAddresses := by
            simp [listAddresses, mem_listAddressesFrom]
          rw [below, nodeAt?, Tree.items]
          cases isItem : items[position]? with
          | none => simp
          | some item => simp [ih item (List.mem_of_getElem? isItem)]

/-- The lists of some items stand at the addresses that start with the items'
positions. -/
theorem map_nodeAt?_listAddressesFrom (front : List Tree) {items : List Tree}
    (inside : ∀ item ∈ items, item.listAddresses.map item.nodeAt? = item.lists.map some) :
    (listAddressesFrom front.length items).map (list (front ++ items)).nodeAt? =
      (listsOfItems items).map some := by
  induction items generalizing front with
  | nil => rfl
  | cons item rest ih =>
      obtain ⟨insideItem, insideRest⟩ := List.forall_mem_cons.mp inside
      have first : ∀ address,
          (list (front ++ item :: rest)).nodeAt? (front.length :: address) =
            item.nodeAt? address := by
        intro address
        simp [nodeAt?, Tree.items]
      -- for the others the item counts as part of the front
      have others := ih (front ++ [item]) insideRest
      rw [List.length_append, List.length_singleton, List.append_assoc,
        List.singleton_append] at others
      rw [listAddressesFrom, listsOfItems, List.map_append, List.map_append, List.map_map, others,
        ← insideItem]
      congr 1
      exact List.map_congr_left fun address _ => first address

theorem map_nodeAt?_listAddresses (tree : Tree) :
    tree.listAddresses.map tree.nodeAt? = tree.lists.map some := by
  induction tree with
  | atom text => rfl
  | list items ih =>
      rw [listAddresses, lists, List.map_cons, List.map_cons, nodeAt?]
      exact congrArg _ (map_nodeAt?_listAddressesFrom [] ih)

theorem pairwise_listAddressesFrom (position : Nat) {items : List Tree}
    (inside : ∀ item ∈ items, item.listAddresses.Pairwise (· < ·)) :
    (listAddressesFrom position items).Pairwise (· < ·) := by
  induction items generalizing position with
  | nil => exact .nil
  | cons item rest ih =>
      obtain ⟨insideItem, insideRest⟩ := List.forall_mem_cons.mp inside
      refine List.pairwise_append.mpr ⟨?_, ih (position + 1) insideRest, ?_⟩
      · refine List.pairwise_map.mpr (insideItem.imp fun before => ?_)
        exact List.cons_lt_cons_iff.mpr (.inr ⟨rfl, before⟩)
      · intro first inItem second inRest
        obtain ⟨inner, -, rfl⟩ := List.mem_map.mp inItem
        obtain ⟨index, other, inner', -, -, rfl⟩ := mem_listAddressesFrom.mp inRest
        exact List.cons_lt_cons_iff.mpr (.inl (by omega))

theorem pairwise_listAddresses (tree : Tree) : tree.listAddresses.Pairwise (· < ·) := by
  induction tree with
  | atom text => exact .nil
  | list items ih =>
      refine .cons (fun address member => ?_) (pairwise_listAddressesFrom 0 ih)
      obtain ⟨index, item, inner, -, -, rfl⟩ := mem_listAddressesFrom.mp member
      exact List.nil_lt_cons _ _

/-! ## Addresses of atoms -/

/-- The positions of the atoms among some items. -/
def atomPositions (items : List Tree) : List Nat :=
  (List.range items.length).filter fun position => items[position]?.any (!·.isList)

/-- The items of the list at an address. -/
def itemsAt (tree : Tree) (address : List Nat) : List Tree :=
  (tree.nodeAt? address).elim [] items

/-- The addresses of the atoms of a tree, list by list in pre-order. -/
def atomAddresses (tree : Tree) : List (List Nat) :=
  tree.listAddresses.flatMap fun address =>
    (atomPositions (tree.itemsAt address)).map fun position => address ++ [position]

/-- Whether an address comes before another one list by list: its list comes first in
pre-order, or it has an earlier position in the same list. -/
def ListByList (first second : List Nat) : Prop :=
  first.dropLast < second.dropLast ∨ first.dropLast = second.dropLast ∧ first < second

theorem mem_atomPositions {items : List Tree} {position : Nat} :
    position ∈ atomPositions items ↔
      ∃ item, items[position]? = some item ∧ item.isList = false := by
  rw [atomPositions, List.mem_filter, List.mem_range]
  cases isItem : items[position]? with
  | none => simp
  | some item => simp [(List.getElem?_eq_some_iff.mp isItem).1]

theorem filter_atoms (items : List Tree) :
    items.filter (!·.isList) = (items.filterMap text?).map atom := by
  induction items with
  | nil => rfl
  | cons item rest ih =>
      cases item with
      | atom text =>
          have isText : text? (atom text) = some text := rfl
          rw [List.filter_cons_of_pos rfl, List.filterMap_cons_some isText, List.map_cons, ih]
      | list inner =>
          rw [List.filter_cons_of_neg Bool.false_ne_true, List.filterMap_cons_none rfl, ih]

theorem map_getElem?_atomPositions (items : List Tree) :
    (atomPositions items).map (items[·]?) = ((items.filterMap text?).map atom).map some := by
  have itself : (List.range items.length).map (items[·]?) = items.map some := by
    apply List.ext_getElem <;> simp
  calc
    (atomPositions items).map (items[·]?) =
        ((List.range items.length).map (items[·]?)).filter (·.any (!·.isList)) := by
      rw [List.filter_map]
      rfl
    _ = (items.filter (!·.isList)).map some := by
      rw [itself, List.filter_map]
      rfl
    _ = ((items.filterMap text?).map atom).map some := by rw [filter_atoms]

theorem nodeAt?_item {tree : Tree} {address : List Nat} (position : Nat) :
    tree.nodeAt? (address ++ [position]) = (tree.itemsAt address)[position]? := by
  rw [nodeAt?_concat, itemsAt]
  cases tree.nodeAt? address <;> simp

theorem mem_listAddresses_of_item {tree node : Tree} {address : List Nat} {position : Nat}
    (isItem : (tree.itemsAt address)[position]? = some node) : address ∈ tree.listAddresses := by
  rw [itemsAt] at isItem
  cases isNode : tree.nodeAt? address with
  | none => simp [isNode] at isItem
  | some outer =>
      cases outer with
      | atom text => simp [isNode, items] at isItem
      | list inner => exact mem_listAddresses.mpr ⟨_, isNode, rfl⟩

theorem mem_atomAddresses {items : List Tree} {address : List Nat} :
    address ∈ (list items).atomAddresses ↔
      ∃ node ∈ (list items).nodeAt? address, node.isList = false := by
  rw [atomAddresses, List.mem_flatMap]
  constructor
  · rintro ⟨outer, -, member⟩
    obtain ⟨position, isPosition, rfl⟩ := List.mem_map.mp member
    rw [nodeAt?_item]
    exact mem_atomPositions.mp isPosition
  · rintro ⟨node, isNode, isAtom⟩
    rcases List.eq_nil_or_concat' address with rfl | ⟨outer, position, rfl⟩
    · cases isNode
      cases isAtom
    -- only lists have items, so the atom's address continues the address of a list
    · rw [nodeAt?_item] at isNode
      exact ⟨outer, mem_listAddresses_of_item isNode,
        List.mem_map_of_mem (mem_atomPositions.mpr ⟨node, isNode, isAtom⟩)⟩

theorem walkAtoms_eq_flatMap (tree : Tree) :
    tree.walkAtoms =
      tree.listAddresses.flatMap fun address => (tree.itemsAt address).filterMap text? := by
  calc
    tree.walkAtoms = (tree.lists.map some).flatMap
        fun node? => (node?.elim [] items).filterMap text? := by
      rw [walkAtoms, walk_eq_lists, List.flatMap_map]
      rfl
    _ = (tree.listAddresses.map tree.nodeAt?).flatMap
        fun node? => (node?.elim [] items).filterMap text? := by
      rw [map_nodeAt?_listAddresses]
    _ = _ := List.flatMap_map _ _ _

theorem map_nodeAt?_atomAddresses (tree : Tree) :
    tree.atomAddresses.map tree.nodeAt? = (tree.walkAtoms.map atom).map some := by
  rw [atomAddresses, walkAtoms_eq_flatMap, List.map_flatMap, List.map_flatMap, List.map_flatMap]
  refine List.flatMap_congr fun address _ => ?_
  rw [← map_getElem?_atomPositions, List.map_map]
  exact List.map_congr_left fun position _ => nodeAt?_item position

theorem pairwise_atomPositions (items : List Tree) : (atomPositions items).Pairwise (· < ·) :=
  List.pairwise_lt_range.filter _

theorem pairwise_atomAddresses (tree : Tree) : tree.atomAddresses.Pairwise ListByList := by
  refine List.pairwise_flatMap.mpr ⟨fun address _ => ?_, ?_⟩
  · refine List.pairwise_map.mpr ((pairwise_atomPositions _).imp fun before => .inr ⟨?_, ?_⟩)
    · rw [List.dropLast_concat, List.dropLast_concat]
    · exact List.append_left_lt (List.cons_lt_cons_iff.mpr (.inl before))
  · refine (pairwise_listAddresses tree).imp fun before first inFirst second inSecond => ?_
    obtain ⟨position, -, rfl⟩ := List.mem_map.mp inFirst
    obtain ⟨position', -, rfl⟩ := List.mem_map.mp inSecond
    exact .inl (by simpa using before)

theorem ListByList.ne {first second : List Nat} (before : ListByList first second) :
    first ≠ second := by
  rintro rfl
  rcases before with earlier | ⟨-, earlier⟩
  · exact List.lt_irrefl _ earlier
  · exact List.lt_irrefl _ earlier

/-! ## Enumerations -/

/-- Whether nodes are those of a kind in a tree, each once and in an order, given by their
addresses. -/
structure Enumerates (tree : Tree) (kind : Tree → Prop) (order : List Nat → List Nat → Prop)
    (addresses : List (List Nat)) (nodes : List Tree) : Prop where
  once : addresses.Nodup
  inOrder : addresses.Pairwise order
  complete : ∀ address, address ∈ addresses ↔ ∃ node ∈ tree.nodeAt? address, kind node
  atAddresses : addresses.map tree.nodeAt? = nodes.map some

theorem enumerates_walk (tree : Tree) :
    tree.Enumerates (·.isList = true) (· < ·) tree.listAddresses tree.walk where
  once := (pairwise_listAddresses tree).imp ne_of_lt
  inOrder := pairwise_listAddresses tree
  complete _ := mem_listAddresses
  atAddresses := by rw [map_nodeAt?_listAddresses, walk_eq_lists]

theorem enumerates_walkAtoms (items : List Tree) :
    (list items).Enumerates (·.isList = false) ListByList (list items).atomAddresses
      ((list items).walkAtoms.map atom) where
  once := (pairwise_atomAddresses _).imp ListByList.ne
  inOrder := pairwise_atomAddresses _
  complete _ := mem_atomAddresses
  atAddresses := map_nodeAt?_atomAddresses _

/-- Printing, walking and collecting atoms with a stack are the functions given by
recursion: the canonical text, the lists in pre-order, and the atoms list by list.  A
walk over a list meets all its lists, each once and in pre-order; the atoms among the
items of these lists, in the same order, are all its atoms, each once. -/
theorem traversals_are_recursions (printer : Tree → String) (visit : Tree → List Tree)
    (collect : Tree → List String) (items : List Tree) :
    (IsRecursion (fun text => text)
      (fun _ texts => "(" ++ String.intercalate " " texts ++ ")") printer ↔ printer = print) ∧
    (IsRecursion (fun _ => []) (fun inner visits => .list inner :: visits.flatten) visit ↔
      visit = walk) ∧
    (IsRecursion (fun _ => []) (fun inner texts => inner.filterMap text? ++ texts.flatten)
      collect ↔ collect = walkAtoms) ∧
    (list items).walkAtoms =
      (list items).walk.flatMap (fun list => list.items.filterMap text?) ∧
    (∃ addresses,
      (list items).Enumerates (·.isList = true) (· < ·) addresses (list items).walk) ∧
    ∃ addresses, (list items).Enumerates (·.isList = false) ListByList addresses
      ((list items).walkAtoms.map atom) :=
  ⟨isRecursion_print.iff_eq, isRecursion_walk.iff_eq, isRecursion_walkAtoms.iff_eq, rfl,
    ⟨_, enumerates_walk _⟩, _, enumerates_walkAtoms items⟩

example : (form "a" [.atom "x", form "b" [.atom "y"], .atom "z"]).walkAtoms =
    ["a", "x", "z", "b", "y"] := by
  decide +kernel

end Tree

end WatLink
