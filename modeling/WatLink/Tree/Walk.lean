import WatLink.Tree.Basic

/-!
# Walking trees

The lists of a tree are visited in pre-order: a list before the lists nested
in it, and these from left to right.  `Tree.lists` is the recursive
definition; `Tree.walk` visits the same lists with an explicit stack.
-/

namespace WatLink

namespace Tree

mutual

/-- The lists of a tree in pre-order. -/
def lists : Tree → List Tree
  | .atom _ => []
  | .list items => .list items :: listsOfItems items

/-- The lists among and inside some items in pre-order. -/
def listsOfItems : List Tree → List Tree
  | [] => []
  | item :: rest => item.lists ++ listsOfItems rest

end

mutual

/-- The number of nodes of a tree. -/
def nodeCount : Tree → Nat
  | .atom _ => 1
  | .list items => 1 + nodeCounts items

/-- The number of nodes of several trees. -/
def nodeCounts : List Tree → Nat
  | [] => 0
  | item :: rest => item.nodeCount + nodeCounts rest

end

theorem nodeCounts_append (first second : List Tree) :
    nodeCounts (first ++ second) = nodeCounts first + nodeCounts second := by
  induction first with
  | nil => simp [nodeCounts]
  | cons item rest ih => simp [nodeCounts, ih, Nat.add_assoc]

theorem nodeCounts_filter_le (select : Tree → Bool) (items : List Tree) :
    nodeCounts (items.filter select) ≤ nodeCounts items := by
  induction items with
  | nil => exact Nat.le_refl _
  | cons item rest ih =>
      simp only [List.filter_cons, nodeCounts]
      split
      · exact Nat.add_le_add_left ih _
      · exact Nat.le_trans ih (Nat.le_add_left _ _)

/-- Visit the lists of a stack of trees.  The lists visited so far are kept in
reverse; the lists among the items of a visited one go onto the stack. -/
def walkStack (visited : List Tree) : List Tree → List Tree
  | [] => visited.reverse
  | .atom _ :: stack => walkStack visited stack
  | .list items :: stack => walkStack (.list items :: visited) ((list items).forms ++ stack)
termination_by stack => nodeCounts stack
decreasing_by
  · simp [nodeCounts, nodeCount]
  · have fewer : nodeCounts (list items).forms ≤ nodeCounts items :=
      nodeCounts_filter_le isList items
    simp only [nodeCounts, nodeCount, nodeCounts_append]
    omega

/-- The lists of a tree in the order of a pre-order walk. -/
def walk (tree : Tree) : List Tree :=
  walkStack [] [tree]

/-- The texts of all atoms of a tree, list by list in pre-order. -/
def walkAtoms (tree : Tree) : List String :=
  tree.walk.flatMap fun list => list.items.filterMap text?

end Tree

end WatLink
