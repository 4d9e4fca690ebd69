import WatLink.Tree.Basic

/-!
# Printing trees on one line

The canonical text of a tree writes atoms verbatim and lists as their items,
separated by single spaces, between parentheses.  `Tree.text` is the recursive
definition; `Tree.print` computes the same text with an explicit stack of the
pieces still to be written, so that deep trees need no deep recursion.
-/

namespace WatLink

namespace Tree

mutual

/-- The canonical text of a tree. -/
def text : Tree → String
  | .atom text => text
  | .list items => "(" ++ textOfItems items ++ ")"

/-- The canonical text of the items of a list. -/
def textOfItems : List Tree → String
  | [] => ""
  | item :: rest => item.text ++ textOfRest rest

/-- The canonical text of the items behind the first one. -/
def textOfRest : List Tree → String
  | [] => ""
  | item :: rest => " " ++ item.text ++ textOfRest rest

end

/-- A piece of text still to be written: a fixed mark or a tree. -/
inductive Piece where
  | mark (text : String)
  | node (tree : Tree)

mutual

/-- The number of steps that writing a tree takes. -/
def printingCost : Tree → Nat
  | .atom _ => 1
  | .list items => 3 + printingCosts items

/-- The number of steps that writing items and their separators takes. -/
def printingCosts : List Tree → Nat
  | [] => 0
  | item :: rest => item.printingCost + 1 + printingCosts rest

end

/-- The number of steps that writing a piece takes. -/
def Piece.cost : Piece → Nat
  | .mark _ => 1
  | .node tree => tree.printingCost

/-- The number of steps that writing pieces takes. -/
def Piece.costs : List Piece → Nat
  | [] => 0
  | piece :: rest => piece.cost + costs rest

theorem Piece.costs_append (first second : List Piece) :
    costs (first ++ second) = costs first + costs second := by
  induction first with
  | nil => simp [costs]
  | cons piece rest ih => simp only [List.cons_append, costs, ih, Nat.add_assoc]

/-- The pieces of the items behind the first one. -/
def piecesOfRest (rest : List Tree) : List Piece :=
  rest.flatMap fun item => [.mark " ", .node item]

/-- The pieces of the items of a list. -/
def piecesOfItems : List Tree → List Piece
  | [] => []
  | item :: rest => .node item :: piecesOfRest rest

theorem costs_piecesOfRest (rest : List Tree) :
    Piece.costs (piecesOfRest rest) = printingCosts rest := by
  induction rest with
  | nil => rfl
  | cons item rest ih =>
      simp only [piecesOfRest, printingCosts, List.flatMap_cons, Piece.costs_append] at ih ⊢
      simp only [Piece.costs, Piece.cost] at ih ⊢
      omega

theorem costs_piecesOfItems_le (items : List Tree) :
    Piece.costs (piecesOfItems items) ≤ printingCosts items := by
  cases items with
  | nil => exact Nat.le_refl _
  | cons item rest =>
      have restCost := costs_piecesOfRest rest
      simp only [piecesOfItems, Piece.costs, printingCosts, Piece.cost]
      omega

/-- Write the pieces of a stack behind a text. -/
def printPieces (written : String) : List Piece → String
  | [] => written
  | .mark text :: stack => printPieces (written ++ text) stack
  | .node (.atom text) :: stack => printPieces (written ++ text) stack
  | .node (.list items) :: stack =>
      printPieces (written ++ "(") (piecesOfItems items ++ .mark ")" :: stack)
termination_by pieces => Piece.costs pieces
decreasing_by
  · simp [Piece.costs, Piece.cost]
  · simp [Piece.costs, Piece.cost, printingCost]
  · have itemCost := costs_piecesOfItems_le items
    simp only [Piece.costs_append, Piece.costs, Piece.cost, printingCost]
    omega

/-- Print a tree in its canonical form. -/
def print (tree : Tree) : String :=
  printPieces "" [.node tree]

end Tree

end WatLink
