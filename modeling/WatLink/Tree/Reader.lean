import WatLink.Tree.Basic
import WatLink.Tree.Lexeme

/-!
# Reading trees

A source text holds exactly one tree.  The reader assembles it from the
lexemes of the text with an explicit stack of open lists, so the nesting depth
is not bounded by the machine stack.  Every node that is read keeps the offset at
which it starts, and every refusal points at its culprit.
-/

namespace WatLink

/-- Why a text is not exactly one well-formed tree. -/
inductive SyntaxFault where
  | emptyInput
  | contentAfterRoot
  | unexpectedClosing
  | unterminatedList
  | unterminatedString
  | unterminatedComment
  deriving DecidableEq, Repr

/-- The wording of a fault. -/
def SyntaxFault.message : SyntaxFault → String
  | .emptyInput => "Unexpected end of input, expected an expression"
  | .contentAfterRoot => "Unexpected content after the root expression"
  | .unexpectedClosing => "Unexpected ')'"
  | .unterminatedList => "Unterminated list, missing ')'"
  | .unterminatedString => "Unterminated string literal"
  | .unterminatedComment => "Unterminated block comment"

/-- A fault and the place of its culprit. -/
structure SyntaxError where
  fault : SyntaxFault
  place : Place
  deriving DecidableEq, Repr

/-- A tree as it stands in a text: each atom and each list has the offset at which
it starts, in bytes. -/
inductive LocatedTree where
  | atom (offset : Nat) (text : String)
  | list (offset : Nat) (items : List LocatedTree)
  deriving Inhabited

namespace LocatedTree

/-- Where a node starts. -/
def offset : LocatedTree → Nat
  | .atom offset _ => offset
  | .list offset _ => offset

mutual

/-- The tree without its offsets. -/
def tree : LocatedTree → Tree
  | .atom _ text => .atom text
  | .list _ items => .list (trees items)

/-- The items of a list without their offsets. -/
def trees : List LocatedTree → List Tree
  | [] => []
  | item :: rest => item.tree :: trees rest

end

end LocatedTree

namespace Tree

/-- A list under construction: the place of its parenthesis and its items so
far in reverse. -/
structure OpenList where
  opening : Place
  reversedItems : List LocatedTree

/-- What has been assembled so far. -/
inductive Assembly where
  /-- Nothing yet. -/
  | empty
  /-- The innermost open list and the lists around it, from the inside out. -/
  | inside (innermost : OpenList) (outer : List OpenList)
  /-- The whole tree. -/
  | complete (root : LocatedTree)

namespace Assembly

/-- Add a finished node to the innermost open list, or make it the root. -/
def add (node : LocatedTree) : List OpenList → Assembly
  | [] => .complete node
  | innermost :: outer =>
      .inside { innermost with reversedItems := node :: innermost.reversedItems } outer

/-- The open lists, from the inside out. -/
def openLists : Assembly → List OpenList
  | .inside innermost outer => innermost :: outer
  | _ => []

/-- Continue an assembly with one more lexeme. -/
def push (assembly : Assembly) (lexeme : Lexeme) : Except SyntaxError Assembly :=
  match assembly, lexeme.token with
  | .complete _, _ => .error ⟨.contentAfterRoot, lexeme.start⟩
  | assembly, .opening => .ok (.inside ⟨lexeme.start, []⟩ assembly.openLists)
  | assembly, .atom text => .ok (add (.atom lexeme.start.offset text) assembly.openLists)
  | .empty, .closing => .error ⟨.unexpectedClosing, lexeme.start⟩
  | .inside innermost outer, .closing =>
      .ok (add (.list innermost.opening.offset innermost.reversedItems.reverse) outer)

/-- Conclude an assembly at the end of the text. -/
def finish (assembly : Assembly) (ending : Lexeme.Ending) (place : Place) :
    Except SyntaxError LocatedTree :=
  match ending, assembly with
  | .insideComment outer, _ => .error ⟨.unterminatedComment, outer⟩
  | .insideString start _, .complete _ => .error ⟨.contentAfterRoot, start⟩
  | .insideString _ quote, _ => .error ⟨.unterminatedString, quote⟩
  | .complete, .empty => .error ⟨.emptyInput, place⟩
  | .complete, .inside innermost _ => .error ⟨.unterminatedList, innermost.opening⟩
  | .complete, .complete root => .ok root

/-- Assemble the rest of the lexemes. -/
def run (ending : Lexeme.Ending) (place : Place) :
    Assembly → List Lexeme → Except SyntaxError LocatedTree
  | assembly, [] => assembly.finish ending place
  | assembly, lexeme :: rest =>
      match assembly.push lexeme with
      | .ok assembly' => run ending place assembly' rest
      | .error fault => .error fault

end Assembly

end Tree

namespace LocatedTree

/-- The tree that scanned lexemes spell, with its offsets. -/
def ofScan (scan : Lexeme.Scan) : Except SyntaxError LocatedTree :=
  Tree.Assembly.run scan.ending scan.finish .empty scan.lexemes

/-- Read the tree that a text holds, with its offsets. -/
def parse (text : String) : Except SyntaxError LocatedTree :=
  ofScan (Lexeme.scan text)

end LocatedTree

namespace Tree

/-- The tree that scanned lexemes spell. -/
def ofScan (scan : Lexeme.Scan) : Except SyntaxError Tree :=
  (LocatedTree.ofScan scan).map LocatedTree.tree

/-- Read the tree that a text holds. -/
def parse (text : String) : Except SyntaxError Tree :=
  ofScan (Lexeme.scan text)

end Tree

end WatLink
