import WatLink.Tree.Printer

/-!
# Printing trees over several lines

Lists without nested lists, constants and a few short forms stay on one line.
Every other list puts its tag and the atoms directly behind it on its first
line and each further item on lines of its own, indented by one level more; the
closing parenthesis follows the last of these lines.
-/

namespace WatLink

namespace Tree

/-- Tags of the lists that stay on one line whatever they hold. -/
def inlineTags : List String :=
  ["param", "result", "local", "export", "import", "type", "start", "memory", "table",
    "global", "global.get", "local.get"]

/-- Whether a tag belongs to a form that stays on one line. -/
def isInlineTag (tag : String) : Bool :=
  inlineTags.contains tag || ".const".toList.isSuffixOf tag.toList

/-- Whether a tree stays on one line. -/
def isInline (tree : Tree) : Bool :=
  tree.forms.isEmpty || tree.tag?.any isInlineTag

/-- The spaces in front of a line.  A negative indentation gives none. -/
def padding (indent : Int) (level : Nat) : String :=
  String.ofList (List.replicate (level * indent).toNat ' ')

/-- Append a text to the last of several lines. -/
def appendToLast (suffix : String) : List String → List String
  | [] => []
  | [line] => [line ++ suffix]
  | line :: rest => line :: appendToLast suffix rest

mutual

/-- The lines of a tree at a nesting level. -/
def lines (indent : Int) (level : Nat) : Tree → List String
  | .atom text => [padding indent level ++ text]
  | .list items =>
      if (Tree.list items).isInline then
        [padding indent level ++ (Tree.list items).print]
      else
        appendToLast ")" (linesOfItems indent level (padding indent level ++ "(") true items)

/-- The lines of the items of a list, from its first line on.  As long as only
atoms have been seen they are appended to the first line. -/
def linesOfItems (indent : Int) (level : Nat) (opening : String) (isFirst : Bool) :
    List Tree → List String
  | [] => [opening]
  | item :: rest =>
      match item.text? with
      | some text =>
          linesOfItems indent level
            (if isFirst then opening ++ text else opening ++ " " ++ text) false rest
      | none => opening :: (lines indent (level + 1) item ++ linesOfRest indent level rest)

/-- The lines of the items behind the first nested list. -/
def linesOfRest (indent : Int) (level : Nat) : List Tree → List String
  | [] => []
  | item :: rest => lines indent (level + 1) item ++ linesOfRest indent level rest

end

/-- Print a tree over several lines, each nesting level indented by the given
number of spaces. -/
def prettyPrint (indent : Int) (tree : Tree) : String :=
  String.intercalate "\n" (tree.lines indent 0) ++ "\n"

end Tree

end WatLink
