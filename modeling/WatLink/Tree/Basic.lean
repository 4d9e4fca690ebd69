/-!
# Syntax trees

A module text is a tree of parenthesized lists.  Its leaves are atoms, kept
exactly as they are written; a list is recognized by its tag, the text of a
leading atom.  Everything the linker does not recognize stays as it is, so
there is no other structure to a tree.
-/

namespace WatLink

/-- An atom, with its source text, or a parenthesized list. -/
inductive Tree where
  | atom (text : String)
  | list (items : List Tree)
  deriving Inhabited

namespace Tree

mutual

/-- Structural equality of trees is decidable. -/
protected def decEq : (first second : Tree) → Decidable (first = second)
  | .atom text, .atom text' =>
      if same : text = text' then isTrue (congrArg Tree.atom same)
      else isFalse fun equal => same (Tree.atom.inj equal)
  | .atom _, .list _ => isFalse fun equal => Tree.noConfusion equal
  | .list _, .atom _ => isFalse fun equal => Tree.noConfusion equal
  | .list items, .list items' =>
      match Tree.decEqList items items' with
      | isTrue same => isTrue (congrArg Tree.list same)
      | isFalse different => isFalse fun equal => different (Tree.list.inj equal)

/-- Structural equality of lists of trees is decidable. -/
protected def decEqList : (first second : List Tree) → Decidable (first = second)
  | [], [] => isTrue rfl
  | [], _ :: _ => isFalse fun equal => List.noConfusion rfl (heq_of_eq equal)
  | _ :: _, [] => isFalse fun equal => List.noConfusion rfl (heq_of_eq equal)
  | tree :: rest, tree' :: rest' =>
      match Tree.decEq tree tree', Tree.decEqList rest rest' with
      | isTrue same, isTrue sameRest => isTrue (by rw [same, sameRest])
      | isFalse different, _ => isFalse fun equal => different (List.cons.inj equal).1
      | _, isFalse different => isFalse fun equal => different (List.cons.inj equal).2

end

instance : DecidableEq Tree := Tree.decEq

/-- A list of a tag and further items. -/
def form (tag : String) (items : List Tree) : Tree :=
  .list (.atom tag :: items)

/-- The children of a list; an atom has none. -/
def items : Tree → List Tree
  | .atom _ => []
  | .list items => items

/-- Whether a tree is a list. -/
def isList : Tree → Bool
  | .atom _ => false
  | .list _ => true

/-- The text of an atom. -/
def text? : Tree → Option String
  | .atom text => some text
  | .list _ => none

/-- The text of the leading atom of a list.  Atoms, empty lists and lists that
start with a list have none. -/
def tag? : Tree → Option String
  | .list (.atom text :: _) => some text
  | _ => none

/-- Whether a tree is a list with the given tag. -/
def hasTag (tree : Tree) (tag : String) : Bool :=
  tree.tag? == some tag

/-- Whether a tree is a list whose tag is among the given ones. -/
def hasTagIn (tree : Tree) (tags : List String) : Bool :=
  match tree.tag? with
  | some tag => tags.contains tag
  | none => false

/-- The children that are lists. -/
def forms (tree : Tree) : List Tree :=
  tree.items.filter isList

/-- The texts of the children that are atoms, without the tag. -/
def atoms (tree : Tree) : List String :=
  (if tree.tag?.isSome then tree.items.tail else tree.items).filterMap text?

/-- The first child list with one of the given tags. -/
def find? (tree : Tree) (tags : List String) : Option Tree :=
  tree.forms.find? (·.hasTagIn tags)

/-- Whether a tree is a `(module ...)` form. -/
def isModule (tree : Tree) : Bool :=
  tree.hasTag "module"

end Tree

/-- Whether an atom's text is a string literal: it starts and ends with a
quote, and these are two quotes. -/
def isStringLiteral (text : String) : Bool :=
  match text.toList with
  | '"' :: rest => rest.getLast? == some '"'
  | _ => false

/-- Whether an atom's text is an identifier. -/
def isIdentifier (text : String) : Bool :=
  text.toList.head? == some '$'

/-- The text of a string literal between its quotes, or `none` for an atom that
is no string literal. -/
def unquoted? (text : String) : Option String :=
  if isStringLiteral text then some (String.ofList text.toList.tail.dropLast) else none

namespace Tree

/-- The identifier of a declaration, which stands directly behind its tag. -/
def identifier? (tree : Tree) : Option String :=
  match tree.items with
  | _ :: .atom text :: _ => if isIdentifier text then some text else none
  | _ => none

end Tree

end WatLink
