import WatLink.Numeral.Integer
import WatLink.Tree.Revision

/-!
# Decimal numerals

Hexadecimal and binary integer literals are written in decimal, also behind
the keys of a memory argument.  Hexadecimal floating-point numbers and
everything else that is no integer literal stay as they are, and so do string
literals.
-/

namespace WatLink

/-- Split the keys `offset=` and `align=` off the front of some characters. -/
def spanKeys : List Char → List Char × List Char
  | 'o' :: 'f' :: 'f' :: 's' :: 'e' :: 't' :: '=' :: rest =>
      ("offset=".toList ++ (spanKeys rest).1, (spanKeys rest).2)
  | 'a' :: 'l' :: 'i' :: 'g' :: 'n' :: '=' :: rest =>
      ("align=".toList ++ (spanKeys rest).1, (spanKeys rest).2)
  | characters => ([], characters)

/-- The decimal spelling of a text that is a hexadecimal or binary literal
behind any keys, or `none` for another text. -/
def decimalSpelling? (text : String) : Option (Except NumeralFault String) :=
  let (keys, literal) := spanKeys text.toList
  match IntLiteral.ofText? (String.ofList literal) with
  | none => none
  | some literal =>
      if literal.radix = .decimal then none
      else some ((writeInt literal.value).map (String.ofList keys ++ ·))

/-- Decides about an item: atoms that are prefixed literals are replaced. -/
def decimalReviser : Reviser NumeralFault :=
  fun _ item =>
    match item with
    | .list _ => none
    | .atom text =>
        if isStringLiteral text then none
        else (decimalSpelling? text).map fun spelling => spelling.map Tree.atom

/-- Write the prefixed integer literals of a tree in decimal. -/
def Tree.decimalNumerals (tree : Tree) : Revision NumeralFault :=
  tree.revise decimalReviser

end WatLink
