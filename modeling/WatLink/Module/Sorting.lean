import WatLink.Module.IndexSpace

/-!
# Sorting top-level forms

Encoders expect imports before definitions.  The forms of a module are grouped
into a fixed sequence of categories, and the input order is kept inside each
category.  References between forms are not inspected.
-/

namespace WatLink

/-- The categories of top-level forms, in output order. -/
inductive Category where
  | imported
  | declaration
  | segment
  | function
  | exported
  | start
  | other
  deriving DecidableEq, Repr

namespace Category

/-- The position of a category in the output. -/
def rank : Category → Nat
  | .imported => 0
  | .declaration => 1
  | .segment => 2
  | .function => 3
  | .exported => 4
  | .start => 5
  | .other => 6

/-- The category that a tag alone decides. -/
def ofTag (tag : String) : Category :=
  if tag = "import" then .imported
  else if ["type", "rec", "memory", "table", "global", "tag"].contains tag then .declaration
  else if ["data", "elem"].contains tag then .segment
  else if tag = "func" then .function
  else if tag = "export" then .exported
  else if tag = "start" then .start
  else .other

/-- The category of a top-level form. -/
def ofForm (form : Tree) : Category :=
  if hasInlineImport form then .imported
  else (form.tag?.map ofTag).getD .other

end Category

namespace Module

/-- The atoms of a module, its tag and name, followed by its forms in the order
of their categories. -/
def sortForms (module : Tree) : Tree :=
  .list (module.items.filter (!·.isList) ++
    module.forms.mergeSort fun first second =>
      decide ((Category.ofForm first).rank ≤ (Category.ofForm second).rank))

end Module

end WatLink
