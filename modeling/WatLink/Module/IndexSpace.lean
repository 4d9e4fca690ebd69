import WatLink.Tree.Basic

/-!
# Index spaces

Functions, memories, globals and the other declared things of a module are
numbered by kind.  Imported declarations come first, whether they are nested in
an `(import ...)` form or are definitions with an inline import; definitions
follow.  Each group keeps its textual order.
-/

namespace WatLink

/-- Tags of the definitions that may carry an inline import. -/
def importableTags : List String :=
  ["func", "memory", "table", "global", "tag"]

/-- Whether a form is a definition with an inline import. -/
def hasInlineImport (form : Tree) : Bool :=
  form.hasTagIn importableTags && (form.find? ["import"]).isSome

/-- A declaration of a module and whether it is imported. -/
structure Declaration where
  form : Tree
  imported : Bool
  deriving DecidableEq

namespace Module

/-- The declaration of a kind that a top-level item makes, if it makes one. -/
def declaration? (kind : String) (item : Tree) : Option Declaration :=
  if item.hasTag "import" then (item.find? [kind]).map (⟨·, true⟩)
  else if item.hasTag kind then some ⟨item, hasInlineImport item⟩
  else none

/-- The declarations of a kind in textual order. -/
def declarations (module : Tree) (kind : String) : List Declaration :=
  module.items.filterMap (declaration? kind)

/-- The declarations of a kind in index order. -/
def indexSpace (module : Tree) (kind : String) : List Declaration :=
  let declarations := declarations module kind
  declarations.filter (·.imported) ++ declarations.filter (!·.imported)

/-- Replace the first list with a tag among some items. -/
def replaceFirst (kind : String) (replacement : Tree) : List Tree → List Tree
  | [] => []
  | item :: rest =>
      if item.hasTag kind then replacement :: rest
      else item :: replaceFirst kind replacement rest

/-- Replace the declaration of a kind that a top-level item makes. -/
def replaceDeclaration (kind : String) (replacement : Tree) (item : Tree) : Tree :=
  if item.hasTag "import" then .list (replaceFirst kind replacement item.items)
  else replacement

/-- Apply a function to the declarations of a kind among some top-level items,
given the indices of the next imported and the next defined declaration. -/
def mapDeclarations (kind : String) (change : Nat → Tree → Tree) :
    (nextImported nextDefined : Nat) → List Tree → List Tree
  | _, _, [] => []
  | nextImported, nextDefined, item :: rest =>
      match declaration? kind item with
      | none => item :: mapDeclarations kind change nextImported nextDefined rest
      | some ⟨form, true⟩ =>
          replaceDeclaration kind (change nextImported form) item ::
            mapDeclarations kind change (nextImported + 1) nextDefined rest
      | some ⟨form, false⟩ =>
          replaceDeclaration kind (change nextDefined form) item ::
            mapDeclarations kind change nextImported (nextDefined + 1) rest

/-- Apply a function to every declaration of a kind, given its index, where the
declaration stands. -/
def mapIndexSpace (module : Tree) (kind : String) (change : Nat → Tree → Tree) : Tree :=
  let importedCount := ((declarations module kind).filter (·.imported)).length
  .list (mapDeclarations kind change 0 importedCount module.items)

end Module

end WatLink
