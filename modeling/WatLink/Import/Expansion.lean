import WatLink.Import.Session

/-!
# Expanding file imports

A top-level `(import "path" (file))` stands for the forms of the module in that
file, with its own imports expanded.  Imports are expanded depth first along a
chain of paths; a path that is on the chain already closes a cycle.  A file
that is reached along several chains is expanded each time.
-/

namespace WatLink

/-- The path atom of an `(import <atom> (kind))` form. -/
def importAtom? (kind : String) : Tree → Option String
  | .list [.atom tag, .atom path, .list [.atom kind']] =>
      if tag = "import" ∧ kind' = kind then some path else none
  | _ => none

/-- The path atom of a file import. -/
def fileImport? (tree : Tree) : Option String :=
  importAtom? "file" tree

/-- The path of a file import with the given path atom. -/
def importPath (form : Tree) (text : String) : Except LinkError String :=
  match unquoted? text with
  | some path => .ok path
  | none => .error (.malformedForm .filePath form)

/-- The module that a file holds. -/
def moduleOfBytes (path : String) (bytes : Bytes) : Except LinkError Tree :=
  match Text.decodeUtf8 bytes with
  | .error fault => .error (.undecodableImport path fault)
  | .ok text =>
      match Tree.parse text with
      | .error error => .error (.malformedImport path error)
      | .ok tree => if tree.isModule then .ok tree else .error (.importNotAModule path)

/-- Concatenate what the items of a list expand to. -/
def expandEach (expandItem : Tree → SessionM (List Tree)) :
    List Tree → SessionM (List Tree)
  | [] => pure []
  | item :: rest => do
      let expanded ← expandItem item
      let expandedRest ← expandEach expandItem rest
      pure (expanded ++ expandedRest)

/-- What an item expands to, given the chain of paths that leads to it and how
the items of an imported module are expanded. -/
def expandItem (expandModule : List String → List Tree → SessionM (List Tree))
    (chain : List String) (item : Tree) : SessionM (List Tree) :=
  match fileImport? item with
  | none => pure [item]
  | some text => do
      let path ← ofExcept (importPath item text)
      if chain.contains path then throw (.cyclicImport (chain ++ [path]))
      SessionM.report (.expandingImport path chain.length)
      let bytes ← SessionM.loadBytes path
      let module ← ofExcept (moduleOfBytes path bytes)
      let items ← expandModule (chain ++ [path]) module.items
      pure (items.filter Tree.isList)
where
  /-- Take over the result of a computation without files. -/
  ofExcept {α : Type} : Except LinkError α → SessionM α
    | .ok value => pure value
    | .error error => throw error

/-- What items expand to, given the chain of paths that leads to them.  The
number bounds how many more files the chain can go through. -/
def expandItems : (bound : Nat) → (chain : List String) → List Tree → SessionM (List Tree)
  | 0, chain => expandEach (expandItem (fun chain' _ => throw (.cyclicImport chain')) chain)
  | bound + 1, chain => expandEach (expandItem (expandItems bound) chain)

/-- Expand the file imports of a module, which came from the given path if it
was read from the store. -/
def Module.expandImports (module : Tree) (origin : Option String) : SessionM Tree := do
  let session ← get
  let items ← expandItems (session.store.chainBound + 1) origin.toList module.items
  pure (.list items)

end WatLink
