import WatLink.Import.Expansion

/-!
# Inlining binary files

An `(import "path" (raw))` inside a top-level data form is replaced by a string
literal that denotes the bytes of that file.  Imports are replaced one by one;
if one fails, those before it stay replaced.
-/

namespace WatLink

/-- The path atom of a raw import. -/
def rawImport? (tree : Tree) : Option String :=
  importAtom? "raw" tree

/-- Items with their raw imports replaced up to the first failure, and that
failure. -/
abbrev Inlined := List Tree × Option LinkError

/-- The string literal of the file that a raw import names, given its path
atom. -/
def inlineImport (form : Tree) (text : String) : SessionM Tree :=
  match unquoted? text with
  | none => throw (.malformedForm .rawPath form)
  | some path => do
      let bytes ← SessionM.loadBytes path
      SessionM.report (.inlinedData path bytes.length)
      pure (.atom (StringLiteral.ofBytes bytes))

/-- Replace the raw imports among the items of a data form. -/
def inlineItems (session : Session) : List Tree → Inlined × Session
  | [] => (([], none), session)
  | item :: rest =>
      match rawImport? item with
      | none =>
          let ((items, failure), session) := inlineItems session rest
          ((item :: items, failure), session)
      | some text =>
          match (inlineImport item text).run session with
          | .error error session => ((item :: rest, some error), session)
          | .ok literal session =>
              let ((items, failure), session) := inlineItems session rest
              ((literal :: items, failure), session)

/-- Replace the raw imports of the data forms among the items of a module. -/
def inlineForms (session : Session) : List Tree → Inlined × Session
  | [] => (([], none), session)
  | form :: rest =>
      if form.hasTag "data" then
        match inlineItems session form.items with
        | ((items, some error), session) => ((.list items :: rest, some error), session)
        | ((items, none), session) =>
            let ((forms, failure), session) := inlineForms session rest
            ((.list items :: forms, failure), session)
      else
        let ((forms, failure), session) := inlineForms session rest
        ((form :: forms, failure), session)

/-- Write the files that a module's data forms import into them: the module as
far as it got, and why it failed, if it did. -/
def Module.inlineData (module : Tree) (session : Session) :
    (Tree × Option LinkError) × Session :=
  let ((items, failure), session) := inlineForms session module.items
  ((.list items, failure), session)

end WatLink
