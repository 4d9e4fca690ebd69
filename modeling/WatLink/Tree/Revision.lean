import WatLink.Tree.Basic

/-!
# Revising trees

A revision visits the lists of a tree in pre-order and, in each list, replaces
some of the items from left to right before it descends into the lists among
the remaining ones.  What takes the place of an item is not visited again.

A replacement may fail, and the revision then stops where it is; the tree keeps
the replacements made so far.  Whether and how an item is replaced may depend
on the whole tree as it stands at that moment, which the reviser is given as a
function of the item in question.
-/

namespace WatLink

/-- What a revision leaves: the tree, the number of replacements, and why it
stopped early, if it did. -/
structure Revision (ε : Type) where
  tree : Tree
  count : Nat
  failure : Option ε

/-- Decides about an item, given the whole tree as a function of it: `none`
keeps the item, a result replaces it, an error stops the revision. -/
abbrev Reviser (ε : Type) := (Tree → Tree) → Tree → Option (Except ε Tree)

namespace Tree

variable {ε : Type}

/-- Decide about the items of one list from left to right.  The whole tree is a
function of the list's items, and the items already decided are given in
reverse.  From a failing item on, nothing is replaced. -/
def reviseItems (revise : Reviser ε) (whole : List Tree → Tree) (done : List Tree) :
    List Tree → List (Option Tree) × Option ε
  | [] => ([], none)
  | item :: rest =>
      match revise (fun item' => whole (done.reverse ++ item' :: rest)) item with
      | none =>
          let (replacements, failure) := reviseItems revise whole (item :: done) rest
          (none :: replacements, failure)
      | some (.ok replacement) =>
          let (replacements, failure) := reviseItems revise whole (replacement :: done) rest
          (some replacement :: replacements, failure)
      | some (.error error) => (none :: rest.map fun _ => none, some error)

/-- Items with their replacements. -/
def withReplacements : List Tree → List (Option Tree) → List Tree
  | item :: rest, replacement? :: replacements =>
      replacement?.getD item :: withReplacements rest replacements
  | items, _ => items

mutual

/-- Revise a tree, given the whole tree as a function of it. -/
def reviseWithin (revise : Reviser ε) (whole : Tree → Tree) : Tree → Revision ε
  | .atom text => ⟨.atom text, 0, none⟩
  | .list items =>
      let wholeOfItems := fun items' => whole (.list items')
      let (replacements, failure) := reviseItems revise wholeOfItems [] items
      let count := replacements.countP Option.isSome
      match failure with
      | some error => ⟨.list (withReplacements items replacements), count, some error⟩
      | none =>
          let (items', nestedCount, failure) :=
            reviseNested revise wholeOfItems [] items replacements
          ⟨.list items', count + nestedCount, failure⟩

/-- Revise the lists among the items that are not replaced.  The items already
revised are given in reverse. -/
def reviseNested (revise : Reviser ε) (whole : List Tree → Tree) (done : List Tree) :
    List Tree → List (Option Tree) → List Tree × Nat × Option ε
  | _ :: rest, some replacement :: replacements =>
      let (items, count, failure) :=
        reviseNested revise whole (replacement :: done) rest replacements
      (replacement :: items, count, failure)
  | item :: rest, none :: replacements =>
      let wholeOfItem := fun item' =>
        whole (done.reverse ++ item' :: withReplacements rest replacements)
      let revision := reviseWithin revise wholeOfItem item
      match revision.failure with
      | some error =>
          (revision.tree :: withReplacements rest replacements, revision.count, some error)
      | none =>
          let (items, count, failure) :=
            reviseNested revise whole (revision.tree :: done) rest replacements
          (revision.tree :: items, revision.count + count, failure)
  | items, _ => (items, 0, none)

end

/-- Revise a tree. -/
def revise (revise : Reviser ε) (tree : Tree) : Revision ε :=
  reviseWithin revise id tree

end Tree

end WatLink
