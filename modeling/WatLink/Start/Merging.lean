import WatLink.Link.Error
import WatLink.Tree.Walk

/-!
# Merging start entries

A module may have only one start function.  Several start entries are replaced
by a generated function that calls their targets in order, and one entry that
names it.  Its identifier occurs nowhere in the module.
-/

namespace WatLink

/-- The identifier of the generated start function, if it is free. -/
def startIdentifier : String := "$_swl_start_merger"

/-- The greatest number that is tried behind the identifier. -/
def maxProbes : Nat := 10000

/-- The function that a start entry names. -/
def startTarget (form : Tree) : Except LinkError String :=
  match form.items with
  | [_, .atom target] => .ok target
  | _ => .error (.malformedForm .startTarget form)

/-- The functions that several start entries name. -/
def startTargets : List Tree → Except LinkError (List String)
  | [] => .ok []
  | form :: rest =>
      match startTarget form with
      | .error error => .error error
      | .ok target => (startTargets rest).map (target :: ·)

/-- The identifiers that occur in a tree. -/
def Tree.identifiers (tree : Tree) : List String :=
  tree.walkAtoms.filter isIdentifier

/-- An identifier with a number behind it. -/
def numberedIdentifier (base : String) (number : Nat) : String :=
  s!"{base}_{number}"

/-- The given identifier, or the first numbered one, that is not taken. -/
def freshIdentifier (taken : List String) (base : String) : Except LinkError String :=
  if taken.contains base then
    match (List.range maxProbes).find? fun probe =>
        !taken.contains (numberedIdentifier base (probe + 1)) with
    | some probe => .ok (numberedIdentifier base (probe + 1))
    | none => .error (.identifierTaken base)
  else .ok base

/-- A function that calls the given functions in order. -/
def startFunction (identifier : String) (targets : List String) : Tree :=
  Tree.form "func"
    (.atom identifier :: targets.map fun target => Tree.form "call" [.atom target])

/-- Replace the start entries of a module, if there are several, by one that
calls all their targets.  Gives the module and, if it changed, the number of
entries and the identifier. -/
def Module.mergeStarts (module : Tree) : Except LinkError (Tree × Option (Nat × String)) :=
  let starts := module.items.filter (·.hasTag "start")
  if starts.length ≤ 1 then .ok (module, none)
  else
    match startTargets starts with
    | .error error => .error error
    | .ok targets =>
        match freshIdentifier module.identifiers startIdentifier with
        | .error error => .error error
        | .ok identifier =>
            .ok (.list (module.items.filter (!·.hasTag "start") ++
                [startFunction identifier targets, Tree.form "start" [.atom identifier]]),
              some (targets.length, identifier))

end WatLink
