import WatLink.Link.Error
import WatLink.Link.Journal

/-!
# Memory declarations

A memory is declared with a minimum size in pages and an optional maximum, the
integer literals behind its tag.  Growing a memory raises the minimum; it is
never lowered, and a declared maximum is respected.  A memory with inline data
takes its size from that data and is left alone.
-/

namespace WatLink

/-- A memory: its index, its identifier, and the form with its limits, which
for an imported memory is nested in the import. -/
structure Memory where
  index : Nat
  name : Option String
  form : Tree

namespace Memory

/-- The memory of a form with an index. -/
def ofForm (index : Nat) (form : Tree) : Memory :=
  ⟨index, form.identifier?, form⟩

/-- How messages call a memory: by its identifier, or else by its index. -/
def label (memory : Memory) : String :=
  match memory.name with
  | some name => if name.isEmpty then toString memory.index else name
  | none => toString memory.index

/-- Whether an item is an integer literal. -/
def isLimit : Tree → Bool
  | .atom text => isIntLiteral text
  | .list _ => false

/-- The positions of the limits among the items of a memory form. -/
def limitPositions (memory : Memory) : List Nat :=
  (memory.form.items.zipIdx.tail.filter fun (item, _) => isLimit item).map (·.2)

/-- The texts of the limits of a memory form. -/
def limits (memory : Memory) : List String :=
  (memory.form.items.tail.filter isLimit).filterMap Tree.text?

/-- Insert an atom before the first `shared` among some items, or behind all of
them. -/
def insertMinimum (minimum : String) : List Tree → List Tree
  | [] => [.atom minimum]
  | item :: rest =>
      if item = .atom "shared" then .atom minimum :: item :: rest
      else item :: insertMinimum minimum rest

/-- Replace the first limit among some items. -/
def replaceMinimum (minimum : String) : List Tree → List Tree
  | [] => []
  | item :: rest =>
      if isLimit item then .atom minimum :: rest
      else item :: replaceMinimum minimum rest

/-- A form with its items behind the tag changed. -/
def changeBehindTag (change : List Tree → List Tree) : Tree → Tree
  | .list (tag :: rest) => .list (tag :: change rest)
  | tree => tree

/-- Read an integer inside a memory form. -/
def readLimit (text : String) : Except LinkError Int :=
  (parseInt text).mapError .numeral

/-- Write a number of pages. -/
def writePages (pages : Int) : Except LinkError String :=
  (writeInt pages).mapError .numeral

/-- The error of a memory that needs more pages than its maximum. -/
def limitError (memory : Memory) (pages maximum : Int) : LinkError :=
  match writePages pages, writePages maximum with
  | .ok _, .ok _ => .memoryLimit memory.label pages maximum
  | .error error, _ => error
  | _, .error error => error

/-- Raise the minimum of a memory to a number of pages, unless it is that large
already.  Gives the form and what is reported. -/
def grow (memory : Memory) (pages : Int) : Except LinkError (Tree × Option Event) :=
  if (memory.form.find? ["data"]).isSome then
    .ok (memory.form, some (.keptInlineData memory.label))
  else
    match memory.limits with
    | [] => do
        let minimum ← writePages pages
        .ok (.list (insertMinimum minimum memory.form.items),
          some (.setMinimum memory.label pages))
    | minimum :: further => do
        let current ← readLimit minimum
        if pages ≤ current then .ok (memory.form, none)
        else
          match further with
          | maximum :: _ =>
              let maximum ← readLimit maximum
              if maximum < pages then .error (memory.limitError pages maximum)
          | [] => pure ()
          let minimum ← writePages pages
          .ok (changeBehindTag (replaceMinimum minimum) memory.form,
            some (.raisedMinimum memory.label current pages))

end Memory

/-- The memories of a module in index order. -/
def Module.memories (module : Tree) : List Memory :=
  (Module.indexSpace module "memory").zipIdx.map fun (declaration, index) =>
    Memory.ofForm index declaration.form

end WatLink
