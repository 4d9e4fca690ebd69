import WatLink.Memory.Segment

/-!
# Sizing memories

For every memory that active data segments write to, the declared minimum is
raised to the number of pages that hold the furthest byte written.  Segments
are measured first, in textual order, and memories are grown afterwards in the
order of their indices.
-/

namespace WatLink

/-- The number of bytes of a page. -/
def pageSize : Nat := 65536

/-- The least number of pages that hold a number of bytes. -/
def pagesFor (extent : Int) : Int :=
  -(-extent / pageSize)

/-- The memory that a reference names, by identifier or by index. -/
def findMemory (memories : List Memory) (reference : String) : Except LinkError Memory :=
  if isIdentifier reference then
    match memories.find? (·.name == some reference) with
    | some memory => .ok memory
    | none => .error (.undeclaredMemory reference)
  else if isIntLiteral reference then
    match parseInt reference with
    | .error fault => .error (.numeral fault)
    | .ok index =>
        if index < 0 then .error (.undeclaredMemory reference)
        else
          match memories[index.toNat]? with
          | some memory => .ok memory
          | none => .error (.undeclaredMemory reference)
  else .error (.undeclaredMemory reference)

/-- The furthest byte written to each memory, by index.  A memory that no
segment of known range writes to has no entry. -/
abbrev Extents := List (Nat × Nat)

/-- Extend the range of a memory up to an address. -/
def Extents.extend (extents : Extents) (index finish : Nat) : Extents :=
  (index, max ((extents.lookup index).getD 0) finish) ::
    extents.filter fun entry => entry.1 != index

/-- Take one top-level form into account: the extents behind it and what is
reported. -/
def measureForm (memories : List Memory) (extents : Extents) (form : Tree) :
    Except LinkError (Extents × List Event) :=
  match Segment.ofForm? form with
  | .error error => .error error
  | .ok none => .ok (extents, [])
  | .ok (some segment) =>
      match findMemory memories segment.memory with
      | .error error => .error error
      | .ok memory =>
          match segment.offset with
          | none => .ok (extents, [.skippedSegment segment.form])
          | some _ => .ok (extents.extend memory.index segment.finish, [])

/-- Measure the active segments among some forms, onto the extents so far: the
extents or the first error, and what is reported. -/
def measureForms (memories : List Memory) (extents : Extents) :
    List Tree → Except LinkError Extents × List Event
  | [] => (.ok extents, [])
  | form :: rest =>
      match measureForm memories extents form with
      | .error error => (.error error, [])
      | .ok (extents', events) =>
          let (result, events') := measureForms memories extents' rest
          (result, events ++ events')

/-- Grow the memories with known extents in index order, up to the first that
cannot grow: the forms of the grown memories by index, what is reported, and
the error. -/
def growMemories (extents : Extents) :
    List Memory → List (Nat × Tree) × List Event × Option LinkError
  | [] => ([], [], none)
  | memory :: rest =>
      match extents.lookup memory.index with
      | none => growMemories extents rest
      | some extent =>
          match memory.grow (pagesFor extent) with
          | .error error => ([], [], some error)
          | .ok (form, event?) =>
              let (grown, events, error?) := growMemories extents rest
              ((memory.index, form) :: grown, event?.toList ++ events, error?)

/-- What sizing leaves: the module, what is reported, and why it failed, if it
did. -/
structure Sizing where
  module : Tree
  events : List Event
  failure : Option LinkError

/-- Raise the minimum sizes of a module's memories to what its active data
segments need.  If a memory cannot grow, those before it are grown. -/
def Module.sizeMemories (module : Tree) : Sizing :=
  let memories := Module.memories module
  match measureForms memories [] module.forms with
  | (.error error, events) => ⟨module, events, some error⟩
  | (.ok extents, events) =>
      let (grown, growthEvents, failure) := growMemories extents memories
      ⟨Module.mapIndexSpace module "memory" fun index form => (grown.lookup index).getD form,
        events ++ growthEvents, failure⟩

end WatLink
