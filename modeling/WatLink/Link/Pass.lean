import WatLink.Text.Blank
import WatLink.Text.Split

/-!
# Passes and their selection

Linking runs a selection of passes over a module, always in the same order.
A selection is written as a comma-separated text or a list of names; blanks
around names, empty names, their order and repetitions do not matter.
-/

namespace WatLink

/-- The passes, in the order in which they run. -/
inductive Pass where
  /-- Splice imported files into the module. -/
  | expandImports
  /-- Write imported files into data segments. -/
  | inlineData
  /-- Write prefixed integer literals in decimal. -/
  | decimalNumerals
  /-- Replace constant expressions by their values. -/
  | foldConstants
  /-- Raise memory sizes to what data segments need. -/
  | sizeMemories
  /-- Merge several start entries into one. -/
  | mergeStarts
  /-- Order the top-level forms by category. -/
  | sortForms
  deriving DecidableEq, Repr

namespace Pass

/-- The name of a pass in selections and messages. -/
def name : Pass → String
  | .expandImports => "import"
  | .inlineData => "data_import"
  | .decimalNumerals => "numerals"
  | .foldConstants => "constexpr"
  | .sizeMemories => "size_adjust"
  | .mergeStarts => "start_merge"
  | .sortForms => "sort"

/-- All passes in the order in which they run. -/
def all : List Pass :=
  [.expandImports, .inlineData, .decimalNumerals, .foldConstants, .sizeMemories,
    .mergeStarts, .sortForms]

/-- The pass with a name. -/
def ofName? (name : String) : Option Pass :=
  all.find? (·.name == name)

/-- The passes that run when none are selected. -/
def defaults : List Pass := [.expandImports, .sortForms]

/-- The passes that names ask for, in the order in which they are named.  The
first unknown name is an error. -/
def requested : List String → Except String (List Pass)
  | [] => .ok []
  | entry :: rest =>
      let name := Text.strip entry
      if name.isEmpty then requested rest
      else
        match ofName? name with
        | none => .error name
        | some pass => (requested rest).map (pass :: ·)

/-- The selection that a list of names makes, in the order in which passes run,
or the first unknown name. -/
def select (names : List String) : Except String (List Pass) :=
  (requested names).map fun passes => all.filter passes.contains

/-- The selection that a comma-separated text makes. -/
def selectText (text : String) : Except String (List Pass) :=
  select (Text.split ',' text)

end Pass

end WatLink
