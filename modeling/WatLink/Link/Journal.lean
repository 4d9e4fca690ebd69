import WatLink.Link.Pass
import WatLink.Tree.Printer

/-!
# The journal of a run

Linking reports what it does as events.  An event has a level and a channel,
which together decide whether and under which name it is shown.
-/

namespace WatLink

/-- The severity of events, in ascending order. -/
inductive Level where
  | debug
  | info
  | warning
  | error
  deriving DecidableEq, Repr

namespace Level

/-- The name of a level. -/
def name : Level → String
  | .debug => "DEBUG"
  | .info => "INFO"
  | .warning => "WARNING"
  | .error => "ERROR"

/-- All levels in ascending order. -/
def all : List Level := [.debug, .info, .warning, .error]

/-- The level with a name. -/
def ofName? (name : String) : Option Level :=
  all.find? (·.name == name)

/-- The position of a level in ascending order. -/
def rank : Level → Nat
  | .debug => 0
  | .info => 1
  | .warning => 2
  | .error => 3

end Level

/-- Something that happened during a run. -/
inductive Event where
  /-- A configuration key is not known. -/
  | unknownKey (shown : String)
  /-- The passes that will run. -/
  | passes (names : List String)
  | runningPass (pass : Pass)
  /-- A file is read from the directory. -/
  | reading (path : String)
  | expandingImport (path : String) (depth : Nat)
  | inlinedData (path : String) (byteCount : Nat)
  | rewroteNumerals (count : Nat)
  | foldedConstants (count : Nat)
  | skippedSegment (form : Tree)
  | keptInlineData (label : String)
  | setMinimum (label : String) (pages : Int)
  | raisedMinimum (label : String) (current pages : Int)
  | mergedStarts (count : Nat) (identifier : String)
  /-- The encoder is run with a command line. -/
  | runningEncoder (command : List String)

namespace Event

/-- The level of an event. -/
def level : Event → Level
  | .unknownKey _ | .skippedSegment _ => .warning
  | _ => .debug

/-- The channel of an event. -/
def channel : Event → String
  | .unknownKey _ => "swl.config"
  | .passes _ => "swl"
  | .runningPass _ => "swl.pipeline"
  | .reading _ => "swl.loader"
  | .expandingImport _ _ => "swl.passes.importer"
  | .inlinedData _ _ => "swl.passes.data_import"
  | .rewroteNumerals _ => "swl.passes.numerals"
  | .foldedConstants _ => "swl.passes.constexpr"
  | .skippedSegment _ | .keptInlineData _ | .setMinimum _ _ | .raisedMinimum _ _ _ =>
      "swl.passes.size_adjust"
  | .mergedStarts _ _ => "swl.passes.start_merge"
  | .runningEncoder _ => "swl.encoder"

/-- The wording of an event. -/
def message : Event → String
  | .unknownKey shown => "Ignoring unknown configuration key " ++ shown
  | .passes names =>
      "Passes: " ++ (if names.isEmpty then "(none)" else String.intercalate ", " names)
  | .runningPass pass => "Running pass " ++ pass.name
  | .reading path => "Reading " ++ path
  | .expandingImport path depth => s!"Expanding import {path} (depth {depth})"
  | .inlinedData path byteCount => s!"Inlined {byteCount} bytes from {path}"
  | .rewroteNumerals count => s!"Rewrote {count} numeric literals"
  | .foldedConstants count => s!"Folded {count} constant expressions"
  | .skippedSegment form => "Skipping data segment with non-constant offset: " ++ form.print
  | .keptInlineData label => s!"Memory {label} has inline data, leaving it alone"
  | .setMinimum label pages => s!"Memory {label}: minimum set to {pages} pages"
  | .raisedMinimum label current pages =>
      s!"Memory {label}: minimum raised {current} -> {pages} pages"
  | .mergedStarts count identifier => s!"Merging {count} start entries into {identifier}"
  | .runningEncoder command => "Running " ++ String.intercalate " " command

end Event

end WatLink
