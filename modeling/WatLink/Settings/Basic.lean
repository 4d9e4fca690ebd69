import WatLink.Command.Encoder
import WatLink.Link.Error
import WatLink.Settings.Datum
import WatLink.Store.Disk
import WatLink.Text.ShellWords

/-!
# Settings

The settings of a run, and how configuration data sets them.  Keys that are not
known are reported and ignored.
-/

namespace WatLink

/-- The settings of a run. -/
structure Settings where
  /-- The passes that run, in their order. -/
  passes : List Pass := Pass.defaults
  /-- The directory that import paths are below; the working directory if there
  is none. -/
  root : Option Path := none
  /-- Whether the output is encoded. -/
  emitBinary : Bool := false
  encoder : Encoder := .wat2wasm
  encoderFlags : List String := []
  /-- Whether text is written over several lines. -/
  pretty : Bool := false
  /-- The least level of the events that are shown. -/
  logLevel : Level := .warning

/-- Why settings cannot be read. -/
inductive SettingsError where
  /-- A pass is not known. -/
  | unknownPass (name : Datum)
  | passesShape
  /-- A pass name in a list is no text. -/
  | passNotText (kind : String)
  | notBool (key : String)
  | unknownEncoder
  /-- The encoder is a list, a mapping or holds one. -/
  | encoderCollection (kind : String)
  | flagsShape
  | flagWords (fault : Text.WordFault)
  | unknownLevel
  /-- A datum cannot be written as text. -/
  | unprintable (fault : NumeralFault)
  /-- Nothing can be told of the configuration file of a directory. -/
  | unsearchable (path : String) (fault : DiskFault)
  | unreadable (path : String) (fault : DiskFault)
  | invalidYaml (path reason : String)
  /-- The reader of the configuration text breaks. -/
  | brokenReader (error : ForeignError)
  | notAMapping (path : String)

namespace SettingsError

/-- The wording of an error. -/
def message : SettingsError → String
  | .unknownPass name => Message.unknownPassShown name.shown (Pass.all.map Pass.name)
  | .passesShape => "transforms must be a list or a comma-separated string"
  | .passNotText kind => s!"'{kind}' object has no attribute 'strip'"
  | .notBool key => key ++ " must be true or false"
  | .unknownEncoder =>
      "encoder must be one of " ++ String.intercalate ", " (Encoder.all.map Encoder.name)
  | .encoderCollection kind => s!"unhashable type: '{kind}'"
  | .flagsShape => "encoder_flags must be a list or a string"
  | .flagWords fault => fault.message
  | .unknownLevel =>
      "log_level must be one of " ++ String.intercalate ", " (Level.all.map Level.name)
  | .unprintable fault => fault.message
  | .unsearchable path fault => fault.message path
  | .unreadable path fault =>
      if fault.isSystemFault then s!"Cannot read configuration {path}: " ++ fault.message path
      else fault.message path
  | .invalidYaml path reason => s!"Invalid YAML in {path}: " ++ reason
  | .brokenReader error => error.message
  | .notAMapping path => path ++ ": expected a mapping at the top level"

end SettingsError

namespace Settings

/-- The keys of configuration data. -/
def knownKeys : List String :=
  ["transforms", "root", "emit_binary", "encoder", "encoder_flags", "pretty", "log_level"]

/-- Whether a key is known. -/
def isKnown : Datum → Bool
  | .text key => knownKeys.contains key
  | _ => false

/-- The events of the keys that are not known and can be shown. -/
def unknownKeyEvents (entries : List (Datum × Datum)) : List Event :=
  (entries.filter fun entry => !isKnown entry.1 && entry.1.fault?.isNone).map
    fun entry => .unknownKey entry.1.shown

/-- The error of a pass name that is not known. -/
def unknownName (name : String) : SettingsError :=
  .unknownPass (.text name)

/-- Bytes without the blanks around them. -/
def stripBytes (bytes : Bytes) : Bytes :=
  let isBlank := fun (byte : UInt8) =>
    byte == 0x20 || (decide (0x09 ≤ byte) && decide (byte ≤ 0x0D))
  ((bytes.dropWhile isBlank).reverse.dropWhile isBlank).reverse

/-- The passes that a list of data asks for, in the order in which they are
named.  Bytes name no pass, but may be blank. -/
def requestedPasses : List Datum → Except SettingsError (List Pass)
  | [] => .ok []
  | .text entry :: rest =>
      match Pass.requested [entry] with
      | .error name => .error (unknownName name)
      | .ok passes => (requestedPasses rest).map (passes ++ ·)
  | .bytes entry :: rest =>
      let name := stripBytes entry
      if name.isEmpty then requestedPasses rest else .error (.unknownPass (.bytes name))
  | datum :: _ => .error (.passNotText datum.kind)

/-- The selection of passes that a datum makes. -/
def passesOf : Datum → Except SettingsError (List Pass)
  | .text text => (Pass.selectText text).mapError unknownName
  | .list items => (requestedPasses items).map fun passes => Pass.all.filter passes.contains
  | _ => .error .passesShape

/-- The truth value of a key. -/
def boolOf (key : String) : Datum → Except SettingsError Bool
  | .bool truth => .ok truth
  | _ => .error (.notBool key)

/-- The encoder that a datum names. -/
def encoderOf : Datum → Except SettingsError Encoder
  | .text name =>
      match Encoder.ofName? name with
      | some encoder => .ok encoder
      | none => .error .unknownEncoder
  | datum =>
      match datum.unhashable? with
      | some kind => .error (.encoderCollection kind)
      | none => .error .unknownEncoder

/-- A datum as text. -/
def textOf (datum : Datum) : Except SettingsError String :=
  datum.asText.mapError .unprintable

/-- The root that a datum names below a directory; nothing names none. -/
def rootOf (base : Path) : Datum → Except SettingsError (Option Path)
  | .null => .ok none
  | datum => (textOf datum).map fun text => some (base.join (Path.ofText text))

/-- The words of a text of encoder flags. -/
def flagsOfText (text : String) : Except SettingsError (List String) :=
  (Text.shellWords text).mapError .flagWords

/-- The encoder flags that a datum gives. -/
def flagsOf : Datum → Except SettingsError (List String)
  | .null => .ok []
  | .text text => flagsOfText text
  | .list items => items.mapM textOf
  | _ => .error .flagsShape

/-- The capital of a letter of a level name.  Besides the plain small letters,
the dotless i has one of them as its capital. -/
def levelCapital (character : Char) : Char :=
  if character = Char.ofNat 0x131 then 'I' else character.toUpper

/-- The level that a datum names, in either case. -/
def levelOf (datum : Datum) : Except SettingsError Level := do
  let text ← textOf datum
  match Level.ofName? (String.ofList (text.toList.map levelCapital)) with
  | some level => .ok level
  | none => .error .unknownLevel

/-- Set something from the value of a key, if the key is there. -/
def setFrom {α : Type} (entries : List (Datum × Datum)) (key : String) (default : α)
    (read : Datum → Except SettingsError α) : Except SettingsError α :=
  match Datum.entry? entries key with
  | none => .ok default
  | some datum => read datum

/-- The settings that the entries of a mapping make.  A root is below the given
directory. -/
def ofEntries (base : Path) (entries : List (Datum × Datum)) :
    Except SettingsError Settings := do
  let defaults : Settings := {}
  let passes ← setFrom entries "transforms" defaults.passes passesOf
  let root ← setFrom entries "root" defaults.root (rootOf base)
  let emitBinary ← setFrom entries "emit_binary" defaults.emitBinary (boolOf "emit_binary")
  let pretty ← setFrom entries "pretty" defaults.pretty (boolOf "pretty")
  let encoder ← setFrom entries "encoder" defaults.encoder encoderOf
  let encoderFlags ← setFrom entries "encoder_flags" defaults.encoderFlags flagsOf
  let logLevel ← setFrom entries "log_level" defaults.logLevel levelOf
  pure { passes, root, emitBinary, encoder, encoderFlags, pretty, logLevel }

end Settings

end WatLink
