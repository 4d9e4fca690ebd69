import WatLink.Settings.Basic

/-!
# Configuration files

Settings are read from a file, whose directory is the base of a relative root.
How the file holds its data is left to a reader.
-/

namespace WatLink

/-- What a reader makes of the contents of a configuration file. -/
inductive DocumentResult where
  | data (datum : Datum)
  /-- The contents are malformed. -/
  | malformed (reason : String)
  /-- The reader breaks. -/
  | broken (error : ForeignError)

/-- A reader of configuration files. -/
abbrev DocumentReader := Bytes → DocumentResult

namespace Settings

/-- The name of the configuration file of a directory. -/
def fileName : String := "swl.yaml"

/-- The configuration file of a directory, if there is one. -/
def find (disk : Disk) (directory : Path) : Except SettingsError (Option Path) :=
  let candidate := directory.join (Path.ofText fileName)
  match disk.isFile candidate with
  | .error fault => .error (.unsearchable candidate.toText fault)
  | .ok isFile => .ok (if isFile then some candidate else none)

/-- The entries of the mapping in a configuration file. -/
def entriesOfFile (reader : DocumentReader) (disk : Disk) (path : Path) :
    Except SettingsError (List (Datum × Datum)) :=
  match disk.read path with
  | .error fault => .error (.unreadable path.toText fault)
  | .ok bytes =>
      match reader bytes with
      | .broken error => .error (.brokenReader error)
      | .malformed reason => .error (.invalidYaml path.toText reason)
      | .data .null => .ok []
      | .data (.mapping entries) => .ok entries
      | .data _ => .error (.notAMapping path.toText)

/-- Read the settings in a file: the settings, and what is reported. -/
def load (reader : DocumentReader) (disk : Disk) (path : Path) :
    Except SettingsError Settings × List Event :=
  match entriesOfFile reader disk path with
  | .error error => (.error error, [])
  | .ok entries => (ofEntries path.parent entries, unknownKeyEvents entries)

end Settings

end WatLink
