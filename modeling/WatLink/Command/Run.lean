import WatLink.Command.Arguments
import WatLink.Link.Linker
import WatLink.Settings.File
import WatLink.Text.LineEnds
import WatLink.Tree.Layout

/-!
# Runs of the command

A run reads settings, links a module and writes text or a binary.  It is a
function of the files, the standard input, the reader of configuration files and
the external programs; what it writes is part of its outcome.
-/

namespace WatLink

/-- What a run finds. -/
structure Surroundings where
  disk : Disk
  /-- The standard input. -/
  input : Bytes
  reader : DocumentReader
  programs : Programs
  encoderFiles : EncoderFiles

/-- Errors that a run does not report on its own. -/
inductive RunError where
  | settings (error : SettingsError)
  /-- The input cannot be looked for. -/
  | input (path : Path) (fault : DiskFault)
  | link (error : LinkError)
  | encoder (error : ForeignError)
  | write (path : Path) (fault : DiskFault)

/-- The wording of an error. -/
def RunError.message : RunError → String
  | .settings error => error.message
  | .link error => error.message
  | .encoder error => error.message
  | .input path fault | .write path fault => fault.message path.toText

/-- How a run ends. -/
inductive Ending where
  | exit (code : Nat)
  | broken (error : RunError)

/-- The outcome of a run. -/
structure Outcome where
  ending : Ending
  output : Bytes := []
  errorOutput : String := ""
  /-- The disk that the encoder leaves, if one is run. -/
  encoderDisk : Option Disk := none
  /-- The file that is written. -/
  written : Option (Path × Bytes) := none
  /-- All that happened while linking, shown or not. -/
  journal : List Event := []

/-- Whether an error comes from a limit of numbers and not from the module. -/
def LinkError.isNumberLimit : LinkError → Bool
  | .numeral _ | .escapeBeyondWord => true
  | .constant (.globalNumeral _) | .constant (.tooLarge _) => true
  | _ => false

/-- Whether an error is reported as one of the configuration. -/
def SettingsError.isReported : SettingsError → Bool
  | .passNotText _ | .encoderCollection _ | .flagWords _ | .unprintable _ => false
  | .unsearchable _ _ | .brokenReader _ => false
  | .unreadable _ fault => fault.isSystemFault
  | _ => true

namespace Run

/-- A line of the error output. -/
def line (text : String) : String := text ++ "\n"

/-- The line of a reported error. -/
def errorLine (message : String) : String := line ("error: " ++ message)

/-- The line that shows an event. -/
def eventLine (event : Event) : String :=
  line s!"{event.level.name} {event.channel}: {event.message}"

/-- The lines of the events from a level on. -/
def eventLines (level : Level) (events : List Event) : String :=
  String.join ((events.filter fun event => decide (level.rank ≤ event.level.rank)).map eventLine)

/-- The configuration file of a run: the named one, or else the one in the working
directory, if there is one. -/
def settingsFile (disk : Disk) (arguments : Arguments) : Except SettingsError (Option Path) :=
  match arguments.config.filter fun name => !name.isEmpty with
  | some name => .ok (some (Path.ofText name))
  | none => Settings.find disk disk.workingDirectory

/-- The settings of a run before the arguments are heard, and what is reported. -/
def fileSettings (reader : DocumentReader) (disk : Disk) (arguments : Arguments) :
    Except SettingsError Settings × List Event :=
  match settingsFile disk arguments with
  | .error error => (.error error, [])
  | .ok (some path) => Settings.load reader disk path
  | .ok none => (.ok {}, [])

/-- Let the arguments override settings. -/
def override (arguments : Arguments) (settings : Settings) : Except SettingsError Settings := do
  let passes ←
    match arguments.transform with
    | some text => (Pass.selectText text).mapError Settings.unknownName
    | none => pure settings.passes
  let encoderFlags ←
    match arguments.encoderFlags with
    | some text => Settings.flagsOfText text
    | none => pure settings.encoderFlags
  pure
    { passes, encoderFlags
      root := (arguments.root.map Path.ofText).or settings.root
      emitBinary := arguments.emitBinary || settings.emitBinary
      encoder := arguments.encoder.getD settings.encoder
      pretty := arguments.pretty || settings.pretty
      logLevel := if arguments.verbose then .debug else settings.logLevel }

/-- Why there is no linked module. -/
inductive InputError where
  | unreadable (fault : DiskFault)
  | undecodable (fault : Text.Utf8Fault)
  | link (error : LinkError)

/-- The path of the input in the store.  A file below the root has its path from
there, another one its absolute path. -/
def originOf (directory root : Path) (input : String) : String :=
  let path := directory.resolve (Path.ofText input)
  let below := if root.hasNull then none else path.relativeTo? (directory.resolve root)
  (below.getD path).toText

/-- The text of the input and its path in the store. -/
def readInput (surroundings : Surroundings) (root : Path) (input : String) :
    Except InputError (String × Option String) :=
  if input = "-" then
    match Text.decodeLines surroundings.input with
    | .error fault => .error (.undecodable fault)
    | .ok text => .ok (text, none)
  else
    match surroundings.disk.readResolved (Path.ofText input) with
    | .error fault => .error (.unreadable fault)
    | .ok bytes =>
        match Text.decodeLines bytes with
        | .error fault => .error (.undecodable fault)
        | .ok text =>
            .ok (text, some (originOf surroundings.disk.workingDirectory root input))

/-- Link the input: the module or an error, and what happened. -/
def linkInput (surroundings : Surroundings) (settings : Settings) (input : String) :
    Except InputError Tree × List Event :=
  let root := settings.root.getD surroundings.disk.workingDirectory
  match readInput surroundings root input with
  | .error error => (.error error, [])
  | .ok (text, origin) =>
      match Link.linkSource settings.passes origin text
          ⟨.directory root surroundings.disk [], #[]⟩ with
      | .ok tree session => (.ok tree, session.journal.toList)
      | .error error session => (.error (.link error), session.journal.toList)

/-- End a run with a reported error. -/
def reported (message : String) : Outcome :=
  { ending := .exit 1, errorOutput := errorLine message }

/-- End a run because of its arguments. -/
def refused (error : UsageError) : Outcome :=
  { ending := .exit 2, errorOutput := line ("swl: error: " ++ error.message) }

/-- End a run that cannot read a file.  Only what the system reports is passed on. -/
def readFailure (input : String) (fault : DiskFault) (error : RunError) : Outcome :=
  if fault.isSystemFault then reported s!"cannot read {input}: {fault.reason}"
  else { ending := .broken error }

/-- End a run without a linked module. -/
def inputFailure (input : String) : InputError → Outcome
  | .unreadable fault => readFailure input fault (.input (Path.ofText input) fault)
  | .undecodable fault => reported (s!"{input} is not valid UTF-8: " ++ fault.reason.message)
  | .link (.importUnreadable file fault) =>
      readFailure input fault (.link (.importUnreadable file fault))
  | .link error =>
      if error.isNumberLimit then { ending := .broken (.link error) }
      else reported error.message

/-- End a run with something to write. -/
def deliver (disk : Disk) (output : String) (bytes : Bytes) : Outcome :=
  if output = "-" then { ending := .exit 0, output := bytes }
  else
    let path := Path.ofText output
    match disk.write path bytes with
    | .error fault => { ending := .broken (.write path fault) }
    | .ok _ => { ending := .exit 0, written := some (path, bytes) }

/-- End a run with a linked module, and what happens on the way. -/
def finish (surroundings : Surroundings) (settings : Settings) (output : String)
    (module : Tree) : Outcome × List Event :=
  if settings.emitBinary then
    let encoded := encode surroundings.programs surroundings.encoderFiles surroundings.disk
      settings.encoder settings.encoderFlags module.print
    let name := settings.encoder.name
    let outcome :=
      match encoded.result with
      | .error (.noOutput _) => reported s!"encoder {name} is not installed"
      | .error (.rejected errorOutput) => reported (s!"{name} failed:\n" ++ errorOutput)
      | .error (.broken error) => { ending := .broken (.encoder error) }
      | .ok bytes => deliver encoded.disk output bytes
    ({ outcome with encoderDisk := some encoded.disk }, [encoded.event])
  else
    let text := if settings.pretty then module.prettyPrint 2 else line module.print
    (deliver surroundings.disk output (Text.encodeUtf8 text), [])

/-- Run with settings. -/
def withSettings (surroundings : Surroundings) (arguments : Arguments) (settings : Settings) :
    Outcome :=
  if !settings.encoderFlags.isEmpty && !settings.emitBinary then refused .flagsWithoutBinary
  else
    let started := Event.passes (settings.passes.map Pass.name)
    let (linked, events) := linkInput surroundings settings arguments.input
    let (outcome, later) :=
      match linked with
      | .error error => (inputFailure arguments.input error, [])
      | .ok module => finish surroundings settings arguments.output module
    let journal := started :: events ++ later
    { outcome with
      journal
      errorOutput := eventLines settings.logLevel journal ++ outcome.errorOutput }

/-- Run with arguments.  What is reported about the configuration file is shown
first and without its level. -/
def withArguments (surroundings : Surroundings) (arguments : Arguments) : Outcome :=
  let (loaded, warnings) := fileSettings surroundings.reader surroundings.disk arguments
  let outcome :=
    match loaded.bind (override arguments) with
    | .error error =>
        if error.isReported then reported error.message
        else { ending := .broken (.settings error) }
    | .ok settings => withSettings surroundings arguments settings
  let warningLines := String.join (warnings.map fun event => line event.message)
  { outcome with errorOutput := warningLines ++ outcome.errorOutput }

/-- What the command says about itself. -/
def help : String :=
  String.join ([
    "usage: swl [-h] [-o OUTPUT] [-c] [--encoder NAME] [--wat2wasm-flags FLAGS]",
    "           [--transform TRANSFORMS] [-r ROOT] [--pretty] [--config CONFIG] [-v]",
    "           [input]",
    "",
    "Preprocess WebAssembly text: file imports, memory sizing, start merging and",
    "form sorting"].map line)

/-- Run the command. -/
def command (surroundings : Surroundings) (arguments : List String) : Outcome :=
  match Arguments.read arguments with
  | .error .helpRequested => { ending := .exit 0, output := Text.encodeUtf8 help }
  | .error (.refused error) => refused error
  | .ok arguments => withArguments surroundings arguments

end Run

end WatLink
