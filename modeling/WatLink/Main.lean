import WatLink.Command.Run
import WatLink.Settings.Yaml

/-!
# The command

The command runs `Run.command` on the part of the file system that the run looks
at.  Which files that is shows only in the run itself, so it is repeated with
the files that it asked for until it asks for nothing new.  Configuration files
are read by `Yaml.read`.  No other programs are started, so encoders count as not
installed.
-/

namespace WatLink
namespace Command

/-- A disk with no access to a place. -/
def forbid (disk : Disk) (parts : List String) : Disk :=
  { disk with
    permission := fun place => if place = parts then .none else disk.permission place }

/-- The files and directories at some paths, as far as they exist. -/
def survey (workingDirectory : Path) (paths : List Path) : IO Disk := do
  let mut disk : Disk := { workingDirectory, files := [], directories := [] }
  for path in paths do
    let place := workingDirectory.resolve path
    try
      let found ← IO.FS.realPath place.toText
      if ← found.isDir then
        disk := { disk with directories := place.parts :: disk.directories }
      else
        let bytes? ← try pure (some (← IO.FS.readBinFile found).toList) catch _ => pure none
        disk := { disk with files := (place.parts, bytes?.getD []) :: disk.files }
        if bytes?.isNone then disk := forbid disk place.parts
    catch _ => pure ()
  return disk

/-- A path with all directories on the way to it. -/
def withAncestors (path : Path) : List Path :=
  (List.range (path.parts.length + 1)).map fun count => ⟨path.anchor, path.parts.take count⟩

/-- The paths that a run with these arguments looks at before it links. -/
def initialPaths (arguments : List String) : List Path :=
  match Arguments.read arguments with
  | .error _ => []
  | .ok arguments =>
      ([arguments.input, arguments.output, Settings.fileName] ++ arguments.config.toList).map
        Path.ofText

/-- The paths that a run tried to import from. -/
def importPaths (outcome : Outcome) : List Path :=
  outcome.journal.filterMap fun event =>
    match event with
    | .reading path => some (Path.ofText path)
    | _ => none

/-- Repeat a run until all files that it asks for are known. -/
partial def settle (workingDirectory : Path) (input : Bytes) (arguments : List String)
    (paths : List Path) : IO Outcome := do
  let disk ← survey workingDirectory (paths.flatMap withAncestors)
  let outcome := Run.command
    { disk, input
      reader := Yaml.read
      programs := fun disk _ _ => (.missing, disk)
      encoderFiles := ⟨Path.ofText "module.wat", Path.ofText "module.wasm"⟩ } arguments
  let missing := (importPaths outcome).filter fun path => !paths.contains path
  if missing.isEmpty then return outcome
  settle workingDirectory input arguments (paths ++ missing.eraseDups)

/-- Whether a run with these arguments reads the standard input. -/
def readsInput (arguments : List String) : Bool :=
  match Arguments.read arguments with
  | .ok arguments => arguments.input == "-"
  | .error _ => false

end Command
end WatLink

open WatLink in
/-- Run the command with the arguments of the process. -/
def main (arguments : List String) : IO UInt32 := do
  let workingDirectory := Path.ofText (← IO.currentDir).toString
  let input ←
    if Command.readsInput arguments then (← IO.getStdin).readBinToEnd else pure ByteArray.empty
  let outcome ← Command.settle workingDirectory input.toList arguments
    (Command.initialPaths arguments)
  IO.eprint outcome.errorOutput
  match outcome.ending with
  | .broken error =>
      IO.eprintln error.message
      return 1
  | .exit code =>
      if let some (path, bytes) := outcome.written then
        IO.FS.writeBinFile path.toText ⟨bytes.toArray⟩
      let stdout ← IO.getStdout
      stdout.write ⟨outcome.output.toArray⟩
      stdout.flush
      return code.toUInt32
