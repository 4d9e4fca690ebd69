import WatLink.Link.Journal
import WatLink.Store.Disk

/-!
# Encoders

The linked text is turned into a binary by an external tool.  The tool reads a
file and writes another one; here it is a function from the disk, its command line
and the text in its input file to what becomes of the process and of the disk.
-/

namespace WatLink

/-- The encoders that can be used. -/
inductive Encoder where
  | wat2wasm
  | wasmTools
  deriving DecidableEq, Repr

namespace Encoder

/-- All encoders. -/
def all : List Encoder := [.wat2wasm, .wasmTools]

/-- The name of an encoder and of its program. -/
def name : Encoder → String
  | .wat2wasm => "wat2wasm"
  | .wasmTools => "wasm-tools"

/-- The encoder with a name. -/
def ofName? (name : String) : Option Encoder :=
  all.find? (·.name == name)

/-- The command line that encodes an input file into an output file. -/
def command (encoder : Encoder) (input output : Path) (flags : List String) : List String :=
  let files := [input.toText, "-o", output.toText]
  match encoder with
  | .wat2wasm => encoder.name :: files ++ flags
  | .wasmTools => encoder.name :: "parse" :: files ++ flags

/-- The command line that asks an encoder for its version. -/
def versionCommand (encoder : Encoder) : List String :=
  [encoder.name, "--version"]

end Encoder

/-- The wording of the refusal of an encoder name. -/
def unknownEncoder (name : String) : String :=
  "Unknown encoder " ++ Text.quoted name

/-- An error from outside that nothing in a run is prepared for. -/
structure ForeignError where
  kind : String
  message : String
  deriving DecidableEq, Repr

/-- What becomes of a process. -/
inductive ProcessResult where
  /-- The program is not installed. -/
  | missing
  /-- It ends with an error, having written a text to its error output. -/
  | failed (errorOutput : String)
  /-- It succeeds, and may have written its output file. -/
  | succeeded (output : Option Bytes)
  /-- It cannot be started, what it says is no text, or its output file cannot be
  read. -/
  | broken (error : ForeignError)

/-- External programs: what becomes of a command line on a disk, given the text in
its input file, and the disk that the program leaves.  The input and the output
file are not kept there. -/
abbrev Programs := Disk → List String → String → ProcessResult × Disk

/-- Why encoding fails. -/
inductive EncodingError where
  /-- The program is not installed, or it left no output file. -/
  | noOutput (missing : String)
  /-- The program reports errors. -/
  | rejected (errorOutput : String)
  | broken (error : ForeignError)

/-- The files that are handed to an encoder. -/
structure EncoderFiles where
  input : Path
  output : Path

/-- The outcome of encoding a text: the event of running the encoder, the binary,
and the disk that the encoder leaves. -/
structure Encoded where
  event : Event
  result : Except EncodingError Bytes
  disk : Disk

/-- Encode a text. -/
def encode (programs : Programs) (files : EncoderFiles) (disk : Disk) (encoder : Encoder)
    (flags : List String) (text : String) : Encoded :=
  let command := encoder.command files.input files.output flags
  let (process, left) := programs disk command text
  { event := .runningEncoder command
    result :=
      match process with
      | .missing => .error (.noOutput encoder.name)
      | .failed errorOutput => .error (.rejected errorOutput)
      | .succeeded none => .error (.noOutput files.output.toText)
      | .succeeded (some bytes) => .ok bytes
      | .broken error => .error (.broken error)
    disk := left }

/-- Whether an encoder can be run. -/
def hasEncoder (programs : Programs) (disk : Disk) (encoder : Encoder) :
    Except ForeignError Bool :=
  match (programs disk encoder.versionCommand "").1 with
  | .succeeded _ => .ok true
  | .missing | .failed _ => .ok false
  | .broken error => .error error

end WatLink
