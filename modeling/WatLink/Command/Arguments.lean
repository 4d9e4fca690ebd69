import WatLink.Command.Encoder
import WatLink.Numeral.Integer
import WatLink.Text.DecimalDigit

/-!
# Command-line arguments

Arguments are options and at most one input.  Every argument is first told to be
an option or not, and then the arguments are gone through from left to right.
Long options may be abbreviated as long as one option alone is meant, and may
carry their value behind an equals sign; short options may be run together.
Two dashes end the options.
-/

namespace WatLink

/-- The options of the command line. -/
inductive CommandOption where
  | help
  | output
  | emitBinary
  | encoder
  | encoderFlags
  | transform
  | root
  | pretty
  | config
  | verbose
  deriving DecidableEq, Repr

namespace CommandOption

/-- All options, in the order in which they are matched. -/
def all : List CommandOption :=
  [.help, .output, .emitBinary, .encoder, .encoderFlags, .transform, .root, .pretty, .config,
    .verbose]

/-- The spellings of an option. -/
def spellings : CommandOption → List String
  | .help => ["-h", "--help"]
  | .output => ["-o", "--output"]
  | .emitBinary => ["-c", "--emit-binary"]
  | .encoder => ["--encoder"]
  | .encoderFlags => ["--wat2wasm-flags", "--encoder-flags"]
  | .transform => ["--transform"]
  | .root => ["-r", "--root"]
  | .pretty => ["--pretty"]
  | .config => ["--config"]
  | .verbose => ["-v", "--verbose"]

/-- Whether an option has a value. -/
def takesValue : CommandOption → Bool
  | .output | .encoder | .encoderFlags | .transform | .root | .config => true
  | .help | .emitBinary | .pretty | .verbose => false

/-- Every spelling with its option. -/
def table : List (String × CommandOption) :=
  all.flatMap fun option => option.spellings.map fun spelling => (spelling, option)

/-- The option with a spelling. -/
def ofSpelling? (spelling : String) : Option CommandOption :=
  table.lookup spelling

/-- The name of an option in messages. -/
def label (option : CommandOption) : String :=
  String.intercalate "/" option.spellings

end CommandOption

/-- Why arguments are refused. -/
inductive UsageError where
  | ambiguous (argument : String) (candidates : List String)
  | valueMissing (option : CommandOption)
  /-- An option without a value is given one. -/
  | valueUnwanted (option : CommandOption) (value : String)
  | unknownEncoder (name : String)
  | unrecognized (arguments : List String)
  /-- Encoder flags are given, but nothing is encoded. -/
  | flagsWithoutBinary
  deriving DecidableEq, Repr

/-- The encoder names in alphabetical order. -/
def encoderChoices : List String :=
  [Encoder.wasmTools.name, Encoder.wat2wasm.name]

/-- The wording of a refusal. -/
def UsageError.message : UsageError → String
  | .ambiguous argument candidates =>
      s!"ambiguous option: {argument} could match " ++ String.intercalate ", " candidates
  | .valueMissing option => s!"argument {option.label}: expected one argument"
  | .valueUnwanted option value =>
      s!"argument {option.label}: ignored explicit argument " ++ Text.quoted value
  | .unknownEncoder name =>
      s!"argument {CommandOption.encoder.label}: invalid choice: " ++ Text.quoted name ++
        " (choose from " ++ String.intercalate ", " (encoderChoices.map Text.quoted) ++ ")"
  | .unrecognized arguments =>
      "unrecognized arguments: " ++ String.intercalate " " arguments
  | .flagsWithoutBinary => "encoder flags require --emit-binary"

/-- What the arguments ask for. -/
structure Arguments where
  /-- The path of the input; a dash is the standard input. -/
  input : String := "-"
  /-- The path of the output; a dash is the standard output. -/
  output : String := "-"
  emitBinary : Bool := false
  encoder : Option Encoder := none
  encoderFlags : Option String := none
  transform : Option String := none
  root : Option String := none
  pretty : Bool := false
  config : Option String := none
  verbose : Bool := false

/-- Why no run follows. -/
inductive ArgumentStop where
  | helpRequested
  | refused (error : UsageError)

/-- What an argument is. -/
inductive ArgumentRole where
  | positional
  /-- Two dashes, behind which every argument is positional. -/
  | separator
  /-- An option, whether it is spelled with one dash, and its value if it comes
  with one. -/
  | option (option : CommandOption) (isShort : Bool) (value : Option String)
  /-- Spelled like an option, but none. -/
  | unknown
  deriving DecidableEq, Repr

namespace Arguments

/-- Split characters at the first equals sign. -/
def splitValue (characters : List Char) : List Char × Option (List Char) :=
  let name := characters.takeWhile (· != '=')
  match characters.drop name.length with
  | [] => (name, none)
  | _ :: value => (name, some value)

/-- Whether characters are a negative number: a dash and digits, possibly with
a point before the last of them. -/
def isNegativeNumber : List Char → Bool
  | '-' :: characters =>
      let isDigit := fun character => (Text.decimalDigit? character).isSome
      let number := IntLiteral.dropFinalNewline characters
      let fraction := number.dropWhile isDigit
      (!number.isEmpty && fraction.isEmpty) ||
        (match fraction with
          | '.' :: digits => !digits.isEmpty && digits.all isDigit
          | _ => false)
  | _ => false

/-- The options that an argument may mean by an abbreviation or by a short
option with something behind it, with their spellings. -/
def candidates (characters : List Char) : List (String × ArgumentRole) :=
  match characters with
  | '-' :: '-' :: _ =>
      let (name, value) := splitValue characters
      (CommandOption.table.filter fun entry => List.isPrefixOf name entry.1.toList).map
        fun (spelling, option) => (spelling, .option option false (value.map String.ofList))
  | dash :: letter :: rest =>
      (CommandOption.table.filter fun entry => entry.1 == String.ofList [dash, letter]).map
        fun (spelling, option) => (spelling, .option option true (some (String.ofList rest)))
  | _ => []

/-- Whether a spelling has one dash. -/
def isShortSpelling (characters : List Char) : Bool :=
  (characters.drop 1).head? != some '-'

/-- What an argument before two dashes is. -/
def classify (argument : String) : Except UsageError ArgumentRole :=
  let characters := argument.toList
  let isShort := isShortSpelling characters
  let (name, value) := splitValue characters
  if characters.head? != some '-' then .ok .positional
  else
    match CommandOption.ofSpelling? argument with
    | some option => .ok (.option option isShort none)
    | none =>
        if characters.length = 1 then .ok .positional
        else
          match CommandOption.ofSpelling? (String.ofList name), value with
          | some option, some value => .ok (.option option isShort (some (String.ofList value)))
          | _, _ =>
              match candidates characters with
              | [(_, role)] => .ok role
              | [] =>
                  .ok (if isNegativeNumber characters || characters.contains ' ' then .positional
                    else .unknown)
              | several => .error (.ambiguous argument (several.map (·.1)))

/-- What each of some arguments is. -/
def classifyAll : List String → Except UsageError (List (String × ArgumentRole))
  | [] => .ok []
  | "--" :: rest => .ok (("--", .separator) :: rest.map fun argument => (argument, .positional))
  | argument :: rest => do
      let role ← classify argument
      let roles ← classifyAll rest
      pure ((argument, role) :: roles)

/-- Resolve short options that are run together: the options before the last
one, the last one, and the value that is written behind it. -/
def resolveCluster (option : CommandOption) :
    List Char → Except UsageError (List CommandOption × CommandOption × Option String)
  | [] => .ok ([], option, none)
  | letter :: rest =>
      if option.takesValue then .ok ([], option, some (String.ofList (letter :: rest)))
      else
        match CommandOption.ofSpelling? (String.ofList ['-', letter]) with
        | none => .error (.valueUnwanted option (String.ofList (letter :: rest)))
        | some next =>
            (resolveCluster next rest).map fun (before, last, value) =>
              (option :: before, last, value)

/-- Resolve an option with what is written behind it. -/
def resolveOption (option : CommandOption) (isShort : Bool) (value : Option String) :
    Except UsageError (List CommandOption × CommandOption × Option String) :=
  match value with
  | none => .ok ([], option, none)
  | some value =>
      if option.takesValue then .ok ([], option, some value)
      else if isShort && !value.isEmpty then resolveCluster option value.toList
      else .error (.valueUnwanted option value)

/-- Take an option into account.  The value of one without values is not
looked at. -/
def apply (arguments : Arguments) (option : CommandOption) (value : String) :
    Except ArgumentStop Arguments :=
  match option with
  | .help => .error .helpRequested
  | .output => .ok { arguments with output := value }
  | .emitBinary => .ok { arguments with emitBinary := true }
  | .encoder =>
      match Encoder.ofName? value with
      | some encoder => .ok { arguments with encoder := some encoder }
      | none => .error (.refused (.unknownEncoder value))
  | .encoderFlags => .ok { arguments with encoderFlags := some value }
  | .transform => .ok { arguments with transform := some value }
  | .root => .ok { arguments with root := some value }
  | .pretty => .ok { arguments with pretty := true }
  | .config => .ok { arguments with config := some value }
  | .verbose => .ok { arguments with verbose := true }

/-- Take several options without values into account. -/
def applyAll (arguments : Arguments) (options : List CommandOption) :
    Except ArgumentStop Arguments :=
  options.foldlM (fun arguments option => arguments.apply option "") arguments

/-- Go through classified arguments.  The arguments that have no place so far
are given in reverse. -/
def consume (arguments : Arguments) (inputTaken : Bool) (extras : List String) :
    List (String × ArgumentRole) → Except ArgumentStop Arguments
  | [] =>
      if extras.isEmpty then .ok arguments
      else .error (.refused (.unrecognized extras.reverse))
  | (argument, .unknown) :: rest => consume arguments inputTaken (argument :: extras) rest
  | (_, .option option isShort value) :: rest =>
      match resolveOption option isShort value with
      | .error error => .error (.refused error)
      | .ok (before, last, value) =>
          match last.takesValue, value, rest with
          | true, none, (value, .positional) :: rest =>
              match (arguments.applyAll before).bind (·.apply last value) with
              | .error stop => .error stop
              | .ok arguments => consume arguments inputTaken extras rest
          | true, none, _ => .error (.refused (.valueMissing last))
          | _, value, rest =>
              match (arguments.applyAll before).bind (·.apply last (value.getD "")) with
              | .error stop => .error stop
              | .ok arguments => consume arguments inputTaken extras rest
  | (argument, .positional) :: (separator, .separator) :: rest =>
      if inputTaken then consume arguments true (separator :: argument :: extras) rest
      else consume { arguments with input := argument } true extras rest
  | (argument, .positional) :: rest =>
      if inputTaken then consume arguments true (argument :: extras) rest
      else consume { arguments with input := argument } true extras rest
  | (separator, .separator) :: (argument, .positional) :: rest =>
      if inputTaken then consume arguments true (argument :: separator :: extras) rest
      else consume { arguments with input := argument } true extras rest
  | (separator, .separator) :: rest =>
      if inputTaken then consume arguments true (separator :: extras) rest
      else consume arguments true extras rest

/-- Read the arguments of the command line. -/
def read (arguments : List String) : Except ArgumentStop Arguments :=
  match classifyAll arguments with
  | .error error => .error (.refused error)
  | .ok roles => consume {} false [] roles

end Arguments

end WatLink
