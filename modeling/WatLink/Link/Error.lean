import WatLink.Constant.Evaluation
import WatLink.Link.Pass
import WatLink.Store.Disk
import WatLink.StringLiteral
import WatLink.Tree.Reader

/-!
# Link errors

Every way in which linking can fail, with what its message tells.  The wording
of messages is kept apart from the causes, in `Message`.
-/

namespace WatLink

namespace Message

/-- A defect of a source text at a place. -/
def located (source : Option String) (line column : Int) (reason : String) (offset : Int) :
    String :=
  let origin :=
    match source with
    | some name => if name.isEmpty then "" else name ++ ":"
    | none => ""
  s!"{origin}{line}:{column}: {reason} (byte offset {offset})"

/-- A path that the store does not serve. -/
def notFound (path : String) : String :=
  "Imported file not found: " ++ path

/-- A chain of imports whose last path closes a cycle. -/
def cyclicImport (chain : List String) : String :=
  "Cyclic import: " ++ String.intercalate " -> " chain

/-- A memory reference that names no memory. -/
def undeclaredMemory (reference : String) : String :=
  "Data segment targets undeclared memory " ++ reference

/-- A memory whose data exceeds its maximum. -/
def memoryLimit (label : String) (required maximum : String) : String :=
  s!"Memory {label} needs {required} pages but declares a maximum of {maximum}"

/-- A generated identifier for which no free name is left. -/
def identifierTaken (identifier : String) : String :=
  s!"Generated identifier {identifier} is already in use"

/-- A pass name that is not known, as it is shown. -/
def unknownPassShown (shown : String) (known : List String) : String :=
  let names := String.intercalate ", " known
  "Unknown pass name " ++ shown ++ (if known.isEmpty then "" else s!" (known passes: {names})")

/-- A pass name that is not known. -/
def unknownPass (name : String) (known : List String) : String :=
  unknownPassShown (Text.quoted name) known

/-- A root that is no module. -/
def notAModule : String :=
  "Expected a top-level (module ...) form"

/-- A form that does not have the shape it needs. -/
def malformed (reason form : String) : String :=
  if form.isEmpty then reason else reason ++ ": " ++ form

end Message

/-- The wording of the refusal to unquote an atom that is no string literal. -/
def notAStringLiteral (text : String) : String :=
  "Atom " ++ Text.quoted text ++ " is not a string literal"

/-- What is wrong with a recognized form. -/
inductive FormDefect where
  | filePath
  | rawPath
  | startTarget
  | memoryUse
  | stringLiteral (fault : EscapeFault)
  deriving DecidableEq, Repr

/-- The wording of a defect. -/
def FormDefect.message : FormDefect → String
  | .filePath => "File import expects a string path"
  | .rawPath => "Raw import expects a string path"
  | .startTarget => "Start entry must name exactly one function"
  | .memoryUse => "Malformed memory reference in data segment"
  | .stringLiteral fault => fault.message

/-- Why linking fails. -/
inductive LinkError where
  /-- The source is malformed. -/
  | malformedSource (source : Option String) (error : SyntaxError)
  /-- The root file is not UTF-8. -/
  | undecodableSource (fault : Text.Utf8Fault)
  /-- An imported file is malformed. -/
  | malformedImport (path : String) (error : SyntaxError)
  /-- An imported file is not UTF-8. -/
  | undecodableImport (path : String) (fault : Text.Utf8Fault)
  | importNotFound (path : String)
  /-- An imported file is there but cannot be read. -/
  | importUnreadable (file : String) (fault : DiskFault)
  | cyclicImport (chain : List String)
  /-- An imported file is no module. -/
  | importNotAModule (path : String)
  /-- A pass is given something other than a module. -/
  | notAModule (pass : Pass)
  | unknownPass (name : String)
  | malformedForm (defect : FormDefect) (form : Tree)
  | undeclaredMemory (reference : String)
  | memoryLimit (label : String) (required maximum : Int)
  | identifierTaken (identifier : String)
  | constant (error : EvalError)
  /-- An integer cannot be read or written. -/
  | numeral (fault : NumeralFault)
  /-- A code point escape holds a number that no machine word holds. -/
  | escapeBeyondWord

namespace LinkError

/-- The wording of an error. -/
def message : LinkError → String
  | .malformedSource source error =>
      Message.located source error.place.line error.place.column error.fault.message
        error.place.offset
  | .undecodableSource fault => fault.message
  | .malformedImport path error =>
      Message.located (some path) error.place.line error.place.column error.fault.message
        error.place.offset
  | .undecodableImport path fault =>
      Message.located (some path) 1 1 ("Invalid UTF-8: " ++ fault.reason.message) fault.start
  | .importNotFound path => Message.notFound path
  | .importUnreadable file fault => fault.message file
  | .cyclicImport chain => Message.cyclicImport chain
  | .importNotAModule path => s!"Imported file {path} is not a (module ...) form"
  | .notAModule pass =>
      s!"The {pass.name} pass can only be applied to a top-level (module ...) form"
  | .unknownPass name => Message.unknownPass name (Pass.all.map Pass.name)
  | .malformedForm defect form => Message.malformed defect.message form.print
  | .undeclaredMemory reference => Message.undeclaredMemory reference
  | .memoryLimit label required maximum =>
      Message.memoryLimit label (decimalNumeral required) (decimalNumeral maximum)
  | .identifierTaken identifier => Message.identifierTaken identifier
  | .constant error => error.message
  | .numeral fault => fault.message
  | .escapeBeyondWord => EscapeFault.negativeBeyondWord.message

end LinkError

end WatLink
