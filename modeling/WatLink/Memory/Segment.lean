import WatLink.Memory.Declaration

/-!
# Data segments

A data segment is active if it names a memory or has an offset; it then writes
its string literals into a memory when the module starts.  Without an offset it
writes at address zero, and without a memory into the first one.  The range it
writes is known if its offset is a constant.
-/

namespace WatLink

/-- An active data segment: its form, the memory it refers to, its offset if
that is a constant, and the number of bytes it writes. -/
structure Segment where
  form : Tree
  memory : String
  offset : Option Nat
  size : Nat

/-- The address behind the last byte of a segment. -/
def Segment.finish (segment : Segment) : Nat :=
  segment.offset.getD 0 + segment.size

/-- The width of the constants that an instruction makes. -/
def constantWidth? (instruction : String) : Option Width :=
  if instruction = "i32.const" then some .w32
  else if instruction = "i64.const" then some .w64
  else none

/-- The address that the words of an instruction denote, if it makes an integer
constant. -/
def offsetOfWords : List Tree → Except NumeralFault (Option Nat)
  | [.atom instruction, .atom text] =>
      match constantWidth? instruction with
      | some width =>
          if isIntLiteral text then
            (parseInt text).map fun number => some (BitVec.ofInt width.bits number).toNat
          else .ok none
      | none => .ok none
  | _ => .ok none

/-- The address that an offset expression denotes, or `none` if it is not a
constant.  The expression may be wrapped in `(offset ...)`, with or without
parentheses of its own. -/
def constantOffset : Tree → Except NumeralFault (Option Nat)
  | .atom _ => .ok none
  | .list [.atom tag, .list items] =>
      if tag = "offset" then constantOffset (.list items) else .ok none
  | .list (.atom tag :: words) =>
      if tag = "offset" then offsetOfWords words else offsetOfWords (.atom tag :: words)
  | .list items => offsetOfWords items

/-- The number of bytes that the string literals among some atoms denote. -/
def literalsLength : List String → Except EscapeFault Nat
  | [] => .ok 0
  | text :: rest =>
      match unquoted? text with
      | none => literalsLength rest
      | some body =>
          match StringLiteral.byteLength body with
          | .error fault => .error fault
          | .ok length => (literalsLength rest).map (length + ·)

/-- The offset expression of a data form: an `(offset ...)` list, or else the
first list that is neither a memory use nor an import. -/
def offsetExpression? (form : Tree) : Option Tree :=
  form.find? ["offset"] <|> form.forms.find? fun item => !item.hasTagIn ["memory", "import"]

/-- The memory that a data form refers to, given its memory use. -/
def memoryReference (form : Tree) : Option Tree → Except LinkError String
  | none => .ok "0"
  | some (.list [_, .atom reference]) => .ok reference
  | some _ => .error (.malformedForm .memoryUse form)

/-- The number of bytes of a data form's string literals. -/
def segmentSize (form : Tree) : Except LinkError Nat :=
  match literalsLength form.atoms with
  | .ok size => .ok size
  | .error .negativeBeyondWord => .error .escapeBeyondWord
  | .error fault => .error (.malformedForm (.stringLiteral fault) form)

/-- The active segment that a top-level form is, if it is one. -/
def Segment.ofForm? (form : Tree) : Except LinkError (Option Segment) :=
  if form.hasTag "data" then
    let memoryUse? := form.find? ["memory"]
    match offsetExpression? form, memoryUse? with
    | none, none => .ok none
    | expression?, memoryUse? => do
        let memory ← memoryReference form memoryUse?
        let size ← segmentSize form
        let offset ←
          match expression? with
          | none => .ok (some 0)
          | some expression => (constantOffset expression).mapError LinkError.numeral
        .ok (some ⟨form, memory, offset, size⟩)
  else .ok none

/-- The active segments among some forms up to the first malformed one, and its
error. -/
def Segment.ofForms : List Tree → List Segment × Option LinkError
  | [] => ([], none)
  | form :: rest =>
      match ofForm? form with
      | .error error => ([], some error)
      | .ok none => ofForms rest
      | .ok (some segment) =>
          let (segments, error?) := ofForms rest
          (segment :: segments, error?)

end WatLink
