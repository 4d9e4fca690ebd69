import WatLink.Binary64.Spelling
import WatLink.Numeral.Integer

/-!
# Configuration data

A configuration file holds plain data: texts, numbers, truth values, lists and
mappings, and now and then bytes, dates or sets.  A mapping keeps its keys in the
order of their first appearance, and a repeated key takes the last value.
-/

namespace WatLink

/-- A piece of configuration data. -/
inductive Datum where
  | null
  | bool (truth : Bool)
  | int (number : Int)
  | float (number : Binary64)
  | text (content : String)
  | bytes (content : Bytes)
  | list (items : List Datum)
  | mapping (entries : List (Datum × Datum))
  /-- Data of another kind: the name of the kind, how it reads as text, how it is
  shown, and the kind of what keeps it from being looked up, if something does. -/
  | other (kind text shown : String) (unhashable : Option String)
  deriving Inhabited

namespace Datum

/-- The name of the kind of a datum in messages. -/
def kind : Datum → String
  | .null => "NoneType"
  | .bool _ => "bool"
  | .int _ => "int"
  | .float _ => "float"
  | .text _ => "str"
  | .bytes _ => "bytes"
  | .list _ => "list"
  | .mapping _ => "dict"
  | .other kind _ _ _ => kind

/-- The kind of what keeps a datum from being looked up: lists and mappings cannot
be. -/
def unhashable? : Datum → Option String
  | .list _ => some "list"
  | .mapping _ => some "dict"
  | .other _ _ _ unhashable => unhashable
  | _ => none

/-- Whether two scalar data are the same. -/
def sameScalar : Datum → Datum → Bool
  | .null, .null => true
  | .bool first, .bool second => first == second
  | .int first, .int second => first == second
  | .float first, .float second => first.eq second
  | .text first, .text second => first == second
  | .bytes first, .bytes second => first == second
  | _, _ => false

mutual

/-- How a datum is shown inside other data and in messages. -/
def shown : Datum → String
  | .null => "None"
  | .bool truth => if truth then "True" else "False"
  | .int number => decimalNumeral number
  | .float number => number.spell .double
  | .text content => Text.quoted content
  | .bytes content => Text.quotedBytes content
  | .list items => "[" ++ String.intercalate ", " (shownItems items) ++ "]"
  | .mapping entries => "\x7b" ++ String.intercalate ", " (shownEntries entries) ++ "\x7d"
  | .other _ _ shown _ => shown

/-- How the items of a list are shown. -/
def shownItems : List Datum → List String
  | [] => []
  | item :: rest => item.shown :: shownItems rest

/-- How the entries of a mapping are shown. -/
def shownEntries : List (Datum × Datum) → List String
  | [] => []
  | (key, value) :: rest => (key.shown ++ ": " ++ value.shown) :: shownEntries rest

end

mutual

/-- Why a datum cannot be shown: it holds an integer with too many digits. -/
def fault? : Datum → Option NumeralFault
  | .int number =>
      match writeInt number with
      | .error fault => some fault
      | .ok _ => none
  | .list items => faultInItems? items
  | .mapping entries => faultInEntries? entries
  | _ => none

/-- Why the items of a list cannot be shown. -/
def faultInItems? : List Datum → Option NumeralFault
  | [] => none
  | item :: rest => item.fault?.or (faultInItems? rest)

/-- Why the entries of a mapping cannot be shown. -/
def faultInEntries? : List (Datum × Datum) → Option NumeralFault
  | [] => none
  | (key, value) :: rest => (key.fault?.or value.fault?).or (faultInEntries? rest)

end

/-- A datum as text: a text is itself, other data are mostly as they are shown. -/
def asText (datum : Datum) : Except NumeralFault String :=
  match datum, datum.fault? with
  | _, some fault => .error fault
  | .text content, none => .ok content
  | .other _ words _ _, none => .ok words
  | datum, none => .ok datum.shown

/-- Put an entry into a mapping.  A key that is there keeps its position. -/
def insertEntry (key value : Datum) : List (Datum × Datum) → List (Datum × Datum)
  | [] => [(key, value)]
  | entry :: rest =>
      if entry.1.sameScalar key then (entry.1, value) :: rest
      else entry :: insertEntry key value rest

/-- The value of a text key in a mapping. -/
def entry? (entries : List (Datum × Datum)) (key : String) : Option Datum :=
  (entries.find? fun entry => entry.1.sameScalar (.text key)).map (·.2)

end Datum

end WatLink
