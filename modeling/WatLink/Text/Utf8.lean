/-!
# Reading UTF-8

Files hold bytes and sources hold text.  Decoding is strict: overlong forms,
surrogates and code points past the last plane are refused.  A refusal names
the bytes at fault, which are those of the longest start of a well-formed
sequence at the first position where decoding fails, or the single byte there
when nothing starts with it.
-/

namespace WatLink

/-- The contents of a file. -/
abbrev Bytes := List UInt8

namespace Text

/-- Why a byte sequence is not UTF-8. -/
inductive Utf8Reason where
  | invalidStart
  | invalidContinuation
  | unexpectedEnd
  deriving DecidableEq, Repr

/-- The wording of a reason. -/
def Utf8Reason.message : Utf8Reason → String
  | .invalidStart => "invalid start byte"
  | .invalidContinuation => "invalid continuation byte"
  | .unexpectedEnd => "unexpected end of data"

/-- A decoding failure: the bytes at fault, their position and the reason. -/
structure Utf8Fault where
  start : Nat
  culprit : Bytes
  reason : Utf8Reason
  deriving DecidableEq, Repr

/-- The wording of a decoding failure. -/
def Utf8Fault.message (fault : Utf8Fault) : String :=
  match fault.culprit with
  | [byte] =>
      let digits := Nat.toDigits 16 byte.toNat
      let padded := String.ofList (List.replicate (2 - digits.length) '0' ++ digits)
      s!"'utf-8' codec can't decode byte 0x{padded} in position {fault.start}: " ++
        fault.reason.message
  | culprit =>
      let last := fault.start + culprit.length - 1
      s!"'utf-8' codec can't decode bytes in position {fault.start}-{last}: " ++
        fault.reason.message

/-- The inclusive bounds of the second byte of a longer sequence, by its first
byte, and the number of bytes that follow the second one. -/
def continuationBounds? (first : UInt8) : Option (UInt8 × UInt8 × Nat) :=
  if first < 0xC2 then none
  else if first < 0xE0 then some (0x80, 0xBF, 0)
  else if first = 0xE0 then some (0xA0, 0xBF, 1)
  else if first = 0xED then some (0x80, 0x9F, 1)
  else if first < 0xF0 then some (0x80, 0xBF, 1)
  else if first = 0xF0 then some (0x90, 0xBF, 2)
  else if first < 0xF4 then some (0x80, 0xBF, 2)
  else if first = 0xF4 then some (0x80, 0x8F, 2)
  else none

/-- The payload bits of the first byte of a longer sequence. -/
def leadingBits (first : UInt8) : Nat :=
  if first < 0xE0 then first.toNat - 0xC0
  else if first < 0xF0 then first.toNat - 0xE0
  else first.toNat - 0xF0

/-- A sequence under way: where it started, its bytes so far in reverse, the
code point so far, the bounds of the next byte and the bytes after that. -/
structure Utf8Sequence where
  start : Nat
  bytes : Bytes
  codePoint : Nat
  low : UInt8
  high : UInt8
  remaining : Nat

/-- Decode bytes from a position on, given the sequence under way, if any.
The characters read so far are kept in reverse. -/
def decodeUtf8From (position : Nat) (read : List Char) :
    Option Utf8Sequence → Bytes → Except Utf8Fault (List Char)
  | none, [] => .ok read.reverse
  | some pending, [] =>
      .error ⟨pending.start, pending.bytes.reverse, .unexpectedEnd⟩
  | none, byte :: rest =>
      if byte < 0x80 then
        decodeUtf8From (position + 1) (Char.ofNat byte.toNat :: read) none rest
      else
        match continuationBounds? byte with
        | none => .error ⟨position, [byte], .invalidStart⟩
        | some (low, high, remaining) =>
            decodeUtf8From (position + 1) read
              (some ⟨position, [byte], leadingBits byte, low, high, remaining⟩) rest
  | some pending, byte :: rest =>
      if byte < pending.low ∨ pending.high < byte then
        .error ⟨pending.start, pending.bytes.reverse, .invalidContinuation⟩
      else
        let codePoint := pending.codePoint * 64 + (byte.toNat - 0x80)
        match pending.remaining with
        | 0 => decodeUtf8From (position + 1) (Char.ofNat codePoint :: read) none rest
        | remaining + 1 =>
            decodeUtf8From (position + 1) read
              (some ⟨pending.start, byte :: pending.bytes, codePoint, 0x80, 0xBF, remaining⟩)
              rest

/-- The text that a byte sequence encodes. -/
def decodeUtf8 (bytes : Bytes) : Except Utf8Fault String :=
  (decodeUtf8From 0 [] none bytes).map String.ofList

/-- The UTF-8 encoding of a text. -/
def encodeUtf8 (text : String) : Bytes :=
  text.toUTF8.toList

end Text
end WatLink
