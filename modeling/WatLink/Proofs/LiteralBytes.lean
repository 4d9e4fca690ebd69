import WatLink.Proofs.StringEscapes

/-!
# Bytes of string literals

The body of a string literal is written element by element: a character, or an
escape for one byte or one code point.  Every element denotes bytes of its own,
and no element can be read as part of another, so a body denotes at most one
sequence of bytes.  Counting the bytes of a body needs no look back: behind a part
that can be counted, the rest is counted as if it stood alone.
-/

namespace WatLink.StringLiteral

/-- The UTF-8 encoding of a code point.  A surrogate is no character and is encoded
like the code points around it. -/
def encodeCodePoint (point : Nat) : Bytes :=
  if 0xD800 ≤ point ∧ point < 0xE000 then
    [0xED, .ofNat (0x80 + point / 64 % 64), .ofNat (0x80 + point % 64)]
  else String.utf8EncodeChar (Char.ofNat point)

/-- The bytes that letters behind a backslash stand for. -/
def controlBytes : List (Char × UInt8) :=
  [('t', 0x09), ('n', 0x0A), ('r', 0x0D), ('"', 0x22), ('\'', 0x27), ('\\', 0x5C)]

/-- The number that the hexadecimal digits among some characters spell. -/
def hexValue (characters : List Char) : Nat :=
  Radix.hexadecimal.value (characters.filterMap Radix.hexadecimal.digit?)

/-- An element of a body.  The braces of a code point hold digits, between which
underscores may stand. -/
inductive Element where
  | plain (character : Char) (unescaped : character ≠ '\\')
  | control (letter : Char) (byte : UInt8) (listed : (letter, byte) ∈ controlBytes)
  | byte (high low : Char) (isHigh : isHexDigit high = true) (isLow : isHexDigit low = true)
  | codePoint (braces : List Char)
      (digits : ∀ character ∈ braces, isHexDigit character = true ∨ character = '_')
      (nonempty : ∃ character ∈ braces, isHexDigit character = true)
      (small : hexValue braces ≤ 0x10FFFF)

namespace Element

/-- How an element is written. -/
def spelling : Element → List Char
  | .plain character _ => [character]
  | .control letter _ _ => ['\\', letter]
  | .byte high low _ _ => ['\\', high, low]
  | .codePoint braces _ _ _ => '\\' :: 'u' :: '\x7b' :: (braces ++ ['\x7d'])

/-- The bytes that an element denotes. -/
def bytes : Element → Bytes
  | .plain character _ => String.utf8EncodeChar character
  | .control _ value _ => [value]
  | .byte high low _ _ => [.ofNat (hexValue [high, low])]
  | .codePoint braces _ _ _ => encodeCodePoint (hexValue braces)

end Element

/-- Whether a body is written with elements that denote some bytes. -/
def Spells (body : String) (bytes : Bytes) : Prop :=
  ∃ elements : List Element, body.toList = elements.flatMap Element.spelling ∧
    bytes = elements.flatMap Element.bytes

/-! ## Code points in braces -/

theorem mem_of_isHexDigit {character : Char} (isDigit : isHexDigit character = true) :
    character ∈ "0123456789abcdefABCDEF".toList := by
  have listed : ∀ number < 128, isHexDigit (Char.ofNat number) = true →
      Char.ofNat number ∈ "0123456789abcdefABCDEF".toList := by
    decide
  have small : character.toNat < 128 := by
    obtain ⟨digit, isDigit⟩ := Option.isSome_iff_exists.mp isDigit
    obtain ⟨ranged, -⟩ := Option.filter_eq_some_iff.mp isDigit
    split at ranged
    · rename_i range
      exact lt_of_le_of_lt (Char.le_def.mp range.2) (by decide)
    · split at ranged
      · rename_i range
        exact lt_of_le_of_lt (Char.le_def.mp range.2) (by decide)
      · split at ranged
        · rename_i range
          exact lt_of_le_of_lt (Char.le_def.mp range.2) (by decide)
        · cases ranged
  rw [← Char.ofNat_toNat character] at isDigit ⊢
  exact listed _ small isDigit

/-- What holds of the twenty-two digits holds of every digit. -/
theorem forall_isHexDigit {test : Char → Bool}
    (passes : "0123456789abcdefABCDEF".toList.all test = true) {character : Char}
    (isDigit : isHexDigit character = true) : test character = true :=
  List.all_eq_true.mp passes character (mem_of_isHexDigit isDigit)

theorem numberCharacters_of_digits {digits : List Char}
    (areDigits : ∀ character ∈ digits, isHexDigit character = true) :
    Text.numberCharacters digits = digits := by
  apply Text.numberCharacters_eq_self
  · intro character member
    have notBlank : (!Text.isNumberBlank character) = true :=
      @forall_isHexDigit (!Text.isNumberBlank ·) (by decide) _ (areDigits character member)
    simpa using notBlank
  · intro character member digit isDigit
    have plain := @forall_isHexDigit (fun letter => (Text.decimalDigit? letter).all
      fun number => Char.ofNat ('0'.toNat + number) == letter) (by decide) _
      (areDigits character member)
    simpa [isDigit] using plain

theorem readCodePoint?_of_digits {digits : List Char} (nonempty : digits ≠ [])
    (areDigits : ∀ character ∈ digits, isHexDigit character = true) :
    readCodePoint? digits = some (hexValue digits : Int) := by
  have noMark : ∀ character ∈ digits, character ≠ '-' ∧ character ≠ '+' ∧ character ≠ 'x' ∧
      character ≠ 'X' := by
    intro character member
    simpa using @forall_isHexDigit (fun letter => letter != '-' && (letter != '+' &&
      (letter != 'x' && letter != 'X'))) (by decide) _ (areDigits character member)
  have taken : Text.spanDigits .hexadecimal digits =
      (digits.filterMap Radix.hexadecimal.digit?, []) := by
    have allDigits : ∀ character ∈ digits, (Radix.hexadecimal.digit? character).isSome = true :=
      areDigits
    simp [Text.spanDigits, List.takeWhile_eq_self_iff.mpr allDigits,
      List.dropWhile_eq_nil_iff.mpr allDigits]
  obtain ⟨first, rest, rfl⟩ := List.exists_cons_of_ne_nil nonempty
  obtain ⟨digit, isDigit⟩ := Option.isSome_iff_exists.mp (areDigits first (by simp))
  have unsigned : Text.spanSign (first :: rest) = (false, first :: rest) := by
    simp [Text.spanSign, noMark first]
  rw [List.filterMap_cons_some isDigit] at taken
  have value_eq : hexValue (first :: rest) =
      Radix.hexadecimal.value (digit :: rest.filterMap Radix.hexadecimal.digit?) := by
    rw [hexValue, List.filterMap_cons_some isDigit]
  rw [value_eq]
  cases rest with
  | nil => simp [readCodePoint?, numberCharacters_of_digits areDigits, unsigned, taken]
  | cons second rest =>
      have ⟨_, _, notSmall, notLarge⟩ := noMark second (by simp)
      simp [readCodePoint?, numberCharacters_of_digits areDigits, unsigned, notSmall, notLarge, taken]

theorem codePoint?_of_digits {braces : List Char}
    (digits : ∀ character ∈ braces, isHexDigit character = true ∨ character = '_')
    (nonempty : ∃ character ∈ braces, isHexDigit character = true) :
    codePoint? braces = some (hexValue braces : Int) := by
  have kept : ∀ character ∈ braces.filter (· != '_'), isHexDigit character = true := by
    intro character member
    obtain ⟨inBraces, notUnderscore⟩ := List.mem_filter.mp member
    exact (digits character inBraces).resolve_right (by simpa using notUnderscore)
  have remains : braces.filter (· != '_') ≠ [] := by
    obtain ⟨character, inBraces, isDigit⟩ := nonempty
    have notUnderscore := @forall_isHexDigit (· != '_') (by decide) _ isDigit
    exact List.ne_nil_of_mem (List.mem_filter.mpr ⟨inBraces, notUnderscore⟩)
  have sameDigits : (braces.filter (· != '_')).filterMap Radix.hexadecimal.digit? =
      braces.filterMap Radix.hexadecimal.digit? := by
    rw [List.filterMap_filter]
    apply List.filterMap_congr
    intro character _
    split
    · rfl
    · rename_i isUnderscore
      obtain rfl : character = '_' := by simpa using isUnderscore
      rfl
  rw [codePoint?, readCodePoint?_of_digits remains kept, hexValue, hexValue, sameDigits]

/-! ## Counting elements -/

theorem utf8Size_eq_codePointLength (character : Char) :
    character.utf8Size = codePointLength character.toNat := by
  have bound : ∀ {number : Nat} (fits : number < 2 ^ 32),
      character.val ≤ UInt32.ofNatLT number fits ↔ character.toNat < number + 1 := by
    intro number fits
    rw [UInt32.le_iff_toNat_le, UInt32.toNat_ofNatLT, Nat.lt_succ_iff]
    rfl
  simp only [Char.utf8Size, codePointLength, bound]

theorem length_encodeCodePoint {point : Nat} (small : point ≤ 0x10FFFF) :
    (encodeCodePoint point).length = codePointLength point := by
  unfold encodeCodePoint
  split
  · rename_i surrogate
    simp only [codePointLength, List.length_cons, List.length_nil]
    rw [if_neg (by omega), if_neg (by omega), if_pos (by omega)]
  · rename_i scalar
    have isValid : point.isValidChar := by
      simp only [Nat.isValidChar]
      omega
    rw [String.length_utf8EncodeChar, utf8Size_eq_codePointLength, Char.toNat_ofNat, if_pos isValid]

theorem isSimpleEscape_of_mem {letter : Char} {byte : UInt8}
    (listed : (letter, byte) ∈ controlBytes) : isSimpleEscape letter = true := by
  have letters : ∀ pair ∈ controlBytes, isSimpleEscape pair.1 = true := by decide
  exact letters _ listed

theorem not_mem_braces {braces : List Char}
    (digits : ∀ character ∈ braces, isHexDigit character = true ∨ character = '_') :
    '\x7d' ∉ braces := by
  intro member
  rcases digits _ member with isDigit | isUnderscore
  · exact absurd isDigit (by decide)
  · exact absurd isUnderscore (by decide)

/-- An element is read as a body of its own. -/
theorem Element.denotes (element : Element) : Denotes element.spelling element.bytes.length := by
  cases element with
  | plain character unescaped =>
      rw [spelling, bytes, String.length_utf8EncodeChar]
      exact .character unescaped .nil
  | control letter value listed => exact .control (isSimpleEscape_of_mem listed) .nil
  | byte high low isHigh isLow => exact .byte isHigh isLow .nil
  | codePoint braces digits nonempty small =>
      rw [spelling, bytes, length_encodeCodePoint small]
      exact .codePoint (not_mem_braces digits) (codePoint?_of_digits digits nonempty) (by omega)
        (by omega) .nil

theorem denotes_elements (elements : List Element) :
    Denotes (elements.flatMap Element.spelling) (elements.flatMap Element.bytes).length := by
  induction elements with
  | nil => exact .nil
  | cons element rest ih =>
      rw [List.flatMap_cons, List.flatMap_cons, List.length_append]
      exact element.denotes.append ih

/-- Behind a part that can be counted, the rest is counted as if it stood alone. -/
theorem byteLength_append {first : String} {length : Nat} (counted : byteLength first = .ok length)
    (second : String) : byteLength (first ++ second) = (byteLength second).map (length + ·) := by
  have denotes := byteLength_eq_ok_iff.mp counted
  cases outcome : byteLength second with
  | ok length' =>
      refine byteLength_eq_ok_iff.mpr ?_
      rw [String.toList_append]
      exact denotes.append (byteLength_eq_ok_iff.mp outcome)
  | error fault =>
      obtain ⟨front, rest, length', split, denotes', malformed⟩ :=
        byteLength_eq_error_iff.mp outcome
      refine byteLength_eq_error_iff.mpr ⟨_, rest, _, ?_, denotes.append denotes', malformed⟩
      rw [String.toList_append, split, List.append_assoc]

/-- Counting the bytes of a body is additive: behind a part that can be counted, the
rest adds its own count or fails with its own fault.  A body that is written with
elements counts as many bytes as its elements denote. -/
theorem byteLength_additive_and_counts_bytes :
    (∀ (first second : String) (length : Nat), byteLength first = .ok length →
      (∀ total, byteLength (first ++ second) = .ok total ↔
        ∃ length', byteLength second = .ok length' ∧ total = length + length') ∧
      ∀ fault, byteLength (first ++ second) = .error fault ↔ byteLength second = .error fault) ∧
    ∀ elements : List Element,
      byteLength (String.ofList (elements.flatMap Element.spelling)) =
        .ok (elements.flatMap Element.bytes).length := by
  refine ⟨fun first second length counted => ?_, fun elements => ?_⟩
  · rw [byteLength_append counted second]
    cases byteLength second with
    | ok length' => simp [Except.map, eq_comm]
    | error fault => simp [Except.map]
  · rw [byteLength_eq_ok_iff, String.toList_ofList]
    exact denotes_elements elements

/-- An emoji written as a code point, in front of a byte and of a broken escape. -/
theorem byteLength_emoji_and_byte :
    byteLength "\\u\x7b1F_600\x7d" = .ok 4 ∧ byteLength "\\u\x7b1F_600\x7d\\e9" = .ok 5 ∧
      byteLength "\\u\x7b1F_600\x7d\\u" = .error .malformedUnicode := by
  have emoji : byteLength "\\u\x7b1F_600\x7d" = .ok 4 := by decide +kernel
  refine ⟨emoji, ?_, ?_⟩
  · exact ((byteLength_additive_and_counts_bytes.1 _ "\\e9" 4 emoji).1 5).mpr ⟨1, rfl, rfl⟩
  · exact ((byteLength_additive_and_counts_bytes.1 _ "\\u" 4 emoji).2 _).mpr rfl

/-! ## Decoding -/

theorem controlByte_eq {letter : Char} {byte byte' : UInt8} (listed : (letter, byte) ∈ controlBytes)
    (listed' : (letter, byte') ∈ controlBytes) : byte = byte' := by
  have keyed : ∀ first ∈ controlBytes, ∀ second ∈ controlBytes, first.1 = second.1 →
      first.2 = second.2 := by
    decide
  exact keyed _ listed _ listed' rfl

/-- No element can be read as part of another. -/
theorem Element.eq_of_spelling_append {first second : Element} {rest rest' : List Char}
    (same : first.spelling ++ rest = second.spelling ++ rest') :
    first.bytes = second.bytes ∧ rest = rest' := by
  have unlike : isHexDigit 'u' = false := by decide
  cases first with
  | plain character unescaped =>
      cases second with
      | plain other _ =>
          obtain ⟨rfl, rfl⟩ := List.cons.inj same
          exact ⟨rfl, rfl⟩
      | control | byte | codePoint => exact absurd (List.cons.inj same).1 unescaped
  | control letter value listed =>
      obtain ⟨notHex, notUnicode⟩ := isHexDigit_of_isSimpleEscape (isSimpleEscape_of_mem listed)
      cases second with
      | plain other unescaped => exact absurd (List.cons.inj same).1.symm unescaped
      | control letter' value' listed' =>
          obtain ⟨rfl, rfl⟩ := List.cons.inj (List.cons.inj same).2
          exact ⟨congrArg (fun byte => [byte]) (controlByte_eq listed listed'), rfl⟩
      | byte high low isHigh _ =>
          obtain ⟨rfl, -⟩ := List.cons.inj (List.cons.inj same).2
          simp [isHigh] at notHex
      | codePoint => exact absurd (List.cons.inj (List.cons.inj same).2).1 notUnicode
  | byte high low isHigh isLow =>
      cases second with
      | plain other unescaped => exact absurd (List.cons.inj same).1.symm unescaped
      | control letter value listed =>
          obtain ⟨rfl, -⟩ := List.cons.inj (List.cons.inj same).2
          have notHex := (isHexDigit_of_isSimpleEscape (isSimpleEscape_of_mem listed)).1
          simp [isHigh] at notHex
      | byte high' low' _ _ =>
          simp only [spelling, List.cons_append, List.nil_append, List.cons.injEq, true_and] at same
          obtain ⟨rfl, rfl, rfl⟩ := same
          exact ⟨rfl, rfl⟩
      | codePoint =>
          obtain ⟨rfl, -⟩ := List.cons.inj (List.cons.inj same).2
          simp [isHigh] at unlike
  | codePoint braces digits _ _ =>
      cases second with
      | plain other unescaped => exact absurd (List.cons.inj same).1.symm unescaped
      | control letter value listed =>
          exact absurd (List.cons.inj (List.cons.inj same).2).1.symm
            (isHexDigit_of_isSimpleEscape (isSimpleEscape_of_mem listed)).2
      | byte high low isHigh _ =>
          obtain ⟨rfl, -⟩ := List.cons.inj (List.cons.inj same).2
          simp [isHigh] at unlike
      | codePoint braces' digits' _ _ =>
          simp only [spelling, List.cons_append, List.append_assoc, List.nil_append,
            List.cons.injEq, true_and] at same
          -- both escapes reach up to the first closing brace
          have upToBrace : ∀ {inside : List Char} (behind : List Char), '\x7d' ∉ inside →
              (inside ++ '\x7d' :: behind).takeWhile (· != '\x7d') = inside := by
            intro inside behind notMem
            have others : ∀ character ∈ inside, (character != '\x7d') = true := by
              intro character member
              exact bne_iff_ne.mpr (ne_of_mem_of_not_mem member notMem)
            simp [List.takeWhile_append_of_pos others]
          have sameBraces := congrArg (List.takeWhile (· != '\x7d')) same
          rw [upToBrace rest (not_mem_braces digits), upToBrace rest' (not_mem_braces digits')]
            at sameBraces
          subst sameBraces
          exact ⟨rfl, (List.cons.inj (List.append_cancel_left same)).2⟩

theorem Element.spelling_ne_nil (element : Element) : element.spelling ≠ [] := by
  cases element <;> simp [spelling]

theorem bytes_eq_of_spelling {elements elements' : List Element}
    (same : elements.flatMap Element.spelling = elements'.flatMap Element.spelling) :
    elements.flatMap Element.bytes = elements'.flatMap Element.bytes := by
  induction elements generalizing elements' with
  | nil =>
      cases elements' with
      | nil => rfl
      | cons element rest => simp [element.spelling_ne_nil] at same
  | cons element rest ih =>
      cases elements' with
      | nil => simp [element.spelling_ne_nil] at same
      | cons element' rest' =>
          rw [List.flatMap_cons, List.flatMap_cons] at same
          obtain ⟨sameFirst, sameRest⟩ := Element.eq_of_spelling_append same
          rw [List.flatMap_cons, List.flatMap_cons, sameFirst, ih sameRest]

/-- A body denotes at most one sequence of bytes. -/
theorem Spells.unique {body : String} {bytes bytes' : Bytes} (spells : Spells body bytes)
    (spells' : Spells body bytes') : bytes = bytes' := by
  obtain ⟨elements, same, rfl⟩ := spells
  obtain ⟨elements', same', rfl⟩ := spells'
  exact bytes_eq_of_spelling (same.symm.trans same')

end WatLink.StringLiteral
