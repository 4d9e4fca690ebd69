import Mathlib
import WatLink.StringLiteral

/-!
# Bodies of string literals

A grammar of the bodies that can be read, with the bytes they denote, and of the
escapes that cannot.  Reading a body gives the number of bytes if the grammar has
it, and else the fault of the first malformed escape, which stands behind a front
that can be read.
-/

namespace WatLink

/-- Characters without blanks and without digits of other scripts are those of the
number. -/
theorem Text.numberCharacters_eq_self {characters : List Char}
    (noBlanks : ∀ character ∈ characters, isNumberBlank character = false)
    (plainDigits : ∀ character ∈ characters, ∀ digit, decimalDigit? character = some digit →
      Char.ofNat ('0'.toNat + digit) = character) : numberCharacters characters = characters := by
  have unblanked : ∀ letters : List Char, (∀ character ∈ letters, isNumberBlank character = false) →
      letters.dropWhile isNumberBlank = letters := by
    intro letters noBlanks
    cases letters with
    | nil => rfl
    | cons first rest => rw [List.dropWhile_cons_of_neg (by simp [noBlanks first])]
  have reversed : ∀ character ∈ characters.reverse, isNumberBlank character = false :=
    fun character member => noBlanks character (List.mem_reverse.mp member)
  simp only [numberCharacters, unblanked _ noBlanks, unblanked _ reversed, List.reverse_reverse]
  calc characters.map _
    _ = characters.map id := by
        apply List.map_congr_left
        intro character member
        cases found : decimalDigit? character with
        | none => rfl
        | some digit => exact plainDigits character member digit found
    _ = characters := List.map_id _

namespace StringLiteral

/-- The number in the braces of a code point escape, which may hold underscores. -/
def codePoint? (braces : List Char) : Option Int :=
  readCodePoint? (braces.filter (· != '_'))

/-- A body that can be read, with the number of bytes that it denotes. -/
inductive Denotes : List Char → Nat → Prop
  | nil : Denotes [] 0
  | character {character : Char} {rest : List Char} {length : Nat} : character ≠ '\\' →
      Denotes rest length → Denotes (character :: rest) (character.utf8Size + length)
  | control {letter : Char} {rest : List Char} {length : Nat} : isSimpleEscape letter = true →
      Denotes rest length → Denotes ('\\' :: letter :: rest) (1 + length)
  | byte {high low : Char} {rest : List Char} {length : Nat} : isHexDigit high = true →
      isHexDigit low = true → Denotes rest length → Denotes ('\\' :: high :: low :: rest) (1 + length)
  | codePoint {braces rest : List Char} {point : Int} {length : Nat} : '\x7d' ∉ braces →
      codePoint? braces = some point → 0 ≤ point → point ≤ 0x10FFFF → Denotes rest length →
        Denotes ('\\' :: 'u' :: '\x7b' :: (braces ++ '\x7d' :: rest))
          (codePointLength point.toNat + length)

/-- The rest of a body that starts with an escape that cannot be read, and why. -/
inductive Malformed : List Char → EscapeFault → Prop
  | ended : Malformed ['\\'] .noCharacter
  | oneDigit {digit : Char} {rest : List Char} : isHexDigit digit = true →
      (∀ next ∈ rest.head?, isHexDigit next = false) → Malformed ('\\' :: digit :: rest) .oneHexDigit
  | noBraces {rest : List Char} : rest.head? ≠ some '\x7b' →
      Malformed ('\\' :: 'u' :: rest) .malformedUnicode
  | openBraces {rest : List Char} : '\x7d' ∉ rest →
      Malformed ('\\' :: 'u' :: '\x7b' :: rest) .malformedUnicode
  | notANumber {braces rest : List Char} : '\x7d' ∉ braces → codePoint? braces = none →
      Malformed ('\\' :: 'u' :: '\x7b' :: (braces ++ '\x7d' :: rest))
        (.notANumber (String.ofList (braces.filter (· != '_'))))
  | outOfRange {braces rest : List Char} {point : Int} : '\x7d' ∉ braces →
      codePoint? braces = some point → 0x10FFFF < point →
        Malformed ('\\' :: 'u' :: '\x7b' :: (braces ++ '\x7d' :: rest)) (.outOfRange point.toNat)
  | negative {braces rest : List Char} {point : Int} : '\x7d' ∉ braces →
      codePoint? braces = some point → point < 0 → -2 ^ 31 ≤ point →
        Malformed ('\\' :: 'u' :: '\x7b' :: (braces ++ '\x7d' :: rest)) .negative
  | negativeBeyondWord {braces rest : List Char} {point : Int} : '\x7d' ∉ braces →
      codePoint? braces = some point → point < -2 ^ 31 →
        Malformed ('\\' :: 'u' :: '\x7b' :: (braces ++ '\x7d' :: rest)) .negativeBeyondWord
  | unknown {letter : Char} {rest : List Char} : isHexDigit letter = false → letter ≠ 'u' →
      isSimpleEscape letter = false → Malformed ('\\' :: letter :: rest) (.unknown letter)

/-! ## Reading the grammar -/

theorem isHexDigit_of_isSimpleEscape {letter : Char} (simple : isSimpleEscape letter = true) :
    isHexDigit letter = false ∧ letter ≠ 'u' := by
  simp only [isSimpleEscape, List.contains_iff_mem, List.mem_cons, List.not_mem_nil,
    or_false] at simple
  rcases simple with rfl | rfl | rfl | rfl | rfl | rfl <;> decide

theorem countFrom_braces (count : Nat) {braces : List Char} (closed : '\x7d' ∉ braces)
    (read rest : List Char) :
    countFrom count (.braces read) (braces ++ '\x7d' :: rest) =
      (unicodeLength (read.reverse ++ braces)).bind fun length =>
        countFrom (count + length) .plain rest := by
  induction braces generalizing read with
  | nil =>
      cases ending : unicodeLength read.reverse <;> simp [countFrom, ending, Except.bind]
  | cons character braces ih =>
      obtain ⟨different, closed⟩ := List.ne_and_not_mem_of_not_mem_cons closed
      rw [List.cons_append, countFrom, if_neg different.symm, ih closed]
      simp

theorem countFrom_openBraces (count : Nat) {rest : List Char} (unclosed : '\x7d' ∉ rest)
    (read : List Char) : countFrom count (.braces read) rest = .error .malformedUnicode := by
  induction rest generalizing read with
  | nil => rfl
  | cons character rest ih =>
      obtain ⟨different, unclosed⟩ := List.ne_and_not_mem_of_not_mem_cons unclosed
      rw [countFrom, if_neg different.symm, ih unclosed]

/-- Reading an escape with braces around a code point. -/
theorem countFrom_unicode (count : Nat) {braces : List Char} (closed : '\x7d' ∉ braces)
    (rest : List Char) :
    countFrom count .plain ('\\' :: 'u' :: '\x7b' :: (braces ++ '\x7d' :: rest)) =
      (unicodeLength braces).bind fun length => countFrom (count + length) .plain rest := by
  have notHex : isHexDigit 'u' = false := by decide
  rw [countFrom, if_pos rfl, countFrom, notHex, if_neg (by simp), if_pos rfl, countFrom, if_pos rfl,
    countFrom_braces count closed]
  rfl

theorem countFrom_of_denotes {front : List Char} {length : Nat} (denotes : Denotes front length)
    (count : Nat) (rest : List Char) :
    countFrom count .plain (front ++ rest) = countFrom (count + length) .plain rest := by
  induction denotes generalizing count with
  | nil => rfl
  | character plain _ ih =>
      rw [List.cons_append, countFrom, if_neg plain, ih, Nat.add_assoc]
  | control simple _ ih =>
      obtain ⟨notHex, notUnicode⟩ := isHexDigit_of_isSimpleEscape simple
      rw [List.cons_append, List.cons_append, countFrom, if_pos rfl, countFrom, notHex,
        if_neg (by simp), if_neg notUnicode, if_pos simple, ih, Nat.add_assoc]
  | byte high low _ ih =>
      rw [List.cons_append, List.cons_append, List.cons_append, countFrom, if_pos rfl, countFrom,
        if_pos high, countFrom, if_pos low, ih, Nat.add_assoc]
  | @codePoint braces behind point length closed isPoint nonneg small _ ih =>
      have measured : unicodeLength braces = .ok (codePointLength point.toNat) := by
        have read : readCodePoint? (braces.filter (· != '_')) = some point := isPoint
        simp only [unicodeLength, read]
        rw [if_neg (by omega), if_neg (by simp only [Int.pow_eq]; omega), if_neg (by omega)]
      have shape : '\\' :: 'u' :: '\x7b' :: (braces ++ '\x7d' :: behind) ++ rest =
          '\\' :: 'u' :: '\x7b' :: (braces ++ '\x7d' :: (behind ++ rest)) := by simp
      rw [shape, countFrom_unicode count closed, measured]
      simp only [Except.bind, ih, Nat.add_assoc]

theorem countFrom_of_malformed {rest : List Char} {fault : EscapeFault}
    (malformed : Malformed rest fault) (count : Nat) :
    countFrom count .plain rest = .error fault := by
  have notHex : isHexDigit 'u' = false := by decide
  cases malformed with
  | ended => rfl
  | @oneDigit digit rest isDigit noDigit =>
      rw [countFrom, if_pos rfl, countFrom, if_pos isDigit]
      cases rest with
      | nil => rfl
      | cons next rest => simp [countFrom, noDigit next rfl]
  | @noBraces rest noBrace =>
      rw [countFrom, if_pos rfl, countFrom, notHex, if_neg (by simp), if_pos rfl]
      cases rest with
      | nil => rfl
      | cons next rest =>
          rw [countFrom, if_neg (by simpa using noBrace)]
  | openBraces unclosed =>
      rw [countFrom, if_pos rfl, countFrom, notHex, if_neg (by simp), if_pos rfl, countFrom,
        if_pos rfl, countFrom_openBraces count unclosed]
  | @notANumber braces rest closed noPoint =>
      have read : readCodePoint? (braces.filter (· != '_')) = none := noPoint
      simp [countFrom_unicode count closed, unicodeLength, read, Except.bind]
  | @outOfRange braces rest point closed isPoint large =>
      have read : readCodePoint? (braces.filter (· != '_')) = some point := isPoint
      rw [countFrom_unicode count closed]
      simp [unicodeLength, read, large, Except.bind]
  | @negative braces rest point closed isPoint below above =>
      have read : readCodePoint? (braces.filter (· != '_')) = some point := isPoint
      rw [countFrom_unicode count closed]
      simp only [unicodeLength, read]
      rw [if_neg (by omega), if_neg (by simp only [Int.pow_eq]; omega), if_pos below]
      rfl
  | @negativeBeyondWord braces rest point closed isPoint below =>
      have read : readCodePoint? (braces.filter (· != '_')) = some point := isPoint
      rw [countFrom_unicode count closed]
      simp only [unicodeLength, read]
      rw [if_neg (by omega), if_pos (by simp only [Int.pow_eq]; omega)]
      rfl
  | unknown notDigit notUnicode notSimple =>
      rw [countFrom, if_pos rfl, countFrom, notDigit, if_neg (by simp), if_neg notUnicode, notSimple,
        if_neg (by simp)]

/-! ## Every body is read -/

theorem Denotes.append {front rest : List Char} {length length' : Nat}
    (denotes : Denotes front length) (denotes' : Denotes rest length') :
    Denotes (front ++ rest) (length + length') := by
  induction denotes with
  | nil => simpa using denotes'
  | character plain _ ih =>
      rw [Nat.add_assoc]
      exact .character plain ih
  | control simple _ ih =>
      rw [Nat.add_assoc]
      exact .control simple ih
  | byte high low _ ih =>
      rw [Nat.add_assoc]
      exact .byte high low ih
  | codePoint closed isPoint nonneg small _ ih =>
      rw [Nat.add_assoc]
      simpa using Denotes.codePoint closed isPoint nonneg small ih

/-- What stands behind the letter of a code point escape. -/
theorem unicode_cases (rest : List Char) :
    (∃ fault, Malformed ('\\' :: 'u' :: rest) fault) ∨
      ∃ front behind length, rest = front ++ behind ∧ Denotes ('\\' :: 'u' :: front) length := by
  cases rest with
  | nil => exact .inl ⟨_, .noBraces (by simp)⟩
  | cons brace rest =>
      by_cases opens : brace = '\x7b'
      · subst opens
        by_cases closes : '\x7d' ∈ rest
        · obtain ⟨braces, behind, rfl, closed⟩ := List.eq_append_cons_of_mem closes
          cases isPoint : codePoint? braces with
          | none => exact .inl ⟨_, .notANumber closed isPoint⟩
          | some point =>
              -- the four ranges of a number in braces
              rcases lt_or_ge 0x10FFFF point with large | small
              · exact .inl ⟨_, .outOfRange closed isPoint large⟩
              · rcases lt_or_ge point (-2 ^ 31) with below | above
                · exact .inl ⟨_, .negativeBeyondWord closed isPoint below⟩
                · rcases lt_or_ge point 0 with isNegative | nonneg
                  · exact .inl ⟨_, .negative closed isPoint isNegative above⟩
                  · exact .inr ⟨'\x7b' :: (braces ++ ['\x7d']), behind, _, by simp,
                      .codePoint closed isPoint nonneg small .nil⟩
        · exact .inl ⟨_, .openBraces closes⟩
      · exact .inl ⟨_, .noBraces (by simpa using opens)⟩

/-- A body starts with something that can be read or with a malformed escape. -/
theorem next_cases (first : Char) (rest : List Char) :
    (∃ fault, Malformed (first :: rest) fault) ∨
      ∃ front behind length, rest = front ++ behind ∧ Denotes (first :: front) length := by
  by_cases escapes : first = '\\'
  · subst escapes
    cases rest with
    | nil => exact .inl ⟨_, .ended⟩
    | cons letter rest =>
        cases isDigit : isHexDigit letter with
        | true =>
            cases rest with
            | nil => exact .inl ⟨_, .oneDigit isDigit (by simp)⟩
            | cons low rest =>
                cases isLow : isHexDigit low with
                | true => exact .inr ⟨[letter, low], rest, _, rfl, .byte isDigit isLow .nil⟩
                | false => exact .inl ⟨_, .oneDigit isDigit (by simpa using isLow)⟩
        | false =>
            by_cases isUnicode : letter = 'u'
            · subst isUnicode
              rcases unicode_cases rest with malformed | ⟨front, behind, length, rfl, denotes⟩
              · exact .inl malformed
              · exact .inr ⟨'u' :: front, behind, length, rfl, denotes⟩
            · cases isSimple : isSimpleEscape letter with
              | true => exact .inr ⟨[letter], rest, _, rfl, .control isSimple .nil⟩
              | false => exact .inl ⟨_, .unknown isDigit isUnicode isSimple⟩
  · exact .inr ⟨[], rest, _, rfl, .character escapes .nil⟩

/-- A body can be read, or it has a first malformed escape. -/
theorem denotes_or_malformed (body : List Char) :
    (∃ length, Denotes body length) ∨
      ∃ front rest length fault, body = front ++ rest ∧ Denotes front length ∧
        Malformed rest fault := by
  -- the elements are longer than a character, so the induction is on the length
  induction measured : body.length using Nat.strong_induction_on generalizing body with
  | _ size ih =>
      cases body with
      | nil => exact .inl ⟨0, .nil⟩
      | cons first rest =>
          rcases next_cases first rest with ⟨fault, malformed⟩ | ⟨front, behind, length, rfl, denotes⟩
          · exact .inr ⟨[], _, 0, fault, rfl, .nil, malformed⟩
          · have shorter : behind.length < size := by
              simp only [List.length_cons, List.length_append] at measured
              omega
            rcases ih _ shorter behind rfl with
              ⟨length', denotes'⟩ | ⟨front', rest', length', fault, rfl, denotes', malformed⟩
            · exact .inl ⟨_, denotes.append denotes'⟩
            · exact .inr ⟨_, rest', _, fault, by simp, denotes.append denotes', malformed⟩

theorem byteLength_eq_ok_iff {body : String} {length : Nat} :
    byteLength body = .ok length ↔ Denotes body.toList length := by
  have counted : ∀ length', Denotes body.toList length' → byteLength body = .ok length' := by
    intro length' denotes
    simpa [byteLength, countFrom] using countFrom_of_denotes denotes 0 []
  constructor
  · intro measured
    rcases denotes_or_malformed body.toList with
      ⟨length', denotes⟩ | ⟨front, rest, length', fault, split, denotes, malformed⟩
    · cases measured.symm.trans (counted length' denotes)
      exact denotes
    · rw [byteLength, split, countFrom_of_denotes denotes, countFrom_of_malformed malformed] at measured
      cases measured
  · exact counted length

theorem byteLength_eq_error_iff {body : String} {fault : EscapeFault} :
    byteLength body = .error fault ↔
      ∃ front rest length, body.toList = front ++ rest ∧ Denotes front length ∧
        Malformed rest fault := by
  have counted : ∀ front rest length fault', body.toList = front ++ rest → Denotes front length →
      Malformed rest fault' → byteLength body = .error fault' := by
    intro front rest length fault' split denotes malformed
    rw [byteLength, split, countFrom_of_denotes denotes, countFrom_of_malformed malformed]
  constructor
  · intro failed
    rcases denotes_or_malformed body.toList with
      ⟨length, denotes⟩ | ⟨front, rest, length, fault', split, denotes, malformed⟩
    · cases failed.symm.trans (byteLength_eq_ok_iff.mpr denotes)
    · cases failed.symm.trans (counted front rest length fault' split denotes malformed)
      exact ⟨front, rest, length, split, denotes, malformed⟩
  · rintro ⟨front, rest, length, split, denotes, malformed⟩
    exact counted front rest length fault split denotes malformed

end StringLiteral

end WatLink
