import WatLink.Proofs.NumeralRewriting
import WatLink.Proofs.StringAtoms

/-!
# Trees in decimal

Rewriting numerals puts every text of a tree into decimal.  No reader of texts can
tell a text from its decimal spelling: integers are read as the same number, words
that are no numerals stay as they are and are the spelling of nothing else, and a
numeral behind the keys of a memory argument is read as nothing in either spelling.
-/

namespace WatLink

/-- The decimal spelling of a text, or the text itself if it has none. -/
def decimalText (text : String) : String :=
  ((decimalSpelling? text).bind Except.toOption).getD text

/-- Whether a text is an integer literal behind any keys. -/
def IsNumeral (text : String) : Prop :=
  ∃ keys, ∃ literal : IntLiteral, literal.IsKeyedText keys text

theorem isNumeral_iff {text : String} :
    IsNumeral text ↔
      (IntLiteral.ofText? (String.ofList (spanKeys text.toList).2)).isSome = true := by
  constructor
  · rintro ⟨keys, literal, keyed⟩
    obtain ⟨numeral, isText, spanned⟩ := spanKeys_of_isKeyedText keyed
    simp [spanned, isText.ofText?]
  · intro isSome
    obtain ⟨literal, reads⟩ := Option.isSome_iff_exists.mp isSome
    refine ⟨(spanKeys text.toList).1, literal, keyRun_spanKeys _, _,
      IntLiteral.ofText?_eq_some_iff.mp reads, ?_⟩
    rw [String.toList_ofList, spanKeys_append]

instance (text : String) : Decidable (IsNumeral text) :=
  decidable_of_iff _ isNumeral_iff.symm

/-! ## Numerals -/

theorem KeyRun.head?_cases {keys : List Char} (isRun : KeyRun keys) :
    keys = [] ∨ ∃ first, (first = 'o' ∨ first = 'a') ∧ keys.head? = some first := by
  cases isRun with
  | nil => exact .inl rfl
  | offset _ => exact .inr ⟨'o', .inl rfl, rfl⟩
  | align _ => exact .inr ⟨'a', .inr rfl, rfl⟩

/-- The characters of which each gives a text away that is no numeral. -/
inductive IsForeign : Char → Prop
  | point : IsForeign '.'
  | dollar : IsForeign '$'
  | quote : IsForeign '"'

theorem KeyRun.not_mem {keys : List Char} (isRun : KeyRun keys) {character : Char}
    (foreign : IsForeign character) : character ∉ keys := by
  have noneInKeys : character ∉ "offset=".toList ∧ character ∉ "align=".toList := by
    cases foreign <;> decide
  induction isRun with
  | nil => simp
  | offset _ ih => exact List.not_mem_append noneInKeys.1 ih
  | align _ ih => exact List.not_mem_append noneInKeys.2 ih

theorem IntLiteral.SpelledBy.not_mem {literal : IntLiteral} {characters : List Char}
    (spelled : literal.SpelledBy characters) {character : Char}
    (foreign : IsForeign character) : character ∉ characters := by
  obtain ⟨sign, run, isSign, isRun, rfl⟩ := spelled
  have noSign : character ∉ ['-'] ∧ character ∉ ['+'] ∧ character ≠ '_' := by
    cases foreign <;> decide
  have noDigit : literal.radix.digit? character = none ∧ character ∉ literal.radix.mark := by
    cases foreign <;> cases literal.radix <;> decide
  refine List.not_mem_append ?_
    (List.not_mem_append noDigit.2 (isRun.not_mem noDigit.1 noSign.2.2))
  generalize literal.negative = negative at isSign
  cases isSign with
  | minus => exact noSign.1
  | plus => exact noSign.2.1
  | none => simp

/-- A numeral has no point, no quote and no mark of an identifier. -/
theorem IsNumeral.not_mem {text : String} (isNumeral : IsNumeral text) {character : Char}
    (foreign : IsForeign character) : character ∉ text.toList := by
  obtain ⟨keys, literal, isRun, numeral, isText, same⟩ := isNumeral
  have notNewline : character ∉ ['\n'] := by
    cases foreign <;> decide
  rw [same]
  refine List.not_mem_append (isRun.not_mem foreign) ?_
  rcases isText with spelled | ⟨characters, spelled, ends⟩
  · exact spelled.not_mem foreign
  · rw [ends]
    exact List.not_mem_append (spelled.not_mem foreign) notNewline

theorem IsNumeral.head?_ne {text : String} (isNumeral : IsNumeral text) {character : Char}
    (foreign : IsForeign character) : text.toList.head? ≠ some character :=
  fun starts => isNumeral.not_mem foreign (List.mem_of_head? starts)

/-- Whether a text starts as the keys of memory arguments do. -/
def StartsAsKey (text : String) : Prop :=
  ∃ first, (first = 'o' ∨ first = 'a') ∧ text.toList.head? = some first

theorem StartsAsKey.ofText? {text : String} (starts : StartsAsKey text) :
    IntLiteral.ofText? text = none := by
  obtain ⟨first, isKey, head⟩ := starts
  rcases isKey with rfl | rfl
  all_goals exact IntLiteral.ofText?_eq_none head (by decide) (by decide)

theorem StartsAsKey.parse_ne_ok {text : String} (starts : StartsAsKey text) (number : Binary64) :
    Binary64.parse text ≠ .ok number := by
  obtain ⟨first, isKey, head⟩ := starts
  have noFloat : StartsNoFloat first := by
    rcases isKey with rfl | rfl
    all_goals exact ⟨by decide, by decide, by decide, by decide, by decide⟩
  exact noFloat.parse_ne_ok head number

/-! ## Decimal texts -/

theorem decimalText_of_spelling {text decimal : String}
    (spelled : decimalSpelling? text = some (.ok decimal)) : decimalText text = decimal := by
  simp [decimalText, spelled, Except.toOption]

theorem decimalText_of_eq_none {text : String} (unspelled : decimalSpelling? text = none) :
    decimalText text = text := by
  simp [decimalText, unspelled]

/-- A text and its decimal text are one, or a prefixed literal and the decimal
numeral of its value, behind the same keys. -/
theorem decimalText_cases (text : String) :
    decimalText text = text ∨ ∃ keys, ∃ literal : IntLiteral, literal.IsKeyedText keys text ∧
      literal.radix ≠ .decimal ∧ writeInt literal.value = .ok (decimalNumeral literal.value) ∧
      decimalText text = String.ofList keys ++ decimalNumeral literal.value := by
  cases spelled : decimalSpelling? text with
  | none => exact .inl (decimalText_of_eq_none spelled)
  | some spelling =>
      cases spelling with
      | error fault => exact .inl (by simp [decimalText, spelled, Except.toOption])
      | ok decimal =>
          obtain ⟨keys, literal, keyed, notDecimal, written⟩ := exists_isKeyedText spelled
          obtain ⟨numeral, writes, rfl⟩ := exceptMap_eq_ok_iff.mp written
          obtain ⟨rfl, -⟩ := parseInt_of_writeInt writes
          exact .inr ⟨keys, literal, keyed, notDecimal, writes, decimalText_of_spelling spelled⟩

/-- A text is changed only from one numeral to another.  Without keys they are read
as the same number, and with keys neither is a number. -/
theorem decimalText_reading (text : String) :
    decimalText text = text ∨ (IsNumeral text ∧ IsNumeral (decimalText text)) ∧
      ((∃ number, parseInt text = .ok number ∧ parseInt (decimalText text) = .ok number) ∨
        StartsAsKey text ∧ StartsAsKey (decimalText text)) := by
  rcases decimalText_cases text with same | ⟨keys, literal, keyed, notDecimal, writes, changed⟩
  · exact .inl same
  · have keyedDecimal := isKeyedText_decimalNumeral keyed.1 literal.value
    rw [← changed] at keyedDecimal
    refine .inr ⟨⟨⟨keys, _, keyed⟩, ⟨keys, _, keyedDecimal⟩⟩, ?_⟩
    obtain ⟨isRun, numeral, isText, whole⟩ := keyed
    rcases isRun.head?_cases with rfl | ⟨first, isKey, starts⟩
    · left
      obtain rfl : text = numeral := String.toList_inj.mp (by simpa using whole)
      have readsDecimal := (parseInt_of_writeInt writes).2
      refine ⟨literal.value, isText.parseInt fun isDecimal => absurd isDecimal notDecimal, ?_⟩
      simpa [changed] using readsDecimal
    · right
      exact ⟨⟨first, isKey, by simp [whole, starts]⟩, ⟨first, isKey, by simp [changed, starts]⟩⟩

theorem decimalText_eq_iff {text word : String} (other : ¬ IsNumeral word) :
    decimalText text = word ↔ text = word := by
  rcases decimalText_reading text with same | ⟨⟨isNumeral, isNumeral'⟩, -⟩
  · rw [same]
  · constructor
    · rintro rfl
      exact absurd isNumeral' other
    · rintro rfl
      exact absurd isNumeral other

theorem decimalText_of_not_isNumeral {text : String} (other : ¬ IsNumeral text) :
    decimalText text = text :=
  (decimalText_eq_iff other).mpr rfl

theorem decimalText_of_mem {text : String} {character : Char}
    (foreign : IsForeign character) (member : character ∈ text.toList) :
    decimalText text = text :=
  decimalText_of_not_isNumeral fun isNumeral => isNumeral.not_mem foreign member

theorem decimalText_of_isBare {text : String} (bare : IsBare text) : decimalText text = text :=
  decimalText_of_eq_none bare.decimalSpelling?

/-- A reader that takes all numerals alike takes a text and its decimal text
alike. -/
theorem decimalText_congr {α : Type} {read : String → α} (nothing : α)
    (unread : ∀ text, IsNumeral text → read text = nothing) (text : String) :
    read (decimalText text) = read text := by
  rcases decimalText_reading text with same | ⟨⟨isNumeral, isNumeral'⟩, -⟩
  · rw [same]
  · rw [unread _ isNumeral, unread _ isNumeral']

/-! ## Readers of texts -/

theorem isIdentifier_decimalText (text : String) :
    isIdentifier (decimalText text) = isIdentifier text :=
  decimalText_congr false (fun _ isNumeral => by
    simpa [isIdentifier] using isNumeral.head?_ne .dollar) text

theorem decimalText_of_isIdentifier {text : String} (isName : isIdentifier text = true) :
    decimalText text = text :=
  decimalText_of_mem .dollar
    (List.mem_of_head? (by simpa [isIdentifier] using isName))

theorem isStringLiteral_of_isNumeral {text : String} (isNumeral : IsNumeral text) :
    isStringLiteral text = false := by
  have noQuote := isNumeral.head?_ne .quote
  unfold isStringLiteral
  split
  · rename_i starts
    exact absurd (by rw [starts]; rfl) noQuote
  · rfl

theorem unquoted?_decimalText (text : String) : unquoted? (decimalText text) = unquoted? text :=
  decimalText_congr none (fun _ isNumeral => by
    simp [unquoted?, isStringLiteral_of_isNumeral isNumeral]) text

theorem isIntLiteral_of_parseInt {text : String} {number : Int}
    (reads : parseInt text = .ok number) : isIntLiteral text = true := by
  cases unread : IntLiteral.ofText? text with
  | none => simp [parseInt, unread] at reads
  | some literal => simp [isIntLiteral, unread]

theorem isIntLiteral_decimalText (text : String) :
    isIntLiteral (decimalText text) = isIntLiteral text := by
  rcases decimalText_reading text with same | ⟨-, ⟨number, reads, reads'⟩ | ⟨starts, starts'⟩⟩
  · rw [same]
  · rw [isIntLiteral_of_parseInt reads, isIntLiteral_of_parseInt reads']
  · rw [isIntLiteral, isIntLiteral, starts.ofText?, starts'.ofText?]

theorem parseInt_decimalText (text : String) :
    (parseInt (decimalText text)).toOption = (parseInt text).toOption := by
  rcases decimalText_reading text with same | ⟨-, ⟨number, reads, reads'⟩ | ⟨starts, starts'⟩⟩
  · rw [same]
  · rw [reads, reads']
  · simp [parseInt, starts.ofText?, starts'.ofText?, Except.toOption]

namespace Constant

theorem literal_of_startsAsKey {text : String} (starts : StartsAsKey text) (type : ValueType) :
    (literal type text).toOption = none := by
  cases type with
  | int width => simp [literal, parseInt, starts.ofText?, Except.toOption]
  | float precision =>
      cases reads : Binary64.parse text with
      | ok number => exact absurd reads (starts.parse_ne_ok number)
      | error fault =>
          cases fault <;> simp [literal, isIntLiteral, starts.ofText?, reads, Except.toOption]

/-- A constant has the same value in either spelling of its literal. -/
theorem literal_decimalText (type : ValueType) (text : String) :
    (literal type (decimalText text)).toOption = (literal type text).toOption := by
  rcases decimalText_reading text with same | ⟨-, ⟨number, reads, reads'⟩ | ⟨starts, starts'⟩⟩
  · rw [same]
  · have isLiteral := isIntLiteral_of_parseInt reads
    have isLiteral' := isIntLiteral_of_parseInt reads'
    cases type with
    | int width => simp [literal, reads, reads']
    | float precision =>
        cases nearest : Binary64.ofInteger number <;>
          simp [literal, reads, reads', isLiteral, isLiteral', nearest, Except.toOption]
  · rw [literal_of_startsAsKey starts, literal_of_startsAsKey starts']

theorem constexprType?_of_isNumeral {text : String} (isNumeral : IsNumeral text) :
    constexprType? text = none := by
  have noPoint := isNumeral.not_mem .point
  have noSuffix : ¬ (constexprEnding.isSuffixOf text.toList = true) := by
    intro isSuffix
    exact noPoint ((List.isSuffixOf_iff_suffix.mp isSuffix).subset (by decide))
  simp [constexprType?, noSuffix]

theorem instruction?_of_isNumeral {text : String} (isNumeral : IsNumeral text) :
    instruction? text = none := by
  have noPoint := isNumeral.not_mem .point
  have noName : text.toList.dropWhile (· != '.') = [] := by
    rw [List.dropWhile_eq_nil_iff]
    intro character member
    simpa using ne_of_mem_of_not_mem member noPoint
  unfold instruction?
  dsimp only
  split <;> simp [noName]

end Constant

theorem ofName?_of_isNumeral {text : String} (isNumeral : IsNumeral text) :
    ValueType.ofName? text = none := by
  have noName : ∀ type ∈ [ValueType.int .w32, .int .w64, .float .single, .float .double],
      ¬ IsNumeral type.name := by decide
  refine List.find?_eq_none.mpr fun type member same => noName type member ?_
  rwa [beq_iff_eq.mp same]

end WatLink
