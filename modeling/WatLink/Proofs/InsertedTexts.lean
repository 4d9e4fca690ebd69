import WatLink.Link.Linker
import WatLink.Proofs.IntegerLiterals
import WatLink.Proofs.ScannedLayout

/-!
# Texts that passes insert

Passes put atoms into a module that were not there before: string literals,
numerals, constants and their instructions, and the parts of a merged start
function.  All but the string literals are bare: they are not empty, and they
are written without blanks, brackets, quotes and semicolons, and without the two
letters that a radix mark or a `constexpr` cannot do without.  So none of them
is a prefixed literal or asks for evaluation, and all of them are single tokens.
-/

namespace WatLink

/-- The texts of the atoms that a pass may put into a module. -/
inductive Pass.Inserts : Pass → String → Prop
  | data (bytes : Bytes) : Inserts .inlineData (StringLiteral.ofBytes bytes)
  | numeral (characters : List Char) (number : Int) :
      Inserts .decimalNumerals (String.ofList (spanKeys characters).1 ++ decimalNumeral number)
  | constant (value : Value) : Inserts .foldConstants value.spell
  | constantTag (type : ValueType) : Inserts .foldConstants (type.name ++ ".const")
  | pages (number : Int) : Inserts .sizeMemories (decimalNumeral number)
  | keyword {text : String} : text ∈ ["func", "call", "start"] → Inserts .mergeStarts text
  | identifier : Inserts .mergeStarts startIdentifier
  | numbered (number : Nat) : Inserts .mergeStarts (numberedIdentifier startIdentifier number)

theorem inserts_of_freshIdentifier {taken : List String} {identifier : String}
    (free : freshIdentifier taken startIdentifier = .ok identifier) :
    Pass.Inserts .mergeStarts identifier := by
  unfold freshIdentifier at free
  split at free
  · split at free
    · cases free
      exact .numbered _
    · cases free
  · cases free
    exact .identifier

/-- A character of a bare text. -/
def IsBareCharacter (character : Char) : Prop :=
  Lexeme.IsPlain character ∧ character ∉ [';', 'x', 'b']

instance (character : Char) : Decidable (IsBareCharacter character) :=
  inferInstanceAs (Decidable ((_ ∧ _ ∧ _ ∧ _) ∧ _))

/-- A text that is not empty and has only characters that stand for themselves,
the letters `x` and `b` apart. -/
structure IsBare (text : String) : Prop where
  nonempty : text.toList ≠ []
  characters : ∀ character ∈ text.toList, IsBareCharacter character

theorem bare_of_all {characters : List Char}
    (all : characters.all (fun character => decide (IsBareCharacter character)) = true) :
    ∀ character ∈ characters, IsBareCharacter character :=
  fun character member => of_decide_eq_true (List.all_eq_true.mp all character member)

theorem IsBare.of_all {text : String} (nonempty : text.toList ≠ [])
    (all : text.toList.all (fun character => decide (IsBareCharacter character)) = true) :
    IsBare text :=
  ⟨nonempty, bare_of_all all⟩

/-! ## Digits -/

theorem exists_digit_of_mem_toDigits {base number : Nat} (large : 1 < base) {character : Char}
    (member : character ∈ Nat.toDigits base number) :
    ∃ digit < base, character = Nat.digitChar digit := by
  induction number using Nat.strong_induction_on with
  | _ number ih =>
      rw [Nat.toDigits_eq_if large] at member
      by_cases small : number < base
      · rw [if_pos small, List.mem_singleton] at member
        exact ⟨number, small, member⟩
      · rw [if_neg small] at member
        rcases List.mem_append.mp member with inFront | last
        · exact ih (number / base) (Nat.div_lt_self (by omega) large) inFront
        · exact ⟨number % base, Nat.mod_lt _ (by omega), List.mem_singleton.mp last⟩

theorem bare_of_mem_toDigits {number : Nat} {character : Char}
    (member : character ∈ Nat.toDigits 10 number) : IsBareCharacter character := by
  obtain ⟨digit, small, rfl⟩ := exists_digit_of_mem_toDigits (by decide) member
  have allBare : ∀ digit < 10, IsBareCharacter (Nat.digitChar digit) := by decide
  exact allBare digit small

theorem isBare_decimalNumeral (number : Int) : IsBare (decimalNumeral number) := by
  have nonempty : Nat.toDigits 10 number.natAbs ≠ [] := Nat.toDigits_ne_nil
  refine ⟨by simp [toList_decimalNumeral, nonempty], fun character member => ?_⟩
  rw [toList_decimalNumeral] at member
  rcases List.mem_append.mp member with inSign | isDigit
  · have isMinus : character = '-' := by
      by_contra other
      split at inSign <;> simp [other] at inSign
    subst isMinus
    decide
  · exact bare_of_mem_toDigits isDigit

/-- Characters that may stand in front of a bare text. -/
theorem IsBare.behind {front : List Char} {text : String} (bare : IsBare text)
    (bareFront : ∀ character ∈ front, IsBareCharacter character) :
    IsBare (String.ofList front ++ text) := by
  refine ⟨by simp [bare.nonempty], fun character member => ?_⟩
  simp only [String.toList_append, String.toList_ofList, List.mem_append] at member
  exact member.elim (bareFront character) (bare.characters character)

theorem bare_of_mem_keys (characters : List Char) :
    ∀ character ∈ (spanKeys characters).1, IsBareCharacter character := by
  have bareOffset : ∀ character ∈ "offset=".toList, IsBareCharacter character :=
    bare_of_all (by decide)
  have bareAlign : ∀ character ∈ "align=".toList, IsBareCharacter character :=
    bare_of_all (by decide)
  fun_induction spanKeys characters with
  | case1 rest ih =>
      intro character member
      exact (List.mem_append.mp member).elim (bareOffset character) (ih character)
  | case2 rest ih =>
      intro character member
      exact (List.mem_append.mp member).elim (bareAlign character) (ih character)
  | case3 => simp

/-! ## Floating-point numbers -/

/-- A nonempty list of bare characters. -/
structure BareList (characters : List Char) : Prop where
  nonempty : characters ≠ []
  bare : ∀ character ∈ characters, IsBareCharacter character

theorem BareList.cons {first : Char} {rest : List Char} (bareFirst : IsBareCharacter first)
    (bareRest : ∀ character ∈ rest, IsBareCharacter character) : BareList (first :: rest) :=
  ⟨by simp, List.forall_mem_cons.mpr ⟨bareFirst, bareRest⟩⟩

theorem BareList.append {first second : List Char} (bareFirst : BareList first)
    (bareSecond : ∀ character ∈ second, IsBareCharacter character) : BareList (first ++ second) :=
  ⟨by simp [bareFirst.nonempty], List.forall_mem_append.mpr ⟨bareFirst.bare, bareSecond⟩⟩

theorem bare_of_mem_zeros {count : Nat} :
    ∀ character ∈ List.replicate count '0', IsBareCharacter character := by
  intro character member
  obtain ⟨-, rfl⟩ := List.mem_replicate.mp member
  decide

namespace DecimalStyle

theorem bareList_exponentMark (exponent : Int) : BareList (exponentMark exponent) := by
  have bareSign : IsBareCharacter (if exponent < 0 then '-' else '+') := by
    split <;> decide
  refine .cons (by decide) (List.forall_mem_cons.mpr ⟨bareSign, ?_⟩)
  exact List.forall_mem_append.mpr ⟨bare_of_mem_zeros, fun _ => bare_of_mem_toDigits⟩

theorem bareList_layout (style : DecimalStyle) {digits : List Char} (bareDigits : BareList digits)
    (exponent : Int) : BareList (style.layout digits exponent) := by
  have barePoint : IsBareCharacter '.' := by decide
  have bareMark := (bareList_exponentMark exponent).bare
  have bareTake : ∀ count, ∀ character ∈ digits.take count, IsBareCharacter character :=
    fun _ character member => bareDigits.bare character (List.mem_of_mem_take member)
  have bareDrop : ∀ count, ∀ character ∈ digits.drop count, IsBareCharacter character :=
    fun _ character member => bareDigits.bare character (List.mem_of_mem_drop member)
  unfold layout
  split
  · match digits, bareDigits with
    | [first], bareDigits =>
        exact .cons (bareDigits.bare first (by simp)) bareMark
    | first :: second :: rest, bareDigits =>
        have bareRest := fun character member =>
          bareDigits.bare character (List.mem_cons_of_mem first member)
        refine .cons (bareDigits.bare first (by simp)) (List.forall_mem_cons.mpr ⟨barePoint, ?_⟩)
        exact List.forall_mem_append.mpr ⟨bareRest, bareMark⟩
  · split
    · refine .cons (by decide) (List.forall_mem_cons.mpr ⟨barePoint, ?_⟩)
      exact List.forall_mem_append.mpr ⟨bare_of_mem_zeros, bareDigits.bare⟩
    · have bareIntegral : BareList (digits.take (exponent.toNat + 1) ++
          List.replicate (exponent.toNat + 1 - digits.length) '0') := by
        refine ⟨?_, List.forall_mem_append.mpr ⟨bareTake _, bare_of_mem_zeros⟩⟩
        simp [bareDigits.nonempty]
      dsimp only
      split
      · split
        · exact bareIntegral.append (bare_of_all (by decide))
        · exact bareIntegral
      · exact bareIntegral.append (List.forall_mem_cons.mpr ⟨barePoint, bareDrop _⟩)

/-- The digits of a positive number do not end in zeros only. -/
theorem withoutFinalZeros_ne_nil {number : Nat} (positive : number ≠ 0) :
    withoutFinalZeros (Nat.toDigits 10 number) ≠ [] := by
  intro empty
  have allZero : ∀ character ∈ Nat.toDigits 10 number, character = '0' := by
    simpa [withoutFinalZeros, List.dropWhile_eq_nil_iff] using empty
  have digitsZero : decimalDigits number = List.replicate (decimalDigits number).length 0 := by
    refine List.eq_replicate_of_mem fun digit member => ?_
    obtain ⟨character, isDigit, rfl⟩ := List.mem_map.mp member
    rw [allZero character isDigit]
    rfl
  have valueZero : ∀ count, Radix.decimal.value (List.replicate count 0) = 0 := by
    intro count
    unfold Radix.value
    induction count with
    | zero => rfl
    | succ count ih => simpa [List.replicate_succ] using ih
  have readBack := value_decimalDigits number
  rw [digitsZero, valueZero] at readBack
  exact positive readBack.symm

theorem bareList_withoutFinalZeros {number : Nat} (positive : number ≠ 0) :
    BareList (withoutFinalZeros (Nat.toDigits 10 number)) := by
  refine ⟨withoutFinalZeros_ne_nil positive, fun character member => ?_⟩
  have inReverse := (List.dropWhile_sublist _).mem (List.mem_reverse.mp member)
  exact bare_of_mem_toDigits (List.mem_reverse.mp inReverse)

theorem isBare_spell (style : DecimalStyle) (negative : Bool) (decimal : Decimal) :
    IsBare (style.spell negative decimal) := by
  have bareSign : ∀ character ∈ (if negative then ['-'] else []), IsBareCharacter character := by
    cases negative <;> exact bare_of_all (by decide)
  have bareNumber : BareList (if decimal.digits = 0 then style.layout ['0'] 0
      else style.layout (withoutFinalZeros (Nat.toDigits 10 decimal.digits))
        (decimal.exponent + (Nat.toDigits 10 decimal.digits).length - 1)) := by
    split
    · exact style.bareList_layout (.cons (by decide) (by simp)) 0
    · exact style.bareList_layout (bareList_withoutFinalZeros ‹_›) _
  refine ⟨?_, ?_⟩
  · simp only [spell, String.toList_ofList]
    exact List.append_ne_nil_of_right_ne_nil _ bareNumber.nonempty
  · simp only [spell, String.toList_ofList]
    exact List.forall_mem_append.mpr ⟨bareSign, bareNumber.bare⟩

end DecimalStyle

theorem Binary64.isBare_spell (precision : Precision) (number : Binary64) :
    IsBare (number.spell precision) := by
  have bareShortest : IsBare number.spellShortest := DecimalStyle.isBare_spell _ _ _
  unfold Binary64.spell
  split
  · split <;> exact .of_all (by decide) (by decide)
  · split
    · split <;> exact .of_all (by decide) (by decide)
    · cases precision with
      | double => exact bareShortest
      | single =>
          cases found : number.spellSingle? with
          | none => exact bareShortest
          | some text =>
              obtain ⟨index, -, spelled⟩ := List.exists_of_findSome?_eq_some found
              dsimp only at spelled
              split at spelled
              · cases spelled
                exact DecimalStyle.isBare_spell _ _ _
              · cases spelled

theorem Value.isBare_spell (value : Value) : IsBare value.spell := by
  cases value with
  | int width word => exact isBare_decimalNumeral word.toInt
  | float precision number => exact number.isBare_spell precision

theorem isBare_numberedIdentifier {base : String} (bare : IsBare base) (number : Nat) :
    IsBare (numberedIdentifier base number) := by
  have characters : (numberedIdentifier base number).toList =
      base.toList ++ '_' :: Nat.toDigits 10 number := by
    simp [numberedIdentifier, toString, Nat.repr_eq_ofList_toDigits]
  refine ⟨by simp [characters], ?_⟩
  rw [characters, List.forall_mem_append, List.forall_mem_cons]
  exact ⟨bare.characters, by decide, fun _ => bare_of_mem_toDigits⟩

/-- What a pass inserts is a bare text or the string literal of some bytes. -/
theorem Pass.Inserts.isBare {pass : Pass} {text : String} (inserts : pass.Inserts text) :
    IsBare text ∨ pass = .inlineData ∧ ∃ bytes, text = StringLiteral.ofBytes bytes := by
  have bareIdentifier : IsBare startIdentifier := .of_all (by decide) (by decide)
  cases inserts with
  | data bytes => exact .inr ⟨rfl, bytes, rfl⟩
  | numeral characters number =>
      exact .inl ((isBare_decimalNumeral number).behind (bare_of_mem_keys characters))
  | constant value => exact .inl value.isBare_spell
  | constantTag type =>
      left
      match type with
      | .int .w32 | .int .w64 | .float .single | .float .double =>
          exact .of_all (by decide) (by decide)
  | pages number => exact .inl (isBare_decimalNumeral number)
  | keyword member =>
      left
      simp only [List.mem_cons, List.not_mem_nil, or_false] at member
      rcases member with rfl | rfl | rfl <;> exact .of_all (by decide) (by decide)
  | identifier => exact .inl bareIdentifier
  | numbered number => exact .inl (isBare_numberedIdentifier bareIdentifier number)

theorem Pass.Inserts.isBare_of_ne {pass : Pass} {text : String} (inserts : pass.Inserts text)
    (notData : pass ≠ .inlineData) : IsBare text :=
  inserts.isBare.resolve_right fun isData => notData isData.1

/-! ## Reading inserted texts -/

theorem spanKeys_append (characters : List Char) :
    (spanKeys characters).1 ++ (spanKeys characters).2 = characters := by
  fun_induction spanKeys characters with
  | case1 rest ih => simp [ih]
  | case2 rest ih => simp [ih]
  | case3 => rfl

theorem exists_of_decimalSpelling? {text : String} {spelling : Except NumeralFault String}
    (spelled : decimalSpelling? text = some spelling) :
    ∃ literal, IntLiteral.ofText? (String.ofList (spanKeys text.toList).2) = some literal ∧
      literal.radix ≠ .decimal ∧
        (writeInt literal.value).map (String.ofList (spanKeys text.toList).1 ++ ·) = spelling := by
  unfold decimalSpelling? at spelled
  dsimp only at spelled
  split at spelled
  · cases spelled
  · rename_i literal reads
    split at spelled
    · cases spelled
    · rename_i notDecimal
      exact ⟨literal, reads, notDecimal, Option.some.inj spelled⟩

theorem readUnsigned_decimal {characters : List Char} {negative : Bool} {literal : IntLiteral}
    (noMarks : 'x' ∉ characters ∧ 'b' ∉ characters)
    (reads : IntLiteral.readUnsigned negative characters = some literal) :
    literal.radix = .decimal := by
  unfold IntLiteral.readUnsigned at reads
  split at reads
  · simp at noMarks
  · simp at noMarks
  · obtain ⟨digits, -, rfl⟩ := Option.map_eq_some_iff.mp reads
    rfl

theorem readSigned_decimal {characters : List Char} {literal : IntLiteral}
    (noMarks : 'x' ∉ characters ∧ 'b' ∉ characters)
    (reads : IntLiteral.readSigned characters = some literal) : literal.radix = .decimal := by
  unfold IntLiteral.readSigned at reads
  split at reads
  · exact readUnsigned_decimal (by simpa using noMarks) reads
  · exact readUnsigned_decimal (by simpa using noMarks) reads
  · exact readUnsigned_decimal noMarks reads

theorem mem_of_mem_dropFinalNewline {character : Char} {characters : List Char}
    (member : character ∈ IntLiteral.dropFinalNewline characters) : character ∈ characters := by
  unfold IntLiteral.dropFinalNewline at member
  split at member
  · exact List.mem_of_mem_dropLast member
  · exact member

namespace IsBare

variable {text : String}

theorem not_mem (bare : IsBare text) {character : Char} (special : character ∈ [';', 'x', 'b']) :
    character ∉ text.toList :=
  fun member => (bare.characters character member).2 special

/-- A bare text is not a prefixed literal, with or without keys. -/
theorem decimalSpelling? (bare : IsBare text) : WatLink.decimalSpelling? text = none := by
  have inText : ∀ character ∈ IntLiteral.dropFinalNewline (spanKeys text.toList).2,
      character ∈ text.toList := by
    intro character member
    rw [← spanKeys_append text.toList]
    exact List.mem_append_right _ (mem_of_mem_dropFinalNewline member)
  have noMarks : 'x' ∉ IntLiteral.dropFinalNewline (spanKeys text.toList).2 ∧
      'b' ∉ IntLiteral.dropFinalNewline (spanKeys text.toList).2 :=
    ⟨fun member => bare.not_mem (by simp) (inText _ member),
      fun member => bare.not_mem (by simp) (inText _ member)⟩
  simp only [WatLink.decimalSpelling?, IntLiteral.ofText?, String.toList_ofList]
  cases reads : IntLiteral.readSigned (IntLiteral.dropFinalNewline (spanKeys text.toList).2) with
  | none => rfl
  | some literal => exact if_pos (readSigned_decimal noMarks reads)

/-- A bare text does not ask for evaluation. -/
theorem constexprType? (bare : IsBare text) : Constant.constexprType? text = none := by
  have noEnding : ¬ Constant.constexprEnding.isSuffixOf text.toList = true := by
    intro ends
    have isSuffix := List.isSuffixOf_iff_suffix.mp ends
    exact bare.not_mem (by simp) (isSuffix.subset (show 'x' ∈ Constant.constexprEnding by decide))
  exact if_neg noEnding

theorem head_ne_semicolon (bare : IsBare text) : text.toList.head? ≠ some ';' :=
  fun starts => bare.not_mem (by simp) (List.mem_of_head? starts)

/-- A bare text is one token: each of its characters is a piece. -/
theorem completeToken (bare : IsBare text) : Lexeme.CompleteToken text.toList := by
  refine ⟨text.toList.map ([·]), by simpa using bare.nonempty, ?_, ?_, ?_⟩
  · intro piece member
    obtain ⟨character, inText, rfl⟩ := List.mem_map.mp member
    exact .plain (bare.characters character inText).1
  · refine List.Pairwise.isChain (List.pairwise_of_forall_mem_list ?_)
    rintro first member - - ⟨rfl, -⟩
    obtain ⟨character, inText, same⟩ := List.mem_map.mp member
    obtain rfl : character = ';' := by simpa using same
    exact bare.not_mem (by simp) inText
  · rw [← List.flatMap_def, List.flatMap_singleton']

end IsBare

/-- Characters of an escape do not end a string literal. -/
theorem literalRest_escape {digits rest : List Char} (nonempty : digits ≠ [])
    (ordinary : ∀ digit ∈ digits, digit ≠ '"' ∧ digit ≠ '\\')
    (isRest : Lexeme.LiteralRest rest) : Lexeme.LiteralRest ('\\' :: (digits ++ rest)) := by
  have behind : ∀ more : List Char, (∀ digit ∈ more, digit ≠ '"' ∧ digit ≠ '\\') →
      Lexeme.LiteralRest (more ++ rest) := by
    intro more allOrdinary
    induction more with
    | nil => exact isRest
    | cons digit others ih =>
        have first := allOrdinary digit (by simp)
        exact .character first.1 first.2 (ih fun other member => allOrdinary other (by simp [member]))
  match digits, nonempty with
  | first :: others, _ => exact .escape (behind others fun digit member => ordinary digit (by simp [member]))

theorem hexPadded_ordinary {width number : Nat} :
    ∀ digit ∈ Text.hexPadded width number, digit ≠ '"' ∧ digit ≠ '\\' := by
  have allOrdinary : ∀ digit < 16,
      Nat.digitChar digit ≠ '"' ∧ Nat.digitChar digit ≠ '\\' := by decide
  intro digit member
  rcases List.mem_append.mp member with inPadding | isDigit
  · obtain ⟨-, rfl⟩ := List.mem_replicate.mp inPadding
    decide
  · obtain ⟨value, small, rfl⟩ := exists_digit_of_mem_toDigits (by decide) isDigit
    exact allOrdinary value small

theorem StringLiteral.completeToken_ofBytes (bytes : Bytes) :
    Lexeme.CompleteToken (ofBytes bytes).toList := by
  have body : Lexeme.LiteralRest
      (bytes.flatMap (fun byte => '\\' :: Text.hexPadded 2 byte.toNat) ++ ['"']) := by
    induction bytes with
    | nil => exact .close
    | cons byte rest ih =>
        have nonempty : Text.hexPadded 2 byte.toNat ≠ [] := by
          simp [Text.hexPadded, Nat.toDigits_ne_nil]
        rw [List.flatMap_cons, List.append_assoc, List.cons_append]
        exact literalRest_escape nonempty hexPadded_ordinary ih
  refine ⟨[(ofBytes bytes).toList], by simp, ?_, List.IsChain.singleton _, by simp⟩
  intro piece member
  obtain rfl := List.mem_singleton.mp member
  simp only [ofBytes, String.toList_ofList, List.cons_append]
  exact .literal body

theorem StringLiteral.head_ofBytes (bytes : Bytes) : (ofBytes bytes).toList.head? = some '"' := by
  simp [ofBytes]

end WatLink
