import WatLink.Proofs.NumberLimits
import WatLink.Proofs.RevisionOrder

/-!
# What rewriting numerals keeps

A text is written in decimal if it is a hexadecimal or binary literal, behind any
number of the keys of a memory argument.  The keys stay, and what stands behind
them is a decimal literal of the same magnitude.  Its sign is the same with one
exception: the number that is written has no negative zero.
-/

namespace WatLink

/-! ## The grammar of literals -/

/-- What the digit reader accepts behind a digit may be empty or start with an
underscore. -/
theorem digitRun_of_readDigits {radix : Radix} {afterDigit : Bool} {run : List Char}
    {digits : List Nat} (reads : IntLiteral.readDigits radix afterDigit run = some digits) :
    DigitRun radix run digits ∨ afterDigit = true ∧ (run = [] ∧ digits = [] ∨
      ∃ rest, run = '_' :: rest ∧ DigitRun radix rest digits) := by
  induction run generalizing afterDigit digits with
  | nil =>
      cases afterDigit with
      | false => cases reads
      | true =>
          cases reads
          exact .inr ⟨rfl, .inl ⟨rfl, rfl⟩⟩
  | cons character rest ih =>
      rw [IntLiteral.readDigits] at reads
      cases isDigit : radix.digit? character with
      | some digit =>
          simp only [isDigit, Option.map_eq_some_iff] at reads
          obtain ⟨others, readsRest, rfl⟩ := reads
          rcases ih readsRest with isRun | ⟨-, ⟨rfl, rfl⟩ | ⟨behind, rfl, isRun⟩⟩
          · exact .inl (.next isDigit isRun)
          · exact .inl (.last isDigit)
          · exact .inl (.apart isDigit isRun)
      | none =>
          simp only [isDigit] at reads
          split at reads
          · rename_i isUnderscore
            rw [Bool.and_eq_true, beq_iff_eq] at isUnderscore
            obtain ⟨rfl, rfl⟩ := isUnderscore
            rcases ih reads with isRun | ⟨isTrue, -⟩
            · exact .inr ⟨rfl, .inr ⟨rest, rfl, isRun⟩⟩
            · cases isTrue
          · cases reads

theorem run_of_readDigits {radix : Radix} {run : List Char} {digits : List Nat}
    (reads : IntLiteral.readDigits radix false run = some digits) : DigitRun radix run digits := by
  rcases digitRun_of_readDigits reads with isRun | ⟨isTrue, -⟩
  · exact isRun
  · cases isTrue

namespace IntLiteral

theorem exists_run_of_unsigned {negative : Bool} {characters : List Char} {literal : IntLiteral}
    (reads : readUnsigned negative characters = some literal) :
    literal.negative = negative ∧ ∃ run, DigitRun literal.radix run literal.digits ∧
      characters = literal.radix.mark ++ run := by
  unfold readUnsigned at reads
  split at reads
  all_goals
    obtain ⟨digits, readsRun, rfl⟩ := Option.map_eq_some_iff.mp reads
    exact ⟨rfl, _, run_of_readDigits readsRun, rfl⟩

theorem spelledBy_of_readSigned {characters : List Char} {literal : IntLiteral}
    (reads : readSigned characters = some literal) : literal.SpelledBy characters := by
  unfold readSigned at reads
  split at reads
  all_goals
    obtain ⟨isNegative, run, isRun, rfl⟩ := exists_run_of_unsigned reads
  · exact ⟨['-'], run, isNegative ▸ .minus, isRun, rfl⟩
  · exact ⟨['+'], run, isNegative ▸ .plus, isRun, rfl⟩
  · exact ⟨[], run, isNegative ▸ .none, isRun, rfl⟩

/-- The reader accepts the texts of the grammar and no others. -/
theorem ofText?_eq_some_iff {text : String} {literal : IntLiteral} :
    ofText? text = some literal ↔ literal.IsText text := by
  constructor
  · intro reads
    have spelled := spelledBy_of_readSigned reads
    rw [dropFinalNewline] at spelled
    split at spelled
    · rename_i ends
      obtain ⟨front, same⟩ := List.getLast?_eq_some_iff.mp ends
      rw [same, List.dropLast_concat] at spelled
      exact .inr ⟨front, spelled, same⟩
    · exact .inl spelled
  · exact IsText.ofText?

/-- The number that the digits of a literal spell. -/
def magnitude (literal : IntLiteral) : Nat :=
  literal.radix.value literal.digits

theorem value_eq (literal : IntLiteral) :
    literal.value = if literal.negative then -(literal.magnitude : Int) else literal.magnitude :=
  rfl

end IntLiteral

/-! ## Keys -/

/-- Sequences of keys of memory arguments. -/
inductive KeyRun : List Char → Prop
  | nil : KeyRun []
  | offset {rest : List Char} : KeyRun rest → KeyRun ("offset=".toList ++ rest)
  | align {rest : List Char} : KeyRun rest → KeyRun ("align=".toList ++ rest)

theorem keyRun_spanKeys (characters : List Char) : KeyRun (spanKeys characters).1 := by
  fun_induction spanKeys characters with
  | case1 rest ih => exact .offset ih
  | case2 rest ih => exact .align ih
  | case3 => exact .nil

theorem spanKeys_offset (rest : List Char) :
    spanKeys ("offset=".toList ++ rest) =
      ("offset=".toList ++ (spanKeys rest).1, (spanKeys rest).2) := rfl

theorem spanKeys_align (rest : List Char) :
    spanKeys ("align=".toList ++ rest) =
      ("align=".toList ++ (spanKeys rest).1, (spanKeys rest).2) := rfl

theorem spanKeys_of_keyRun {keys : List Char} (isRun : KeyRun keys) (rest : List Char) :
    spanKeys (keys ++ rest) = (keys ++ (spanKeys rest).1, (spanKeys rest).2) := by
  induction isRun with
  | nil => rfl
  | offset _ ih => rw [List.append_assoc, spanKeys_offset, ih, List.append_assoc]
  | align _ ih => rw [List.append_assoc, spanKeys_align, ih, List.append_assoc]

/-- Whether a text is a literal behind some keys. -/
def IntLiteral.IsKeyedText (literal : IntLiteral) (keys : List Char) (text : String) : Prop :=
  KeyRun keys ∧ ∃ numeral : String, literal.IsText numeral ∧ text.toList = keys ++ numeral.toList

/-- Neither keys nor the literal behind them can be read in another way. -/
theorem spanKeys_of_isKeyedText {literal : IntLiteral} {keys : List Char} {text : String}
    (keyed : literal.IsKeyedText keys text) :
    ∃ numeral : String, literal.IsText numeral ∧ spanKeys text.toList = (keys, numeral.toList) := by
  obtain ⟨isRun, numeral, isText, same⟩ := keyed
  have noKeys := IntLiteral.spanKeys_of_ofText? isText.ofText?
  have whole := spanKeys_append numeral.toList
  have noneInFront : (spanKeys numeral.toList).1 = [] := by simpa [noKeys] using whole
  refine ⟨numeral, isText, ?_⟩
  rw [same, spanKeys_of_keyRun isRun, noKeys, noneInFront, List.append_nil]

theorem decimalSpelling?_of_isKeyedText {literal : IntLiteral} {keys : List Char} {text : String}
    (keyed : literal.IsKeyedText keys text) :
    decimalSpelling? text = if literal.radix = .decimal then none
      else some ((writeInt literal.value).map (String.ofList keys ++ ·)) := by
  obtain ⟨numeral, isText, spanned⟩ := spanKeys_of_isKeyedText keyed
  simp only [decimalSpelling?, spanned, String.ofList_toList, isText.ofText?]

theorem exists_isKeyedText {text : String} {spelling : Except NumeralFault String}
    (spelled : decimalSpelling? text = some spelling) :
    ∃ keys, ∃ literal : IntLiteral, literal.IsKeyedText keys text ∧ literal.radix ≠ .decimal ∧
      (writeInt literal.value).map (String.ofList keys ++ ·) = spelling := by
  obtain ⟨literal, reads, notDecimal, written⟩ := exists_of_decimalSpelling? spelled
  refine ⟨(spanKeys text.toList).1, literal, ⟨keyRun_spanKeys _, _,
    IntLiteral.ofText?_eq_some_iff.mp reads, ?_⟩, notDecimal, written⟩
  rw [String.toList_ofList, spanKeys_append]

theorem isSome_decimalSpelling?_iff {text : String} :
    (decimalSpelling? text).isSome = true ↔
      ∃ keys, ∃ literal : IntLiteral, literal.IsKeyedText keys text ∧ literal.radix ≠ .decimal := by
  constructor
  · intro isSome
    obtain ⟨spelling, spelled⟩ := Option.isSome_iff_exists.mp isSome
    obtain ⟨keys, literal, keyed, notDecimal, -⟩ := exists_isKeyedText spelled
    exact ⟨keys, literal, keyed, notDecimal⟩
  · rintro ⟨keys, literal, keyed, notDecimal⟩
    rw [decimalSpelling?_of_isKeyedText keyed, if_neg notDecimal]
    rfl

/-- What a literal and the decimal literal of its value have in common. -/
theorem decimalLiteral_value (literal : IntLiteral) :
    (decimalLiteral literal.value).magnitude = literal.magnitude ∧
      ((decimalLiteral literal.value).negative = literal.negative ↔
        ¬ (literal.negative = true ∧ literal.magnitude = 0)) := by
  have sameMagnitude : (decimalLiteral literal.value).magnitude = literal.value.natAbs :=
    value_decimalDigits _
  rw [sameMagnitude, literal.value_eq, decimalLiteral]
  cases literal.negative with
  | false => simp
  | true => simp [Nat.pos_iff_ne_zero]

theorem isKeyedText_decimalNumeral {keys : List Char} (isRun : KeyRun keys) (number : Int) :
    (decimalLiteral number).IsKeyedText keys (String.ofList keys ++ decimalNumeral number) := by
  refine ⟨isRun, decimalNumeral number, isText_decimalNumeral number, ?_⟩
  rw [String.toList_append, String.toList_ofList]

/-- The spelling of a literal behind keys is the decimal literal of its value behind
the same keys. -/
theorem exists_of_spelling {text decimal : String}
    (spelled : decimalSpelling? text = some (.ok decimal)) :
    ∃ keys, ∃ literal : IntLiteral, literal.IsKeyedText keys text ∧ literal.radix ≠ .decimal ∧
      (decimalLiteral literal.value).IsKeyedText keys decimal := by
  obtain ⟨keys, literal, keyed, notDecimal, written⟩ := exists_isKeyedText spelled
  obtain ⟨numeral, writes, rfl⟩ := exceptMap_eq_ok_iff.mp written
  obtain ⟨rfl, -⟩ := parseInt_of_writeInt writes
  exact ⟨keys, literal, keyed, notDecimal, isKeyedText_decimalNumeral keyed.1 _⟩

theorem decimalSpelling?_of_spelling {text decimal : String}
    (spelled : decimalSpelling? text = some (.ok decimal)) : decimalSpelling? decimal = none := by
  obtain ⟨keys, literal, -, -, keyed⟩ := exists_of_spelling spelled
  rw [decimalSpelling?_of_isKeyedText keyed]
  rfl

/-! ## Rewriting trees -/

/-- The items that rewriting numerals keeps: lists, string literals, and atoms
without a decimal spelling. -/
def KeepsNumeral (item : Tree) : Prop :=
  ∀ text, item = .atom text → isStringLiteral text = true ∨ decimalSpelling? text = none

/-- The atoms that rewriting numerals replaces by their decimal spellings. -/
def ReplacesNumeral (item item' : Tree) : Prop :=
  ∃ text decimal, item = .atom text ∧ isStringLiteral text = false ∧
    decimalSpelling? text = some (.ok decimal) ∧ item' = .atom decimal

theorem decimalReviser_eq_none_iff {whole : Tree → Tree} {item : Tree} :
    decimalReviser whole item = none ↔ KeepsNumeral item := by
  cases item with
  | list items => exact ⟨fun _ _ => nofun, fun _ => rfl⟩
  | atom text =>
      cases isString : isStringLiteral text <;>
        simp [decimalReviser, KeepsNumeral, isString]

theorem decimalReviser_eq_ok_iff {whole : Tree → Tree} {item item' : Tree} :
    decimalReviser whole item = some (.ok item') ↔ ReplacesNumeral item item' := by
  cases item with
  | list items => exact ⟨nofun, by rintro ⟨text, decimal, ⟨⟩, -⟩⟩
  | atom text =>
      cases isString : isStringLiteral text with
      | true => simp [decimalReviser, ReplacesNumeral, isString]
      | false =>
          simp only [decimalReviser, isString, Bool.false_eq_true, if_false, Option.map_eq_some_iff,
            exceptMap_eq_ok_iff]
          constructor
          · rintro ⟨spelling, spelled, decimal, rfl, rfl⟩
            exact ⟨text, decimal, rfl, isString, spelled, rfl⟩
          · rintro ⟨_, decimal, ⟨rfl⟩, -, spelled, rfl⟩
            exact ⟨_, spelled, decimal, rfl, rfl⟩

theorem decimalReviser_steady (tree : Tree) :
    decimalReviser.Steady tree KeepsNumeral ReplacesNumeral :=
  ⟨fun _ _ _ _ => decimalReviser_eq_none_iff, fun _ _ _ _ _ => decimalReviser_eq_ok_iff⟩

theorem decimalNumerals_iff {tree result : Tree} :
    tree.decimalNumerals.failure = none ∧ tree.decimalNumerals.tree = result ↔
      Rewritten KeepsNumeral ReplacesNumeral tree result :=
  Tree.revise_iff_rewritten (decimalReviser_steady tree)

theorem decimalNumerals_partly (tree : Tree) :
    PartlyRewritten ReplacesNumeral tree tree.decimalNumerals.tree := by
  have replaces : decimalReviser.Replaces = ReplacesNumeral := by
    funext item item'
    simp only [Reviser.Replaces, decimalReviser_eq_ok_iff, exists_const]
  rw [← replaces]
  exact Tree.partlyRewritten_of_revise tree

/-- Nothing is left to rewrite below the root of a rewritten tree. -/
theorem keepsNumeral_below {tree result : Tree}
    (rewritten : Rewritten KeepsNumeral ReplacesNumeral tree result) :
    ∀ item ∈ result.items, ∀ part ∈ item.subtrees, KeepsNumeral part := by
  refine rewritten.forall_below (fun item item' keepsItem changed => ?_) ?_
  · cases changed with
    | atom => exact keepsItem
    | nil | kept _ _ _ | replaced _ _ => exact fun _ => nofun
  · rintro item item' ⟨text, decimal, -, -, spelled, rfl⟩ part member
    obtain rfl : part = .atom decimal := by simpa [Tree.subtrees] using member
    rintro _ ⟨rfl⟩
    exact .inr (decimalSpelling?_of_spelling spelled)

theorem decimalNumerals_decimalNumerals {tree : Tree}
    (succeeded : tree.decimalNumerals.failure = none) :
    tree.decimalNumerals.tree.decimalNumerals = ⟨tree.decimalNumerals.tree, 0, none⟩ := by
  have below := keepsNumeral_below (decimalNumerals_iff.mp ⟨succeeded, rfl⟩)
  generalize tree.decimalNumerals.tree = result at below ⊢
  cases result with
  | atom text => rfl
  | list items =>
      have root : KeepsNumeral (.list items) := fun _ => nofun
      have everywhere := Tree.forall_mem_subtrees root below
      exact Tree.revise_of_kept fun part member _ =>
        decimalReviser_eq_none_iff.mpr (everywhere part member)

/-- Texts that are written in decimal are prefixed literals behind keys.  The keys
and the magnitude stay, and the sign stays except that of a negative zero; the
result is not written again.  Rewriting a tree changes exactly these atoms, string
literals apart, and changes nothing the second time. -/
theorem decimal_spelling_keeps_literals (text : String) (tree : Tree) :
    ((decimalSpelling? text).isSome = true ↔
      ∃ keys, ∃ literal : IntLiteral, literal.IsKeyedText keys text ∧ literal.radix ≠ .decimal) ∧
    (∀ decimal, decimalSpelling? text = some (.ok decimal) →
      decimalSpelling? decimal = none ∧
      ∃ keys, ∃ literal literal' : IntLiteral,
        literal.IsKeyedText keys text ∧ literal.radix ≠ .decimal ∧
        literal'.IsKeyedText keys decimal ∧ literal'.radix = .decimal ∧
        literal'.magnitude = literal.magnitude ∧
        (literal'.negative = literal.negative ↔
          ¬ (literal.negative = true ∧ literal.magnitude = 0))) ∧
    (∀ result, tree.decimalNumerals.failure = none ∧ tree.decimalNumerals.tree = result ↔
      Rewritten KeepsNumeral ReplacesNumeral tree result) ∧
    PartlyRewritten ReplacesNumeral tree tree.decimalNumerals.tree ∧
    (tree.decimalNumerals.failure = none →
      tree.decimalNumerals.tree.decimalNumerals = ⟨tree.decimalNumerals.tree, 0, none⟩) := by
  refine ⟨isSome_decimalSpelling?_iff, fun decimal spelled => ?_, fun _ => decimalNumerals_iff,
    decimalNumerals_partly tree, decimalNumerals_decimalNumerals⟩
  obtain ⟨keys, literal, keyed, notDecimal, keyedDecimal⟩ := exists_of_spelling spelled
  obtain ⟨sameMagnitude, sameSign⟩ := decimalLiteral_value literal
  exact ⟨decimalSpelling?_of_spelling spelled, keys, literal, _, keyed, notDecimal, keyedDecimal,
    rfl, sameMagnitude, sameSign⟩

/-- A negative zero loses its sign. -/
theorem decimal_spelling_of_negative_zero :
    decimalSpelling? "-0x0" = some (.ok "0") ∧ decimalSpelling? "0" = none ∧
      ∃ literal literal' : IntLiteral, literal.IsKeyedText [] "-0x0" ∧
        literal'.IsKeyedText [] "0" ∧ literal'.magnitude = literal.magnitude ∧
        literal.negative = true ∧ literal'.negative = false := by
  have spelled : decimalSpelling? "-0x0" = some (.ok "0") := rfl
  obtain ⟨-, spellings, -, -, -⟩ := decimal_spelling_keeps_literals "-0x0" (.atom "-0x0")
  obtain ⟨settled, keys, literal, literal', keyed, -, keyed', -, sameMagnitude, sameSign⟩ :=
    spellings _ spelled
  have spanned : spanKeys "-0x0".toList = ([], "-0x0".toList) := rfl
  obtain ⟨numeral, isText, spanned'⟩ := spanKeys_of_isKeyedText keyed
  obtain ⟨rfl, same⟩ := Prod.mk.inj (spanned.symm.trans spanned')
  rw [← String.toList_inj.mp same, ← IntLiteral.ofText?_eq_some_iff] at isText
  have negativeZero : literal = ⟨true, .hexadecimal, [0]⟩ := (Option.some.inj isText).symm
  rw [negativeZero] at sameSign
  have changed : literal'.negative = false := by
    simpa [IntLiteral.magnitude, Radix.value] using sameSign
  exact ⟨spelled, settled, literal, literal', keyed, keyed', sameMagnitude, by rw [negativeZero],
    changed⟩

end WatLink
