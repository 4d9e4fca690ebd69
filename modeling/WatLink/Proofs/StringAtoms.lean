import WatLink.Proofs.ConstantErrors
import WatLink.Proofs.StableIndices

/-!
# String literals under linking

Passes that read no files take atoms out of a module and put others in, at any
depth.  None of these atoms starts with a quote, except for the targets of start
entries, which move into the calls of the merged start function.  So every string
literal stays in the module as often as it was there.

A constant expression is taken out whole.  It holds no string literal, because a
text that starts with a quote is no instruction, no literal and no reference to
a global.

Forms that a pass has no reason to look into stay as they are.
-/

namespace WatLink

/-- Whether a text starts and ends with a quote. -/
def isQuoted (text : String) : Bool :=
  text.toList.head? == some '"' && text.toList.getLast? == some '"'

theorem head?_of_isQuoted {text : String} (quoted : isQuoted text = true) :
    text.toList.head? = some '"' := by
  simp only [isQuoted, Bool.and_eq_true, beq_iff_eq] at quoted
  exact quoted.1

theorem isQuoted_eq_false {text : String} (starts : text.toList.head? ≠ some '"') :
    isQuoted text = false := by
  by_contra quoted
  exact starts (head?_of_isQuoted (by simpa using quoted))

/-! ## Readers that refuse quotes -/

theorem IsBare.not_quoted {text : String} (bare : IsBare text) : isQuoted text = false := by
  apply isQuoted_eq_false
  intro starts
  exact (bare.characters '"' (List.mem_of_head? starts)).1.2.2.2 rfl

theorem not_quoted_of_isIntLiteral {text : String} (isLiteral : isIntLiteral text = true) :
    isQuoted text = false := by
  apply isQuoted_eq_false
  intro starts
  simp [isIntLiteral, IntLiteral.ofText?_eq_none starts (by decide) (by decide)] at isLiteral

theorem not_quoted_of_isIdentifier {text : String} (isName : isIdentifier text = true) :
    isQuoted text = false := by
  apply isQuoted_eq_false
  intro starts
  simp [isIdentifier, starts] at isName

theorem not_quoted_of_decimalSpelling? {text : String} {spelling : Except NumeralFault String}
    (spelled : decimalSpelling? text = some spelling) : isQuoted text = false := by
  apply isQuoted_eq_false
  intro starts
  have whole := spanKeys_append text.toList
  have noKeys : (spanKeys text.toList).1 = [] := by
    rcases head?_spanKeys text.toList with noKeys | starts' | starts'
    · exact noKeys
    all_goals
      rw [← whole, List.head?_append, starts'] at starts
      simp at starts
  rw [noKeys, List.nil_append] at whole
  obtain ⟨literal, reads, -, -⟩ := exists_of_decimalSpelling? spelled
  rw [whole, String.ofList_toList, IntLiteral.ofText?_eq_none starts (by decide) (by decide)] at reads
  cases reads

/-- Whether no floating-point number starts with a character: neither digits nor
signs nor a word for infinity or NaN do, and it is not skipped. -/
structure StartsNoFloat (first : Char) : Prop where
  noBlank : Text.isNumberBlank first = false
  noDigit : Text.decimalDigit? first = none
  noPlainDigit : Radix.decimal.digit? first = none
  noMark : first ∉ ['_', '+', '-', '.']
  noWord : first.toLower ∉ ['i', 'n']

theorem startsNoFloat_quote : StartsNoFloat '"' :=
  ⟨by decide, by decide, by decide, by decide, by decide⟩

namespace StartsNoFloat

variable {first : Char}

/-- A character that is neither a blank nor a digit stays in front. -/
theorem numberCharacters (noFloat : StartsNoFloat first) (rest : List Char) :
    ∃ rest', Text.numberCharacters (first :: rest) = first :: rest' := by
  have front : (first :: rest).dropWhile Text.isNumberBlank = first :: rest := by
    simp [noFloat.noBlank]
  have back : ∃ rest', ((rest.reverse ++ [first]).dropWhile Text.isNumberBlank).reverse =
      first :: rest' := by
    rw [List.dropWhile_append]
    split
    · exact ⟨[], by simp [noFloat.noBlank]⟩
    · exact ⟨(rest.reverse.dropWhile Text.isNumberBlank).reverse, by simp⟩
  obtain ⟨rest', kept⟩ := back
  simp only [Text.numberCharacters, front, List.reverse_cons, kept, List.map_cons, noFloat.noDigit]
  exact ⟨_, rfl⟩

theorem readDecimal? (noFloat : StartsNoFloat first) (rest : List Char) :
    Binary64.readDecimal? (first :: rest) = none := by
  have noPoint : first ≠ '.' := fun isPoint => noFloat.noMark (by simp [isPoint])
  simp [Binary64.readDecimal?, Text.spanDigits, Text.spanFraction, noFloat.noPlainDigit, noPoint]

theorem readDecimalText? (noFloat : StartsNoFloat first) (rest : List Char) :
    Binary64.readDecimalText? (String.ofList (first :: rest)) = none := by
  obtain ⟨rest', characters⟩ := noFloat.numberCharacters rest
  have noWord : ∀ word : String, word.toList.head? ≠ some first.toLower →
      String.ofList ((first :: rest').map Char.toLower) ≠ word := by
    rintro word other rfl
    simp at other
  have noMark := noFloat.noMark
  have noLetter := noFloat.noWord
  simp only [List.mem_cons, List.not_mem_nil, or_false, not_or] at noMark noLetter
  have noInfinity : ∀ word : String, word.toList.head? = some 'i' →
      String.ofList ((first :: rest').map Char.toLower) ≠ word :=
    fun word starts => noWord word (by simpa [starts] using Ne.symm noLetter.1)
  have noSign : Text.spanSign (first :: rest') = (false, first :: rest') := by
    simp [Text.spanSign, noMark]
  simp only [Binary64.readDecimalText?, String.toList_ofList, characters, noSign,
    noInfinity "inf" rfl, noInfinity "infinity" rfl,
    noWord "nan" (by simpa using Ne.symm noLetter.2), noFloat.readDecimal?, or_self, if_false,
    Option.map_none]

theorem parse_ne_ok (noFloat : StartsNoFloat first) {text : String}
    (starts : text.toList.head? = some first) (number : Binary64) :
    Binary64.parse text ≠ .ok number := by
  intro reads
  obtain ⟨rest, characters⟩ := List.head?_eq_some_iff.mp starts
  have noMark := noFloat.noMark
  simp only [List.mem_cons, List.not_mem_nil, or_false, not_or] at noMark
  have body : (text.toList.filter (· != '_')).dropWhile
      (fun character => character == '+' || character == '-') = first :: rest.filter (· != '_') := by
    simp [characters, noMark]
  have noLetters : first ≠ 'i' ∧ first ≠ 'n' ∧ first ≠ '0' := by
    refine ⟨?_, ?_, ?_⟩ <;> rintro rfl
    · exact noFloat.noWord (by decide)
    · exact noFloat.noWord (by decide)
    · exact absurd noFloat.noPlainDigit (by decide)
  simp [Binary64.parse, body, noLetters, noLetters.2.1.symm, noFloat.readDecimalText?,
    -String.ofList_cons] at reads

end StartsNoFloat

theorem Binary64.not_quoted_of_parse {text : String} {number : Binary64}
    (reads : parse text = .ok number) : isQuoted text = false := by
  apply isQuoted_eq_false
  intro starts
  exact startsNoFloat_quote.parse_ne_ok starts number reads

/-! ## The string literals of a tree -/

namespace Tree

/-- The atoms of a tree that start and end with a quote, each as often as it
occurs. -/
def stringAtoms (tree : Tree) : Multiset String :=
  ↑((tree.subtrees.filterMap text?).filter isQuoted)

theorem stringAtoms_nil : stringAtoms (.list []) = 0 := rfl

theorem stringAtoms_cons (item : Tree) (rest : List Tree) :
    stringAtoms (.list (item :: rest)) = item.stringAtoms + stringAtoms (.list rest) := by
  simp [stringAtoms, subtrees, subtreesOfItems, List.filterMap_cons, text?]

theorem stringAtoms_append (first second : List Tree) :
    stringAtoms (.list (first ++ second)) = stringAtoms (.list first) + stringAtoms (.list second) := by
  induction first with
  | nil => simp [stringAtoms_nil]
  | cons item rest ih => rw [List.cons_append, stringAtoms_cons, stringAtoms_cons, ih, add_assoc]

theorem stringAtoms_perm {items items' : List Tree} (same : items.Perm items') :
    stringAtoms (.list items) = stringAtoms (.list items') := by
  induction same with
  | nil => rfl
  | cons item _ ih => rw [stringAtoms_cons, stringAtoms_cons, ih]
  | swap first second rest => simp only [stringAtoms_cons, add_left_comm]
  | trans _ _ ihFirst ihSecond => exact ihFirst.trans ihSecond

theorem stringAtoms_forall₂ {items items' : List Tree}
    (pairs : List.Forall₂ (fun item item' => stringAtoms item' = stringAtoms item) items items') :
    stringAtoms (.list items') = stringAtoms (.list items) := by
  induction pairs with
  | nil => rfl
  | cons first _ ih => rw [stringAtoms_cons, stringAtoms_cons, first, ih]

theorem stringAtoms_atom_eq_zero {text : String} (other : isQuoted text = false) :
    stringAtoms (.atom text) = 0 := by
  simp [stringAtoms, subtrees, text?, other]

theorem stringAtoms_list_eq_zero {items : List Tree}
    (none : ∀ item ∈ items, item.stringAtoms = 0) : stringAtoms (.list items) = 0 := by
  induction items with
  | nil => rfl
  | cons item rest ih =>
      obtain ⟨first, others⟩ := List.forall_mem_cons.mp none
      rw [stringAtoms_cons, first, ih others, add_zero]

end Tree

open WatLink.Tree

/-! ## Constant expressions -/

theorem ValueType.head?_name (type : ValueType) : type.name.toList.head? ≠ some '"' := by
  match type with
  | .int .w32 | .int .w64 | .float .single | .float .double => decide

namespace Constant

theorem not_quoted_of_literal {type : ValueType} {text : String} {value : Value}
    (reads : literal type text = .ok value) : isQuoted text = false := by
  unfold literal at reads
  cases type with
  | int width =>
      dsimp only at reads
      split at reads
      · rename_i number parsed
        obtain ⟨whole, isLiteral, -, -⟩ := exists_of_parseInt parsed
        exact not_quoted_of_isIntLiteral (by simp [isIntLiteral, isLiteral])
      · cases reads
  | float precision =>
      dsimp only at reads
      split at reads
      · exact not_quoted_of_isIntLiteral ‹_›
      · split at reads
        · exact Binary64.not_quoted_of_parse ‹_›
        · cases reads
        · cases reads

theorem not_quoted_of_constexprType? {tag name : String} (asks : constexprType? tag = some name) :
    isQuoted tag = false := by
  unfold constexprType? at asks
  dsimp only at asks
  split at asks
  · rename_i ends
    obtain ⟨front, characters⟩ := List.isSuffixOf_iff_suffix.mp ends
    have last : tag.toList.getLast? = some 'r' := by
      rw [← characters, List.getLast?_append]
      rfl
    simp [isQuoted, last]
  · cases asks

/-- The name of an instruction starts with that of a type. -/
theorem not_quoted_of_instruction? {tag name : String} {type : ValueType}
    (isInstruction : instruction? tag = some (type, name)) : isQuoted tag = false := by
  apply isQuoted_eq_false
  intro starts
  obtain ⟨rest, characters⟩ := List.head?_eq_some_iff.mp starts
  unfold instruction? at isInstruction
  dsimp only at isInstruction
  split at isInstruction
  · rename_i found
    have named := congrArg String.toList (name_of_ofName? found)
    rw [String.toList_ofList, characters, List.takeWhile_cons_of_pos (by decide)] at named
    exact ValueType.head?_name _ (by rw [← named]; rfl)
  · cases isInstruction

theorem exists_value_of_evalAll {readGlobal : String → Except EvalError Value}
    {expressions : List Tree} {values : List Value}
    (evaluates : evalAll readGlobal expressions = .ok values) :
    ∀ expression ∈ expressions, ∃ value, eval readGlobal expression = .ok value := by
  induction expressions generalizing values with
  | nil => simp
  | cons expression rest ih =>
      rw [evalAll] at evaluates
      split at evaluates
      · cases evaluates
      · rename_i value first
        obtain ⟨others, evaluatesRest, -⟩ := exceptMap_eq_ok_iff.mp evaluates
        exact List.forall_mem_cons.mpr ⟨⟨value, first⟩, ih evaluatesRest⟩

/-- An expression that has a value holds no string literal. -/
theorem stringAtoms_of_eval {readGlobal : String → Except EvalError Value}
    (references : ∀ reference value, readGlobal reference = .ok value → isQuoted reference = false)
    {expression : Tree} {value : Value} (evaluates : eval readGlobal expression = .ok value) :
    expression.stringAtoms = 0 := by
  induction expression generalizing value with
  | atom text => cases evaluates
  | list items ih =>
      match items with
      | [] => cases evaluates
      | .list _ :: _ => cases evaluates
      | .atom tag :: arguments =>
          have inArguments : ∀ argument ∈ arguments, ∀ value,
              eval readGlobal argument = .ok value → argument.stringAtoms = 0 :=
            fun argument member value => ih argument (List.mem_cons_of_mem _ member)
          have together : isQuoted tag = false → stringAtoms (.list arguments) = 0 →
              stringAtoms (.list (.atom tag :: arguments)) = 0 := by
            intro bareTag noneInside
            rw [stringAtoms_cons, stringAtoms_atom_eq_zero bareTag, noneInside, add_zero]
          rw [eval.eq_def] at evaluates
          dsimp only at evaluates
          split at evaluates
          · rename_i isGlobal
            subst isGlobal
            split at evaluates
            · refine together (by decide) ?_
              rw [stringAtoms_cons, stringAtoms_atom_eq_zero (references _ _ evaluates)]
              rfl
            · cases evaluates
          · split at evaluates
            · rename_i asks
              split at evaluates
              · rename_i argument
                split at evaluates
                · cases evaluates
                · cases evaluatesArgument : eval readGlobal argument with
                  | error fault => simp [evaluatesArgument, bind, Except.bind] at evaluates
                  | ok inner =>
                      refine together (not_quoted_of_constexprType? asks) ?_
                      rw [stringAtoms_cons, inArguments argument (by simp) inner evaluatesArgument]
                      rfl
              · cases evaluates
            · split at evaluates
              · cases evaluates
              · rename_i type name isInstruction
                refine together (not_quoted_of_instruction? isInstruction) ?_
                split at evaluates
                · split at evaluates
                  · rw [stringAtoms_cons, stringAtoms_atom_eq_zero (not_quoted_of_literal evaluates)]
                    rfl
                  · cases evaluates
                · cases evaluatesAll : evalAll readGlobal arguments with
                  | error fault => simp [evaluatesAll, bind, Except.bind] at evaluates
                  | ok values =>
                      refine stringAtoms_list_eq_zero fun argument member => ?_
                      obtain ⟨inner, evaluatesArgument⟩ :=
                        exists_value_of_evalAll evaluatesAll argument member
                      exact inArguments argument member inner evaluatesArgument

theorem not_quoted_of_globalIndex {globals : List Global} {reference : String} {index : Nat}
    (found : globalIndex globals reference = .ok index) : isQuoted reference = false := by
  unfold globalIndex at found
  split at found
  · exact not_quoted_of_isIdentifier ‹_›
  · split at found
    · exact not_quoted_of_isIntLiteral ‹_›
    · cases found

theorem stringAtoms_of_evaluate {globals : List Global} {expression : Tree} {value : Value}
    (evaluates : evaluate globals expression = .ok value) : expression.stringAtoms = 0 := by
  refine stringAtoms_of_eval (fun reference inner readsGlobal => ?_) evaluates
  rw [evalGlobal] at readsGlobal
  split at readsGlobal
  · cases readsGlobal
  · exact not_quoted_of_globalIndex ‹_›

end Constant

/-! ## Rewriting -/

/-- An item that is related to itself alone occurs as often on the other side. -/
theorem count_le_of_forall₂ {related : Tree → Tree → Prop} {items items' : List Tree} {form : Tree}
    (pairs : List.Forall₂ related items items') (same : ∀ form', related form form' → form' = form) :
    items.count form ≤ items'.count form := by
  induction pairs with
  | nil => exact Nat.le_refl _
  | @cons item item' rest rest' first _ ih =>
      rw [List.count_cons, List.count_cons]
      by_cases isForm : item = form
      · subst isForm
        rw [same item' first]
        omega
      · simp only [beq_iff_eq, isForm, if_false]
        omega

namespace Rewritten

variable {keeps : Tree → Prop} {replaces : Tree → Tree → Prop} {tree tree' : Tree}

theorem stringAtoms_eq (rewritten : Rewritten keeps replaces tree tree')
    (replacements : ∀ item item', replaces item item' → item'.stringAtoms = item.stringAtoms) :
    tree'.stringAtoms = tree.stringAtoms := by
  induction rewritten with
  | atom => rfl
  | nil => rfl
  | kept _ _ _ ihFirst ihRest => rw [stringAtoms_cons, stringAtoms_cons, ihFirst, ihRest]
  | replaced first _ ihRest =>
      rw [stringAtoms_cons, stringAtoms_cons, replacements _ _ first, ihRest]

/-- A tree stays as it is if nothing inside it is replaced. -/
theorem eq_of_unreplaced (rewritten : Rewritten keeps replaces tree tree')
    (unreplaced : ∀ item ∈ tree.items, ∀ part ∈ item.subtrees, ∀ part', ¬ replaces part part') :
    tree' = tree := by
  induction rewritten with
  | atom => rfl
  | nil => rfl
  | @kept item item' rest rest' _ _ _ ihFirst ihRest =>
      obtain ⟨first, others⟩ := List.forall_mem_cons.mp unreplaced
      have sameItem : item' = item := by
        apply ihFirst
        intro inner member part inside
        cases item with
        | atom text => simp [items] at member
        | list items => exact first part (mem_subtrees_of_mem member inside)
      have sameRest := ihRest others
      rw [sameItem, Tree.list.inj sameRest]
  | @replaced item item' rest rest' first _ _ =>
      exact absurd first (unreplaced item (by simp [items]) item (mem_subtrees_self item) item')

/-- Each item of a list is kept and rewritten inside, or it is replaced. -/
theorem items_decided (rewritten : Rewritten keeps replaces tree tree') :
    List.Forall₂ (fun item item' =>
        (keeps item ∧ Rewritten keeps replaces item item') ∨ replaces item item')
      tree.items tree'.items := by
  induction rewritten with
  | atom => exact .nil
  | nil => exact .nil
  | kept keepsItem first _ _ ihRest => exact .cons (.inl ⟨keepsItem, first⟩) ihRest
  | replaced first _ ihRest => exact .cons (.inr first) ihRest

theorem items_forall₂ (rewritten : Rewritten keeps replaces tree tree') :
    List.Forall₂ (fun item item' => Rewritten keeps replaces item item' ∨ replaces item item')
      tree.items tree'.items :=
  rewritten.items_decided.imp fun _ _ => Or.imp_left And.right

/-- An item in which nothing is replaced stays as often as it is there. -/
theorem count_le (rewritten : Rewritten keeps replaces tree tree') {form : Tree}
    (unreplaced : ∀ part ∈ form.subtrees, ∀ part', ¬ replaces part part') :
    tree.items.count form ≤ tree'.items.count form := by
  refine count_le_of_forall₂ rewritten.items_forall₂ ?_
  rintro form' (changed | replaced)
  · refine changed.eq_of_unreplaced fun item member part inside => ?_
    cases form with
    | atom text => simp [items] at member
    | list items => exact unreplaced part (mem_subtrees_of_mem member inside)
  · exact absurd replaced (unreplaced form (mem_subtrees_self form) form')

end Rewritten

theorem stringAtoms_of_decimalReviser {item item' : Tree} (replaces : decimalReviser.Replaces item item') :
    item'.stringAtoms = item.stringAtoms := by
  obtain ⟨text, inserted, rfl, spelled, rfl, isInserted⟩ := exists_of_decimalReviser_replaces replaces
  rw [stringAtoms_atom_eq_zero (not_quoted_of_decimalSpelling? spelled),
    stringAtoms_atom_eq_zero (isInserted.isBare_of_ne (by decide)).not_quoted]

theorem stringAtoms_of_foldReviser {before : List Global} {item item' : Tree}
    (replaces : (Constant.foldReviser before).Replaces item item') :
    item'.stringAtoms = item.stringAtoms := by
  obtain ⟨type, inserted, -, rfl⟩ := exists_of_foldReviser_replaces replaces
  have bareTag : IsBare (type.name ++ ".const") :=
    (Pass.Inserts.constantTag type).isBare_of_ne (by decide)
  have noneBefore : item.stringAtoms = 0 := by
    obtain ⟨whole, decided⟩ := replaces
    obtain ⟨name, -, folded⟩ := Option.map_eq_some_iff.mp decided
    obtain ⟨value, evaluates, -⟩ := exceptMap_eq_ok_iff.mp folded
    exact Constant.stringAtoms_of_evaluate evaluates
  rw [noneBefore, Tree.form, stringAtoms_cons, stringAtoms_cons,
    stringAtoms_atom_eq_zero bareTag.not_quoted, stringAtoms_atom_eq_zero inserted.isBare_spell.not_quoted]
  rfl

/-! ## Sizing -/

theorem Memory.Raised.stringAtoms_eq {pages : Int} {form form' : Tree}
    (raised : Memory.Raised pages form form') : form'.stringAtoms = form.stringAtoms := by
  obtain ⟨-, place, -, -⟩ := raised
  have noneInserted := stringAtoms_atom_eq_zero (isBare_decimalNumeral pages).not_quoted
  cases place with
  | new _ => simp [stringAtoms_cons, stringAtoms_append, noneInserted]
  | limit isLiteral =>
      have noneReplaced := stringAtoms_atom_eq_zero (not_quoted_of_isIntLiteral isLiteral)
      simp [stringAtoms_cons, stringAtoms_append, noneInserted, noneReplaced]

namespace Module

theorem stringAtoms_replaceDeclaration {kind : String} {item form' : Tree} {declaration : Declaration}
    (declares : declaration? kind item = some declaration)
    (same : form'.stringAtoms = declaration.form.stringAtoms) :
    (replaceDeclaration kind form' item).stringAtoms = item.stringAtoms := by
  rcases declaration?_cases declares with ⟨rest, rfl, -, found⟩ | ⟨notImport, -, rfl⟩
  · obtain ⟨before, after, rfl, -, replaced⟩ := replaceFirst_split found
    rw [replaceDeclaration_import, replaced]
    simp only [stringAtoms_cons, stringAtoms_append, same]
  · simpa [replaceDeclaration, notImport] using same

theorem stringAtoms_sizeMemories {items : List Tree}
    (succeeded : (sizeMemories (.list items)).failure = none) :
    (sizeMemories (.list items)).module.stringAtoms = stringAtoms (.list items) := by
  obtain ⟨extents, events, grown, -, fitted, module_eq⟩ := sizeMemories_cases succeeded
  rw [module_eq]
  refine stringAtoms_forall₂ ((mapIndexSpace_forall₂ (.list items)).imp ?_)
  rintro item item' (⟨-, rfl⟩ | ⟨index, declaration, declares, found, rfl⟩)
  · rfl
  · apply stringAtoms_replaceDeclaration declares
    rcases grownForm_cases fitted found with same | ⟨pages, raised⟩
    · rw [same]
    · exact raised.stringAtoms_eq

/-- Sizing keeps an item that declares no memory. -/
theorem count_sizeMemories {items : List Tree} {form : Tree}
    (notDeclared : declaration? "memory" form = none)
    (succeeded : (sizeMemories (.list items)).failure = none) :
    items.count form ≤ (sizeMemories (.list items)).module.items.count form := by
  obtain ⟨extents, events, grown, -, -, module_eq⟩ := sizeMemories_cases succeeded
  rw [module_eq]
  refine count_le_of_forall₂ (mapIndexSpace_forall₂ (.list items)) ?_
  rintro form' (⟨-, same⟩ | ⟨_, _, declares, -⟩)
  · exact same
  · rw [notDeclared] at declares
    cases declares

/-! ## Merging starts -/

/-- The string literals of start entries are those among their targets. -/
theorem stringAtoms_startTargets {starts : List Tree} {targets : List String}
    (tagged : ∀ form ∈ starts, form.hasTag "start" = true)
    (found : startTargets starts = .ok targets) :
    stringAtoms (.list starts) = stringAtoms (.list (targets.map Tree.atom)) := by
  induction starts generalizing targets with
  | nil =>
      cases found
      rfl
  | cons form rest ih =>
      obtain ⟨isStart, others⟩ := List.forall_mem_cons.mp tagged
      unfold startTargets at found
      cases own : startTarget form with
      | error fault => simp [own] at found
      | ok first =>
          simp only [own] at found
          obtain ⟨behind, foundRest, rfl⟩ := exceptMap_eq_ok_iff.mp found
          obtain ⟨parts, rfl⟩ := exists_of_tag? (by simpa [Tree.hasTag] using isStart)
          have onlyTarget : parts = [.atom first] := by
            unfold startTarget at own
            split at own
            · rename_i items
              cases own
              exact (List.cons.inj items).2
            · cases own
          subst onlyTarget
          have bareTag : stringAtoms (.atom "start") = 0 := rfl
          rw [List.map_cons, stringAtoms_cons, stringAtoms_cons, ih others foundRest, stringAtoms_cons,
            stringAtoms_cons, bareTag, stringAtoms_nil, zero_add, add_zero]

theorem stringAtoms_startFunction {identifier : String} (bare : IsBare identifier)
    (targets : List String) :
    (startFunction identifier targets).stringAtoms =
      stringAtoms (.list (targets.map Tree.atom)) := by
  have bareCall : stringAtoms (.atom "call") = 0 := rfl
  have bareFunc : stringAtoms (.atom "func") = 0 := rfl
  have calls : stringAtoms (.list (targets.map fun target => Tree.form "call" [.atom target])) =
      stringAtoms (.list (targets.map Tree.atom)) := by
    induction targets with
    | nil => rfl
    | cons target rest ih =>
        rw [List.map_cons, List.map_cons, stringAtoms_cons, stringAtoms_cons, ih, Tree.form,
          stringAtoms_cons, stringAtoms_cons, bareCall, stringAtoms_nil, zero_add, add_zero]
  rw [startFunction, Tree.form, stringAtoms_cons, stringAtoms_cons, calls, bareFunc,
    stringAtoms_atom_eq_zero bare.not_quoted, zero_add, zero_add]

theorem StartsMerged.stringAtoms_eq {items : List Tree} {module' : Tree}
    (merges : StartsMerged (.list items) module') : module'.stringAtoms = stringAtoms (.list items) := by
  cases merges with
  | same _ => rfl
  | @merged identifier targets found free =>
      have bareName : IsBare identifier :=
        (inserts_of_freshIdentifier free).isBare_of_ne (by decide)
      have bareEntry : stringAtoms (Tree.form "start" [.atom identifier]) = 0 := by
        refine stringAtoms_list_eq_zero fun part member => ?_
        rcases List.mem_cons.mp member with rfl | isName
        · rfl
        · obtain rfl := List.mem_singleton.mp isName
          exact stringAtoms_atom_eq_zero bareName.not_quoted
      have moved := stringAtoms_startTargets (fun _ member => (List.mem_filter.mp member).2) found
      have parted : stringAtoms (.list items) =
          stringAtoms (.list (items.filter (·.hasTag "start"))) +
            stringAtoms (.list (items.filter (!·.hasTag "start"))) := by
        rw [← stringAtoms_append]
        exact (stringAtoms_perm (List.filter_append_perm _ _)).symm
      rw [parted, Tree.items] at *
      rw [moved, stringAtoms_append, stringAtoms_cons, stringAtoms_cons, bareEntry,
        stringAtoms_startFunction bareName, stringAtoms_nil, add_zero, add_zero, add_comm]

theorem StartsMerged.count_le {module module' : Tree} (merges : StartsMerged module module')
    {form : Tree} (notStart : form.hasTag "start" = false) :
    module.items.count form ≤ module'.items.count form := by
  cases merges with
  | same _ => exact Nat.le_refl _
  | merged _ _ =>
      rw [Tree.items, List.count_append, List.count_filter (by simp [notStart])]
      omega

end Module

/-! ## Passes -/

/-- A form that passes have no reason to change: it declares no memory and no
start, imports nothing, asks nowhere for evaluation, and has no atom that would be
written in decimal. -/
structure Untouched (form : Tree) : Prop where
  otherTag : form.hasTagIn ["memory", "import", "start"] = false
  noConstants : ∀ part ∈ form.subtrees, Constant.constexprName? part = none
  noNumerals : ∀ part ∈ form.subtrees, ∀ text ∈ part.text?, ∀ spelling,
    decimalSpelling? text ≠ some (.ok spelling)

theorem Untouched.hasTag_eq_false {form : Tree} (untouched : Untouched form) {tag : String}
    (isOther : tag ∈ ["memory", "import", "start"]) : form.hasTag tag = false := by
  have otherTag := untouched.otherTag
  unfold Tree.hasTag
  cases tagged : form.tag? with
  | none => rfl
  | some own =>
      simp only [Tree.hasTagIn, tagged] at otherTag
      rw [beq_eq_false_iff_ne]
      rintro ⟨rfl⟩
      simp [isOther] at otherTag

namespace Pass.Effect

variable {loads : Tree → Prop} {pass : Pass} {items : List Tree} {module' : Tree}

/-- A pass without files keeps the string literals of a module. -/
theorem stringAtoms_eq (effect : pass.Effect loads (.list items) module')
    (noFiles : ¬ pass.ReadsFiles) : module'.stringAtoms = stringAtoms (.list items) := by
  cases effect with
  | expandImports _ => exact absurd (.inl rfl) noFiles
  | inlineData _ => exact absurd (.inr rfl) noFiles
  | decimalNumerals rewritten =>
      exact rewritten.stringAtoms_eq fun _ _ => stringAtoms_of_decimalReviser
  | foldConstants rewritten =>
      exact rewritten.stringAtoms_eq fun _ _ => stringAtoms_of_foldReviser
  | sizeMemories succeeded => exact Module.stringAtoms_sizeMemories succeeded
  | mergeStarts merges => exact merges.stringAtoms_eq
  | sortForms =>
      have sorted : (Module.sortForms (.list items)).items.Perm items := by
        rw [Module.items_sortForms]
        exact List.mergeSort_perm _ _
      exact stringAtoms_perm sorted

/-- A pass without files keeps every untouched form. -/
theorem count_le (effect : pass.Effect loads (.list items) module') (noFiles : ¬ pass.ReadsFiles)
    {form : Tree} (untouched : Untouched form) : items.count form ≤ module'.items.count form := by
  cases effect with
  | expandImports _ => exact absurd (.inl rfl) noFiles
  | inlineData _ => exact absurd (.inr rfl) noFiles
  | decimalNumerals rewritten =>
      refine rewritten.count_le fun part inside part' replaces => ?_
      obtain ⟨text, spelling, rfl, spelled, -⟩ := exists_of_decimalReviser_replaces replaces
      exact untouched.noNumerals _ inside text rfl spelling spelled
  | foldConstants rewritten =>
      refine rewritten.count_le fun part inside part' replaces => ?_
      obtain ⟨-, -, asks, -⟩ := exists_of_foldReviser_replaces replaces
      exact asks (untouched.noConstants part inside)
  | sizeMemories succeeded =>
      refine Module.count_sizeMemories ?_ succeeded
      simp [Module.declaration?, untouched.hasTag_eq_false]
  | mergeStarts merges => exact merges.count_le (untouched.hasTag_eq_false (by simp))
  | sortForms =>
      rw [Module.items_sortForms, (List.mergeSort_perm _ _).count_eq]
      exact Nat.le_refl _

end Pass.Effect

namespace Link

/-- Linking without files keeps every string literal of a tree as often as it
occurs, and every untouched form. -/
theorem link_keeps_stringAtoms_and_untouched (passes : List Pass) (origin : Option String)
    (session : Session) (tree : Tree)
    (chosen : ∀ pass ∈ passes, pass ∈ [Pass.decimalNumerals, .foldConstants, .sizeMemories,
      .mergeStarts, .sortForms])
    (succeeded : (link passes origin session tree).failure = none) :
    (link passes origin session tree).tree.stringAtoms = tree.stringAtoms ∧
      ∀ form, Untouched form →
        tree.items.count form ≤ (link passes origin session tree).tree.items.count form := by
  refine runPasses_induct
    (fun linked => linked.stringAtoms = tree.stringAtoms ∧
      ∀ form, Untouched form → tree.items.count form ≤ linked.items.count form)
    (fun pass member module module' isModule effect keeps => ?_) succeeded
    ⟨rfl, fun _ _ => Nat.le_refl _⟩
  have noFiles : ¬ pass.ReadsFiles := by
    rintro (rfl | rfl) <;> simpa using chosen _ member
  obtain ⟨rest, rfl⟩ := isModule_iff.mp isModule
  refine ⟨(effect.stringAtoms_eq noFiles).trans keeps.1, fun form untouched => ?_⟩
  exact (keeps.2 form untouched).trans (effect.count_le noFiles untouched)

/-- A module with a memory that is too small, a constant to fold, a numeral to
rewrite and two start entries. -/
def greetingModule : Tree :=
  .form "module" [
    .form "memory" [.atom "0"],
    .form "global" [.atom "$at", .atom "i32",
      .form "i32.constexpr" [.form "i32.const" [.atom "2"]]],
    .form "data" [.form "i32.const" [.atom "0x20000"], .atom "\"0x10\""],
    .form "func" [.atom "$greet", .form "export" [.atom "\"0x10\""]],
    .form "start" [.atom "$greet"],
    .form "start" [.atom "$greet"]]

theorem stringAtoms_greetingModule :
    (link [.decimalNumerals, .foldConstants, .sizeMemories, .mergeStarts, .sortForms] none
        ⟨.empty, #[]⟩ greetingModule).failure = none ∧
      (link [.decimalNumerals, .foldConstants, .sizeMemories, .mergeStarts, .sortForms] none
        ⟨.empty, #[]⟩ greetingModule).tree.stringAtoms = {"\"0x10\"", "\"0x10\""} ∧
      Tree.form "func" [.atom "$greet", .form "export" [.atom "\"0x10\""]] ∈
        (link [.decimalNumerals, .foldConstants, .sizeMemories, .mergeStarts, .sortForms] none
          ⟨.empty, #[]⟩ greetingModule).tree.items := by
  have succeeded : (link [.decimalNumerals, .foldConstants, .sizeMemories, .mergeStarts, .sortForms]
      none ⟨.empty, #[]⟩ greetingModule).failure = none := by
    decide +kernel
  obtain ⟨sameStrings, keepsForms⟩ := link_keeps_stringAtoms_and_untouched _ none ⟨.empty, #[]⟩
    greetingModule (fun _ member => member) succeeded
  have noNumerals : ∀ part ∈ (Tree.form "func" [.atom "$greet",
      .form "export" [.atom "\"0x10\""]]).subtrees,
      ∀ text ∈ part.text?, (decimalSpelling? text).isNone = true := by
    decide
  have untouched : Untouched (.form "func" [.atom "$greet", .form "export" [.atom "\"0x10\""]]) := by
    refine ⟨by decide, by decide, fun part inside text isText spelling spelled => ?_⟩
    simpa [spelled] using noNumerals part inside text isText
  refine ⟨succeeded, sameStrings.trans ?_, ?_⟩
  · decide
  · have once := keepsForms _ untouched
    exact List.count_pos_iff.mp (Nat.lt_of_lt_of_le (by decide) once)

end Link

end WatLink
