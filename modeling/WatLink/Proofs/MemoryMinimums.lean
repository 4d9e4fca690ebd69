import WatLink.Proofs.KeyedLists
import WatLink.Proofs.MemorySizing

/-!
# Minimum sizes of memories

The ends of the segments of known range that are written to a memory decide about
its minimum: the least number of pages that reaches all of them.  Measuring finds
the furthest end of each memory, and growing puts the number of pages where the
minimum stands, unless it is that large already.  Nothing else in a module
changes.
-/

namespace WatLink

/-! ## Measured ends -/

/-- Whether a form is an active segment at a constant offset in the memory with an
index, and writes up to an address. -/
def WritesUpTo (memories : List Memory) (index : Nat) (form : Tree) (finish : Nat) : Prop :=
  ∃ segment offset memory, Segment.ofForm? form = .ok (some segment) ∧
    segment.offset = some offset ∧ findMemory memories segment.memory = .ok memory ∧
    memory.index = index ∧ finish = offset + segment.size

/-- The addresses up to which some forms write to a memory. -/
def writtenEnds (memories : List Memory) (index : Nat) (forms : List Tree) : Set Nat :=
  {finish | ∃ form ∈ forms, WritesUpTo memories index form finish}

/-- The furthest of some addresses, or `none` if there are none. -/
def Furthest (ends : Set Nat) : Option Nat → Prop
  | none => ends = ∅
  | some finish => IsGreatest ends finish

theorem writtenEnds_nil (memories : List Memory) (index : Nat) :
    writtenEnds memories index [] = ∅ := by
  simp [writtenEnds]

theorem writtenEnds_cons (memories : List Memory) (index : Nat) (form : Tree) (rest : List Tree) :
    writtenEnds memories index (form :: rest) =
      {finish | WritesUpTo memories index form finish} ∪ writtenEnds memories index rest := by
  ext finish
  simp [writtenEnds]

theorem Extents.lookup_extend (extents : Extents) (index finish other : Nat) :
    (extents.extend index finish).lookup other =
      if other = index then some (max ((extents.lookup index).getD 0) finish)
      else extents.lookup other :=
  lookup_put index other _ extents

theorem Furthest.insert {ends : Set Nat} {furthest : Option Nat} (isFurthest : Furthest ends furthest)
    (finish : Nat) : Furthest (ends ∪ {finish}) (some (max (furthest.getD 0) finish)) := by
  cases furthest with
  | none =>
      obtain rfl : ends = ∅ := isFurthest
      simp [Furthest]
  | some before =>
      obtain ⟨member, above⟩ : IsGreatest ends before := isFurthest
      constructor
      · rcases Nat.le_total before finish with behind | ahead
        · simp [behind]
        · simp [ahead, member]
      · rintro other (isEnd | rfl)
        · exact (above isEnd).trans (Nat.le_max_left _ _)
        · exact Nat.le_max_right _ _

/-- Measuring a form takes its end into account. -/
theorem furthest_measureForm {memories : List Memory} {extents extents' : Extents} {form : Tree}
    {events : List Event} (measured : measureForm memories extents form = .ok (extents', events))
    {index : Nat} {ends : Set Nat} (isFurthest : Furthest ends (extents.lookup index)) :
    Furthest (ends ∪ {finish | WritesUpTo memories index form finish}) (extents'.lookup index) := by
  have unwritten : (∀ finish, ¬ WritesUpTo memories index form finish) →
      extents'.lookup index = extents.lookup index →
      Furthest (ends ∪ {finish | WritesUpTo memories index form finish})
        (extents'.lookup index) := by
    intro writesNothing sameExtent
    have noEnds : {finish | WritesUpTo memories index form finish} = ∅ := by
      simpa [Set.eq_empty_iff_forall_notMem] using writesNothing
    rwa [noEnds, Set.union_empty, sameExtent]
  unfold measureForm at measured
  split at measured
  · cases measured
  · rename_i noSegment
    cases measured
    refine unwritten ?_ rfl
    rintro finish ⟨segment, offset, memory, isSegment, -⟩
    simp [noSegment] at isSegment
  · rename_i segment isSegment
    split at measured
    · cases measured
    · rename_i memory found
      split at measured
      · rename_i noOffset
        cases measured
        refine unwritten ?_ rfl
        rintro finish ⟨segment', offset, memory', isSegment', atOffset, -⟩
        cases isSegment.symm.trans isSegment'
        simp [noOffset] at atOffset
      · rename_i offset atOffset
        cases measured
        have writes : ∀ finish, WritesUpTo memories index form finish ↔
            memory.index = index ∧ finish = segment.finish := by
          intro finish
          constructor
          · rintro ⟨segment', offset', memory', isSegment', atOffset', found', sameIndex, rfl⟩
            cases isSegment.symm.trans isSegment'
            cases found.symm.trans found'
            cases atOffset.symm.trans atOffset'
            exact ⟨sameIndex, by simp [Segment.finish, atOffset]⟩
          · rintro ⟨sameIndex, rfl⟩
            exact ⟨segment, offset, memory, isSegment, atOffset, found, sameIndex,
              by simp [Segment.finish, atOffset]⟩
        by_cases sameIndex : memory.index = index
        · have itsEnd : {finish | WritesUpTo memories index form finish} = {segment.finish} := by
            ext finish
            simp [writes, sameIndex]
          rw [itsEnd, Extents.lookup_extend, if_pos sameIndex.symm, sameIndex]
          exact isFurthest.insert segment.finish
        · refine unwritten ?_ (by rw [Extents.lookup_extend, if_neg (Ne.symm sameIndex)])
          intro finish written
          exact sameIndex ((writes finish).mp written).1

/-- Measuring finds the furthest end of each memory. -/
theorem furthest_measureForms {memories : List Memory} {extents extents' : Extents}
    {forms : List Tree} {events : List Event}
    (measured : measureForms memories extents forms = (.ok extents', events))
    {index : Nat} {ends : Set Nat} (isFurthest : Furthest ends (extents.lookup index)) :
    Furthest (ends ∪ writtenEnds memories index forms) (extents'.lookup index) := by
  induction forms generalizing extents ends events with
  | nil =>
      cases measured
      rwa [writtenEnds_nil, Set.union_empty]
  | cons form rest ih =>
      cases first : measureForm memories extents form with
      | error fault => simp [measureForms, first] at measured
      | ok result =>
          obtain ⟨between, events'⟩ := result
          simp only [measureForms, first, Prod.mk.injEq] at measured
          rw [writtenEnds_cons, ← Set.union_assoc]
          exact ih (Prod.ext measured.1 rfl) (furthest_measureForm first isFurthest)

/-- The pages for the furthest end are the least number that reaches all ends. -/
theorem isLeast_pagesFor {ends : Set Nat} {finish : Nat} (isGreatest : IsGreatest ends finish) :
    ∃ pages : Nat, pagesFor finish = pages ∧
      IsLeast {count | ∀ other ∈ ends, other ≤ count * pageSize} pages := by
  obtain ⟨member, above⟩ := isGreatest
  refine ⟨(finish + 65535) / 65536, by simp only [pagesFor, pageSize]; omega, ?_, ?_⟩
  · intro other isEnd
    have := above isEnd
    simp only [pageSize]
    omega
  · intro count reaches
    have := reaches finish member
    simp only [pageSize] at this
    omega

/-! ## Resized forms -/

namespace Memory

/-- The values of the integer literals of a memory form: its minimum, then its
maximum. -/
def limitValues (form : Tree) : List Int :=
  form.items.tail.filterMap limitValue?

/-- A memory form before and after sizing, given the ends of what is written to it.
Without any, and with inline data, it stays.  Else it is grown to the least number
of pages that reaches them all. -/
inductive Resized (ends : Set Nat) : Tree → Tree → Prop
  | unwritten {form : Tree} : ends = ∅ → Resized ends form form
  | inlineData {form : Tree} : (form.find? ["data"]).isSome = true → Resized ends form form
  | grown {pages : Nat} {rest rest' : List Tree} :
      ends.Nonempty → (Tree.list (.atom "memory" :: rest)).find? ["data"] = none →
        IsLeast {count | ∀ finish ∈ ends, finish ≤ count * pageSize} pages →
          Grown pages rest rest' →
            Resized ends (.list (.atom "memory" :: rest)) (.list (.atom "memory" :: rest'))

theorem resized_of_fitted {extents : Extents} {memory : Memory} {form' : Tree} {ends : Set Nat}
    (tagged : memory.form.tag? = some "memory")
    (isFurthest : Furthest ends (extents.lookup memory.index))
    (fitted : Fitted extents memory form') : Resized ends memory.form form' := by
  unfold Fitted at fitted
  split at fitted
  · rename_i noExtent
    rw [noExtent] at isFurthest
    exact fitted ▸ .unwritten isFurthest
  · rename_i finish hasExtent
    rw [hasExtent] at isFurthest
    obtain ⟨event?, grows⟩ := fitted
    obtain ⟨pages, pages_eq, isLeast⟩ := isLeast_pagesFor isFurthest
    rw [pages_eq] at grows
    obtain ⟨index, name, form⟩ := memory
    obtain ⟨rest, rfl⟩ := Tree.exists_of_tag? tagged
    rcases grow_eq_ok grows with ⟨hasData, rfl⟩ | ⟨noData, rest', rfl, grown⟩
    · exact .inlineData hasData
    · exact .grown ⟨finish, isFurthest.1⟩ noData isLeast grown

theorem filterMap_limitValue?_eq_nil {items : List Tree} (noLimits : items.filter isLimit = []) :
    items.filterMap limitValue? = [] := by
  rw [filterMap_limitValue?, noLimits]
  rfl

theorem limitValue?_decimalNumeral (number : Int) :
    limitValue? (.atom (decimalNumeral number)) = some number := by
  simp [limitValue?, Tree.text?, (isText_decimalNumeral number).ofText?, value_decimalLiteral]

/-- The limits behind growing: the minimum is at least the number of pages and the
minimum before, and the limits behind it are the same.  If it changed, it is not
above the next one. -/
theorem Grown.limits {pages : Int} {items items' : List Tree} (grown : Grown pages items items') :
    ∃ minimum' further, items'.filterMap limitValue? = minimum' :: further ∧ pages ≤ minimum' ∧
      (items.filterMap limitValue? = [] ∨
        ∃ minimum, items.filterMap limitValue? = minimum :: further ∧ minimum ≤ minimum' ∧
          (minimum' = minimum ∨ ∀ maximum ∈ further.head?, minimum' ≤ maximum)) := by
  cases grown with
  | @enough before after text literal noneBefore isLiteral large =>
      have values : (before ++ .atom text :: after).filterMap limitValue? =
          literal.value :: after.filterMap limitValue? := by
        simp [filterMap_limitValue?_eq_nil noneBefore, limitValue?, Tree.text?,
          isLiteral]
      exact ⟨_, _, values, large, .inr ⟨_, values, le_rfl, .inl rfl⟩⟩
  | @replaced before after text literal noneBefore isLiteral small underMaximum _ =>
      have values : (before ++ .atom text :: after).filterMap limitValue? =
          literal.value :: after.filterMap limitValue? := by
        simp [filterMap_limitValue?_eq_nil noneBefore, limitValue?, Tree.text?,
          isLiteral]
      refine ⟨pages, after.filterMap limitValue?, ?_, le_rfl, .inr ⟨_, values, small.le, .inr underMaximum⟩⟩
      simp [filterMap_limitValue?_eq_nil noneBefore, limitValue?_decimalNumeral]
  | @inserted before after noLimits _ _ _ =>
      have noValues := filterMap_limitValue?_eq_nil noLimits
      refine ⟨pages, [], ?_, le_rfl, .inl noValues⟩
      rw [List.filterMap_append, List.append_eq_nil_iff] at noValues
      simp [noValues, limitValue?_decimalNumeral]

namespace Resized

variable {ends : Set Nat} {form form' : Tree}

/-- Everything that is written to a resized memory fits into its minimum. -/
theorem le_minimum (resized : Resized ends form form') (noData : form.find? ["data"] = none) :
    ∀ finish ∈ ends, ∃ minimum ∈ (limitValues form').head?, (finish : Int) ≤ minimum * pageSize := by
  intro finish isEnd
  cases resized with
  | unwritten noEnds => simp [noEnds] at isEnd
  | inlineData hasData => simp [noData] at hasData
  | @grown pages rest rest' _ _ isLeast grown =>
      obtain ⟨minimum, further, values, large, -⟩ := grown.limits
      refine ⟨minimum, by simp [limitValues, Tree.items, values], ?_⟩
      have reaches : finish ≤ pages * pageSize := isLeast.1 finish isEnd
      calc (finish : Int) ≤ pages * pageSize := by exact_mod_cast reaches
        _ ≤ minimum * pageSize := Int.mul_le_mul_of_nonneg_right large (by decide)

theorem minimum_le (resized : Resized ends form form') :
    ∀ minimum ∈ (limitValues form).head?, ∃ minimum' ∈ (limitValues form').head?,
      minimum ≤ minimum' := by
  intro minimum isMinimum
  cases resized with
  | unwritten _ => exact ⟨minimum, isMinimum, le_rfl⟩
  | inlineData _ => exact ⟨minimum, isMinimum, le_rfl⟩
  | grown _ _ _ grown =>
      obtain ⟨minimum', further, values', -, noValues | ⟨current, values, raised, -⟩⟩ := grown.limits
      · simp [limitValues, Tree.items, noValues] at isMinimum
      · simp only [limitValues, Tree.items, List.tail_cons, values, values', List.head?_cons,
          Option.mem_some_iff] at isMinimum ⊢
        exact ⟨minimum', rfl, isMinimum ▸ raised⟩

theorem minimum_le_maximum (resized : Resized ends form form') {minimum maximum : Int}
    {further : List Int} (values : limitValues form = minimum :: maximum :: further)
    (ordered : minimum ≤ maximum) :
    ∃ minimum', limitValues form' = minimum' :: maximum :: further ∧ minimum' ≤ maximum := by
  cases resized with
  | unwritten _ => exact ⟨minimum, values, ordered⟩
  | inlineData _ => exact ⟨minimum, values, ordered⟩
  | grown _ _ _ grown =>
      simp only [limitValues, Tree.items, List.tail_cons] at values ⊢
      obtain ⟨minimum', others, values', -, noValues | ⟨current, values'', -, bounded⟩⟩ := grown.limits
      · simp [noValues] at values
      · obtain ⟨rfl, rfl⟩ := List.cons.inj (values''.symm.trans values)
        refine ⟨minimum', values', ?_⟩
        rcases bounded with rfl | bounded
        · exact ordered
        · exact bounded maximum rfl

end Resized

end Memory

/-! ## Sized modules -/

namespace Module

open Memory

/-- The addresses up to which the data of a module writes to a memory. -/
def dataEnds (module : Tree) (index : Nat) : Set Nat :=
  writtenEnds (memories module) index module.forms

/-- A top-level item before and after sizing: only the form of a memory changes,
which may stand inside an import. -/
inductive SizedItem (module : Tree) : Tree → Tree → Prop
  | other {item : Tree} : declaration? "memory" item = none → SizedItem module item item
  | defined {item item' : Tree} {index : Nat} : item.hasTag "import" = false →
      (indexSpace module "memory")[index]? = some ⟨item, hasInlineImport item⟩ →
        Resized (dataEnds module index) item item' → SizedItem module item item'
  | imported {before after : List Tree} {form form' : Tree} {index : Nat} :
      (∀ item ∈ before, item.hasTag "memory" = false) →
        (indexSpace module "memory")[index]? = some ⟨form, true⟩ →
          Resized (dataEnds module index) form form' →
            SizedItem module (.list (.atom "import" :: (before ++ form :: after)))
              (.list (.atom "import" :: (before ++ form' :: after)))

theorem mem_writtenEnds_iff {memories : List Memory} {module : Tree} {index finish : Nat} :
    finish ∈ writtenEnds memories index module.forms ↔
      ∃ form ∈ module.items.filter (·.hasTag "data"), WritesUpTo memories index form finish := by
  rw [← filter_data_forms]
  constructor
  · rintro ⟨form, isForm, writes⟩
    have isData : form.hasTag "data" = true := by
      obtain ⟨segment, _, _, isSegment, -⟩ := writes
      by_contra other
      simp [Segment.ofForm?, other] at isSegment
    exact ⟨form, List.mem_filter.mpr ⟨isForm, isData⟩, writes⟩
  · rintro ⟨form, isData, writes⟩
    exact ⟨form, (List.mem_filter.mp isData).1, writes⟩

theorem WritesUpTo.of_keys {memories memories' : List Memory} {index finish : Nat} {form : Tree}
    (sameKeys : memories'.map Memory.key = memories.map Memory.key)
    (writes : WritesUpTo memories index form finish) : WritesUpTo memories' index form finish := by
  obtain ⟨segment, offset, memory, isSegment, atOffset, found, sameIndex, isEnd⟩ := writes
  have same := findMemory_congr sameKeys segment.memory
  cases found' : findMemory memories' segment.memory with
  | error fault => simp [found, found', Except.map] at same
  | ok memory' =>
      simp only [found, found', Except.map, Except.ok.injEq] at same
      exact ⟨segment, offset, memory', isSegment, atOffset, found', same.trans sameIndex, isEnd⟩

/-- Sizing keeps what is written to each memory. -/
theorem dataEnds_sizeMemories {module : Tree} (succeeded : (sizeMemories module).failure = none)
    (index : Nat) : dataEnds (sizeMemories module).module index = dataEnds module index := by
  obtain ⟨extents, events, grown, -, fitted, module_eq⟩ := sizeMemories_cases succeeded
  have sameKeys := keys_sized fitted
  have sameData := filter_mapIndexSpace (by decide : "data" ≠ "import") (by decide)
    fun _ _ found => sameDeclaration_grownForm fitted found
  ext finish
  rw [module_eq, dataEnds, dataEnds, mem_writtenEnds_iff, mem_writtenEnds_iff, sameData]
  constructor
  · rintro ⟨form, isData, writes⟩
    exact ⟨form, isData, WritesUpTo.of_keys sameKeys.symm writes⟩
  · rintro ⟨form, isData, writes⟩
    exact ⟨form, isData, WritesUpTo.of_keys sameKeys writes⟩

/-- Sizing changes the forms of memories as the data asks for, index by index, and
nothing else. -/
theorem resized_sizeMemories {module : Tree} (succeeded : (sizeMemories module).failure = none) :
    ∃ change, (sizeMemories module).module = mapIndexSpace module "memory" change ∧
      ∀ index declaration, (indexSpace module "memory")[index]? = some declaration →
        Resized (dataEnds module index) declaration.form (change index declaration.form) ∧
          SameDeclaration declaration.form (change index declaration.form) := by
  obtain ⟨extents, events, grown, measured, fitted, module_eq⟩ := sizeMemories_cases succeeded
  refine ⟨grownForm grown, module_eq, fun index declaration found => ?_⟩
  refine ⟨?_, sameDeclaration_grownForm fitted found⟩
  have isFurthest : Furthest (dataEnds module index) (extents.lookup index) := by
    have none : Furthest ∅ (List.lookup index ([] : Extents)) := rfl
    simpa [dataEnds] using furthest_measureForms measured none
  have fits := fitted _ (mem_memories_iff.mpr ⟨index, declaration, found, rfl⟩)
  exact resized_of_fitted (tag_of_indexSpace found) isFurthest fits

theorem sizedItem_of_changedItem {module : Tree} {change : Nat → Tree → Tree} {item item' : Tree}
    (resizes : ∀ index declaration, (indexSpace module "memory")[index]? = some declaration →
      Resized (dataEnds module index) declaration.form (change index declaration.form))
    (changed : ChangedItem "memory" change (fun index declaration =>
      (indexSpace module "memory")[index]? = some declaration) item item') :
    SizedItem module item item' := by
  rcases changed with ⟨notDeclared, rfl⟩ | ⟨index, declaration, declares, found, rfl⟩
  · exact .other notDeclared
  · have resized := resizes index declaration found
    obtain ⟨form, imported⟩ := declaration
    rcases declaration?_cases declares with ⟨rest, rfl, isImported, inside⟩ | ⟨notImport, -, isItem⟩
    · obtain ⟨before, after, rfl, others, replaced⟩ := replaceFirst_split inside
      obtain rfl : imported = true := isImported
      rw [replaceDeclaration_import, replaced]
      exact .imported others found resized
    · cases isItem
      simp only [replaceDeclaration, notImport]
      exact .defined notImport found resized

/-- Sizing without a failure gives each memory the least minimum that holds its data
unless it has a larger one, changes nothing else, and has nothing to do afterwards. -/
theorem sizeMemories_gives_least_minimums {items : List Tree}
    (succeeded : (sizeMemories (.list items)).failure = none) :
    (∀ index declaration, (indexSpace (.list items) "memory")[index]? = some declaration →
      ∃ form',
        (indexSpace (sizeMemories (.list items)).module "memory")[index]? =
          some ⟨form', declaration.imported⟩ ∧
        Resized (dataEnds (.list items) index) declaration.form form' ∧
        (declaration.form.find? ["data"] = none →
          ∀ finish ∈ dataEnds (sizeMemories (.list items)).module index,
            ∃ minimum ∈ (limitValues form').head?, (finish : Int) ≤ minimum * pageSize) ∧
        (∀ minimum ∈ (limitValues declaration.form).head?,
          ∃ minimum' ∈ (limitValues form').head?, minimum ≤ minimum') ∧
        ∀ minimum maximum further, limitValues declaration.form = minimum :: maximum :: further →
          minimum ≤ maximum →
            ∃ minimum', limitValues form' = minimum' :: maximum :: further ∧ minimum' ≤ maximum) ∧
      List.Forall₂ (SizedItem (.list items)) items (sizeMemories (.list items)).module.items ∧
      (sizeMemories (sizeMemories (.list items)).module).failure = none ∧
      (sizeMemories (sizeMemories (.list items)).module).module =
        (sizeMemories (.list items)).module := by
  obtain ⟨change, module_eq, changes⟩ := resized_sizeMemories succeeded
  have isList : (sizeMemories (.list items)).module =
      .list (sizeMemories (.list items)).module.items := by
    rw [module_eq]
    rfl
  have again := sizeMemories_of_sized (isList ▸ sized_sizeMemories succeeded)
  rw [← isList] at again
  refine ⟨fun index declaration found => ?_, ?_, again.2, again.1⟩
  · obtain ⟨resized, -⟩ := changes index declaration found
    refine ⟨change index declaration.form, ?_, resized, ?_, resized.minimum_le,
      fun _ _ _ values ordered => resized.minimum_le_maximum values ordered⟩
    · rw [module_eq, indexSpace_mapIndexSpace fun index declaration found =>
        (changes index declaration found).2]
      simp [found]
    · rw [dataEnds_sizeMemories succeeded]
      exact resized.le_minimum
  · rw [module_eq]
    exact (mapIndexSpace_forall₂ (.list items)).imp fun _ _ =>
      sizedItem_of_changedItem fun index declaration found => (changes index declaration found).1

/-- Two memories, of which the first is imported and too small for the data behind
its first page, and the second gets no data at a constant offset. -/
def smallMemories : List Tree :=
  [.atom "module",
    .form "memory" [.atom "$own", .atom "1"],
    .form "import" [.atom "\"env\"", .atom "\"mem\"", .form "memory" [.atom "0x1", .atom "4"]],
    .form "data" [.form "i32.const" [.atom "0x1fffe"], .atom "\"abc\""],
    .form "data" [.form "memory" [.atom "$own"], .form "global.get" [.atom "$at"], .atom "\"x\""]]

theorem least_minimums_smallMemories :
    (sizeMemories (.list smallMemories)).failure = none ∧
      (indexSpace (sizeMemories (.list smallMemories)).module "memory")[0]? =
        some ⟨.form "memory" [.atom "3", .atom "4"], true⟩ ∧
      Resized (dataEnds (.list smallMemories) 0) (.form "memory" [.atom "0x1", .atom "4"])
        (.form "memory" [.atom "3", .atom "4"]) ∧
      0x20001 ∈ dataEnds (.list smallMemories) 0 ∧
      ∃ minimum ∈ (limitValues (.form "memory" [.atom "3", .atom "4"])).head?,
        (0x20001 : Int) ≤ minimum * pageSize := by
  have succeeded : (sizeMemories (.list smallMemories)).failure = none := by
    decide +kernel
  have sized : (indexSpace (sizeMemories (.list smallMemories)).module "memory")[0]? =
      some ⟨.form "memory" [.atom "3", .atom "4"], true⟩ := by
    decide +kernel
  obtain ⟨memories, -, -, -⟩ := sizeMemories_gives_least_minimums succeeded
  obtain ⟨form', found, resized, fits, -, -⟩ :=
    memories 0 ⟨.form "memory" [.atom "0x1", .atom "4"], true⟩ (by decide)
  cases sized.symm.trans found
  have isEnd : 0x20001 ∈ dataEnds (.list smallMemories) 0 := by
    have isSegment : Segment.ofForm? (smallMemories.getD 3 (.list [])) =
        .ok (some ⟨smallMemories.getD 3 (.list []), "0", some 0x1fffe, 3⟩) := rfl
    have refersTo : findMemory (Module.memories (.list smallMemories)) "0" =
        .ok ⟨0, none, .form "memory" [.atom "0x1", .atom "4"]⟩ := rfl
    exact ⟨_, by decide, _, _, _, isSegment, rfl, refersTo, rfl, rfl⟩
  refine ⟨succeeded, sized, resized, isEnd, fits (by decide) _ ?_⟩
  rwa [dataEnds_sizeMemories succeeded]

end Module

end WatLink
