import WatLink.Proofs.StableIndices

/-!
# Sorting as grouping

A sorted module holds its atoms and then its forms, one category after the other.
Inside a category the forms keep their order, so the sorted forms are the groups of
the categories joined, whatever the order was in which the categories were mixed.

Forms may be equal, so stability is a statement about numbered forms: the numbers of
one category increase.  Only one rearrangement of the numbered forms is sorted and
stable.
-/

namespace WatLink

namespace Category

/-- All categories in output order. -/
def inOrder : List Category :=
  [.imported, .declaration, .segment, .function, .exported, .start, .other]

theorem mem_inOrder (category : Category) : category ∈ inOrder := by
  cases category <;> decide

theorem inOrder_pairwise : inOrder.Pairwise fun first second => first.rank < second.rank := by
  decide

theorem rank_injective {first second : Category} (same : first.rank = second.rank) :
    first = second := by
  cases first <;> cases second <;> first | rfl | exact absurd same (by decide)

end Category

namespace Module

/-- The forms of a module that belong to a category, in their order. -/
def formsOf (module : Tree) (category : Category) : List Tree :=
  module.forms.filter (Category.ofForm · == category)

/-! ## Groups -/

/-- Joining the groups of some keys keeps the group of each. -/
theorem filter_flatMap_groups {α κ : Type} [DecidableEq κ] {key : α → κ} {keys : List κ}
    (distinct : keys.Nodup) (entries : List α) (value : κ) :
    (keys.flatMap fun other => entries.filter (key · == other)).filter (key · == value) =
      if value ∈ keys then entries.filter (key · == value) else [] := by
  induction keys with
  | nil => rfl
  | cons first rest ih =>
      obtain ⟨notInRest, distinctRest⟩ := List.nodup_cons.mp distinct
      rw [List.flatMap_cons, List.filter_append, ih distinctRest, List.filter_filter]
      by_cases isFirst : value = first
      · subst isFirst
        simp [notInRest]
      · have noneOfFirst : entries.filter (fun entry => key entry == value && key entry == first) =
            [] := by
          refine List.filter_eq_nil_iff.mpr fun entry _ both => ?_
          rw [Bool.and_eq_true, beq_iff_eq, beq_iff_eq] at both
          exact isFirst (both.1.symm.trans both.2)
        rw [noneOfFirst, List.nil_append]
        simp [isFirst]

theorem filter_rank (entries : List Tree) (category : Category) :
    (entries.filter fun form => (Category.ofForm form).rank == category.rank) =
      entries.filter (Category.ofForm · == category) := by
  refine List.filter_congr fun form _ => ?_
  rw [Bool.eq_iff_iff, beq_iff_eq, beq_iff_eq]
  exact ⟨Category.rank_injective, congrArg Category.rank⟩

theorem category_of_mem_formsOf {module form : Tree} {category : Category}
    (member : form ∈ formsOf module category) : Category.ofForm form = category :=
  eq_of_beq (List.mem_filter.mp member).2

theorem groups_pairwise (module : Tree) :
    (Category.inOrder.flatMap (formsOf module)).Pairwise fun first second =>
      (Category.ofForm first).rank ≤ (Category.ofForm second).rank := by
  refine List.pairwise_flatMap.mpr ⟨fun category _ => ?_, ?_⟩
  · refine List.pairwise_of_forall_mem_list fun first member second member' => ?_
    rw [category_of_mem_formsOf member, category_of_mem_formsOf member']
  · refine Category.inOrder_pairwise.imp fun before first member second member' => ?_
    rw [category_of_mem_formsOf member, category_of_mem_formsOf member']
    exact before.le

theorem sortedForms_pairwise (module : Tree) :
    (sortedForms module).Pairwise fun first second =>
      (Category.ofForm first).rank ≤ (Category.ofForm second).rank :=
  pairwise_mergeSort_byKey formRank module.forms

theorem filter_sortedForms_category (module : Tree) (category : Category) :
    (sortedForms module).filter (Category.ofForm · == category) = formsOf module category :=
  filter_sortedForms (fun _ isSelected => eq_of_beq isSelected) module

/-- The sorted forms are the groups of the categories, one after the other. -/
theorem sortedForms_eq_groups (module : Tree) :
    sortedForms module = Category.inOrder.flatMap (formsOf module) := by
  refine eq_of_filter_key_eq (sortedForms_pairwise module) (groups_pairwise module) fun value => ?_
  by_cases isRank : ∃ category : Category, category.rank = value
  · obtain ⟨category, rfl⟩ := isRank
    have joined : (Category.inOrder.flatMap (formsOf module)).filter
        (Category.ofForm · == category) = formsOf module category :=
      (filter_flatMap_groups (by decide) module.forms category).trans
        (if_pos category.mem_inOrder)
    rw [filter_rank, filter_rank, filter_sortedForms_category, joined]
  · have noForm : ∀ entries : List Tree,
        (entries.filter fun form => (Category.ofForm form).rank == value) = [] := by
      intro entries
      refine List.filter_eq_nil_iff.mpr fun form _ hasRank => ?_
      exact isRank ⟨Category.ofForm form, eq_of_beq hasRank⟩
    rw [noForm, noForm]

/-- Sorting neither loses nor makes nor changes an item. -/
theorem items_sortForms_perm (module : Tree) : (sortForms module).items.Perm module.items := by
  rw [items_sortForms]
  exact List.mergeSort_perm _ _

/-! ## Numbered forms -/

/-- Whether numbered forms are a stable sort of the forms of a module, each numbered by
its place there. -/
structure StableSort (module : Tree) (entries : List (Tree × Nat)) : Prop where
  rearranged : entries.Perm module.forms.zipIdx
  sorted : entries.Pairwise fun first second =>
    (Category.ofForm first.1).rank ≤ (Category.ofForm second.1).rank
  stable : entries.Pairwise fun first second =>
    Category.ofForm first.1 = Category.ofForm second.1 → first.2 < second.2

/-- The numbered forms of a module, sorted by category. -/
def sortedEntries (module : Tree) : List (Tree × Nat) :=
  module.forms.zipIdx.mergeSort (byKey fun entry => formRank entry.1)

theorem map_fst_sortedEntries (module : Tree) :
    (sortedEntries module).map Prod.fst = sortedForms module := by
  rw [sortedForms, ← List.zipIdx_map_fst 0 module.forms]
  exact List.map_mergeSort fun _ _ _ _ => rfl

theorem zipIdx_increases (forms : List Tree) :
    forms.zipIdx.Pairwise fun first second => first.2 < second.2 := by
  rw [← List.pairwise_map, List.zipIdx_map_snd]
  exact List.pairwise_lt_range'

theorem stableSort_sortedEntries (module : Tree) : StableSort module (sortedEntries module) where
  rearranged := List.mergeSort_perm _ _
  sorted := pairwise_mergeSort_byKey _ _
  stable := by
    refine List.pairwise_iff_forall_sublist.mpr fun {first second} inOrder same => ?_
    -- the entries of one category stand in their old order, and there the numbers increase
    let selects := fun entry : Tree × Nat => Category.ofForm entry.1 == Category.ofForm second.1
    have unmoved : (sortedEntries module).filter selects = module.forms.zipIdx.filter selects := by
      refine filter_mergeSort_byKey _ fun entry other is is' => ?_
      rw [formRank, formRank, eq_of_beq is, eq_of_beq is']
    have increases := (zipIdx_increases module.forms).filter selects
    rw [← unmoved, List.pairwise_filter] at increases
    exact List.pairwise_iff_forall_sublist.mp increases inOrder (beq_iff_eq.mpr same)
      (beq_self_eq_true _)

/-- There is only one stable sort of the forms of a module. -/
theorem StableSort.eq {module : Tree} {first second : List (Tree × Nat)}
    (isFirst : StableSort module first) (isSecond : StableSort module second) : first = second := by
  refine List.Perm.eq_of_pairwise (fun entry other _ _ before after => ?_)
    (isFirst.sorted.and isFirst.stable) (isSecond.sorted.and isSecond.stable)
    (isFirst.rearranged.trans isSecond.rearranged.symm)
  have same := Category.rank_injective (Nat.le_antisymm before.1 after.1)
  exact absurd (before.2 same) (Nat.lt_asymm (after.2 same.symm))

/-- Sorting is the stable grouping by category.  A sorted module holds the atoms of the
module and then, category by category, its forms in their order, and these are all of
its items.  The forms are rearranged in the only way that is sorted by category and
keeps the order inside each.  Sorting again changes nothing, and how the categories
were mixed does not matter. -/
theorem sortForms_groups_by_category (module : Tree) :
    sortForms module = .list (module.items.filter (!·.isList) ++
        Category.inOrder.flatMap (formsOf module)) ∧
      (sortForms module).items.Perm module.items ∧
      (∃! entries, StableSort module entries) ∧
      (∀ entries, StableSort module entries →
        (sortForms module).forms = entries.map Prod.fst) ∧
      sortForms (sortForms module) = sortForms module ∧
      ∀ other : Tree, other.items.filter (!·.isList) = module.items.filter (!·.isList) →
        (∀ category, formsOf other category = formsOf module category) →
          sortForms other = sortForms module := by
  have grouped : ∀ module : Tree, sortForms module = .list (module.items.filter (!·.isList) ++
      Category.inOrder.flatMap (formsOf module)) := by
    intro module
    rw [sortForms_eq, sortedForms_eq_groups]
  refine ⟨grouped module, items_sortForms_perm module, ?_, ?_, sortForms_sortForms module, ?_⟩
  · exact ⟨sortedEntries module, stableSort_sortedEntries module,
      fun _ other => other.eq (stableSort_sortedEntries module)⟩
  · intro entries isSort
    rw [isSort.eq (stableSort_sortedEntries module), map_fst_sortedEntries, forms_sortForms]
  · intro other sameAtoms sameForms
    rw [grouped other, grouped module, sameAtoms, funext sameForms]

/-- A module with two equal start entries among functions, one of which is imported. -/
def mixedForms : Tree :=
  .form "module" [.form "start" [.atom "0"], .atom "$m", .form "func" [.atom "$a"],
    .form "start" [.atom "0"], .form "func" [.atom "$b", .form "import" [.atom "\"m\""]],
    .form "memory" [.atom "1"], .form "func" [.atom "$c"]]

/-- The same forms, with the categories mixed in another way. -/
def otherwiseMixedForms : Tree :=
  .form "module" [.atom "$m", .form "func" [.atom "$a"], .form "memory" [.atom "1"],
    .form "func" [.atom "$c"], .form "func" [.atom "$b", .form "import" [.atom "\"m\""]],
    .form "start" [.atom "0"], .form "start" [.atom "0"]]

/-- The forms of the mixed module with their numbers there, sorted. -/
def mixedEntries : List (Tree × Nat) :=
  [(.form "func" [.atom "$b", .form "import" [.atom "\"m\""]], 3), (.form "memory" [.atom "1"], 4),
    (.form "func" [.atom "$a"], 1), (.form "func" [.atom "$c"], 5), (.form "start" [.atom "0"], 0),
    (.form "start" [.atom "0"], 2)]

/-- Both modules are sorted alike, the equal start entries in their order. -/
theorem sortForms_mixedForms :
    sortForms otherwiseMixedForms = sortForms mixedForms ∧
      sortForms mixedForms = .list (.atom "module" :: .atom "$m" :: mixedEntries.map Prod.fst) ∧
      StableSort mixedForms mixedEntries ∧
      (sortForms mixedForms).forms = mixedEntries.map Prod.fst := by
  obtain ⟨grouped, -, -, numbered, -, unmixed⟩ := sortForms_groups_by_category mixedForms
  have isSort : StableSort mixedForms mixedEntries := ⟨by decide, by decide, by decide⟩
  refine ⟨unmixed otherwiseMixedForms rfl fun category => ?_, ?_, isSort, numbered _ isSort⟩
  · cases category <;> decide
  · rw [grouped]
    decide

end Module

end WatLink
