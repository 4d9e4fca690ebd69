import Mathlib
import WatLink.Module.Sorting
import WatLink.Start.Merging

/-!
# Index spaces under changes of a module

What the passes behind the imports do to the top-level forms of a module.
Sorting is stable, so forms of one category keep their order, and with them every
index space.  Merging starts takes out only start entries and appends a function.
Changing the declarations of a kind in place changes the index space of that kind
index by index and no form of another kind.
-/

namespace WatLink

theorem Tree.exists_of_tag? {tree : Tree} {tag : String} (tagged : tree.tag? = some tag) :
    ∃ rest, tree = .list (.atom tag :: rest) := by
  match tree, tagged with
  | .list (.atom text :: rest), tagged => exact ⟨rest, by simpa [Tree.tag?] using tagged⟩

namespace Module

/-! ## Declarations -/

theorem find?_eq (tree : Tree) (tags : List String) :
    tree.find? tags = tree.items.find? (·.hasTagIn tags) := by
  rw [Tree.find?, Tree.forms, List.find?_filter]
  refine congrArg (fun test => tree.items.find? test) (funext fun item => ?_)
  cases item with
  | atom text => rfl
  | list items => simp [Tree.isList]

theorem hasTagIn_singleton (tree : Tree) (tag : String) :
    tree.hasTagIn [tag] = tree.hasTag tag := by
  cases tagged : tree.tag? with
  | none => simp [Tree.hasTagIn, Tree.hasTag, tagged]
  | some other => simp [Tree.hasTagIn, Tree.hasTag, tagged, beq_eq_decide]

/-- The declaration of a kind with a flag that an item makes, if it makes one. -/
def declaredAs? (kind : String) (imported : Bool) (item : Tree) : Option Declaration :=
  (declaration? kind item).filter (·.imported == imported)

/-- The declarations of a kind with a flag among some items. -/
def declared (kind : String) (imported : Bool) (items : List Tree) : List Declaration :=
  items.filterMap (declaredAs? kind imported)

theorem declared_eq_filter (kind : String) (imported : Bool) (items : List Tree) :
    declared kind imported items =
      (items.filterMap (declaration? kind)).filter (·.imported == imported) :=
  List.filter_filterMap.symm

theorem indexSpace_eq_declared (module : Tree) (kind : String) :
    indexSpace module kind =
      declared kind true module.items ++ declared kind false module.items := by
  simp [indexSpace, declarations, declared_eq_filter]

theorem importedCount_eq (module : Tree) (kind : String) :
    ((declarations module kind).filter (·.imported)).length =
      (declared kind true module.items).length := by
  simp [declarations, declared_eq_filter]

section DeclaredItems

variable {kind : String} {imported : Bool} {item : Tree} {rest : List Tree}

theorem declaredAs?_eq_none (other : declaration? kind item = none) :
    declaredAs? kind imported item = none := by
  simp [declaredAs?, other]

theorem declared_cons_of_none (other : declaration? kind item = none) :
    declared kind imported (item :: rest) = declared kind imported rest :=
  List.filterMap_cons_none (declaredAs?_eq_none other)

theorem declared_cons_of_some {declaration : Declaration}
    (declares : declaration? kind item = some declaration) :
    declared kind imported (item :: rest) =
      if declaration.imported = imported then declaration :: declared kind imported rest
      else declared kind imported rest := by
  by_cases same : declaration.imported = imported
  · rw [if_pos same]
    exact List.filterMap_cons_some (by simp [declaredAs?, declares, Option.filter, same])
  · rw [if_neg same]
    exact List.filterMap_cons_none (by simp [declaredAs?, declares, Option.filter, same])

theorem declaration?_atom (kind text : String) : declaration? kind (.atom text) = none := by
  simp [declaration?, Tree.hasTag, Tree.tag?]

/-- The declarations of a kind with a flag are made by forms of one category. -/
theorem category_of_declaredAs? (declares : (declaredAs? kind imported item).isSome = true) :
    Category.ofForm item = if imported then .imported else Category.ofTag kind := by
  unfold declaredAs? declaration? at declares
  split at declares
  · rename_i isImport
    have tagged : item.tag? = some "import" := by simpa [Tree.hasTag] using isImport
    have notInline : hasInlineImport item = false := by
      simp [hasInlineImport, Tree.hasTagIn, tagged, importableTags]
    cases inner : item.find? [kind] with
    | none => simp [inner] at declares
    | some form =>
        obtain rfl : true = imported := by simpa [inner, Option.filter] using declares
        simp [Category.ofForm, notInline, tagged, Category.ofTag]
  · split at declares
    · rename_i isKind
      have tagged : item.tag? = some kind := by simpa [Tree.hasTag] using isKind
      obtain rfl : hasInlineImport item = imported := by simpa [Option.filter] using declares
      cases isInline : hasInlineImport item <;> simp [Category.ofForm, isInline, tagged]
    · simp at declares

end DeclaredItems

/-! ## Sorting -/

section Keys

variable {α : Type} (key : α → Nat)

/-- Whether an entry may stand in front of another in the order of a key. -/
def byKey (first second : α) : Bool :=
  decide (key first ≤ key second)

theorem byKey_trans (first second third : α) (firstLe : byKey key first second = true)
    (secondLe : byKey key second third = true) : byKey key first third = true := by
  simp only [byKey, decide_eq_true_eq] at *
  omega

theorem byKey_total (first second : α) :
    (byKey key first second || byKey key second first) = true := by
  simp only [byKey, Bool.or_eq_true, decide_eq_true_eq]
  omega

theorem pairwise_mergeSort_byKey (entries : List α) :
    (entries.mergeSort (byKey key)).Pairwise fun first second => key first ≤ key second :=
  (List.pairwise_mergeSort (byKey_trans key) (byKey_total key) entries).imp of_decide_eq_true

/-- Entries with the same key keep their order. -/
theorem filter_mergeSort_byKey {selects : α → Bool} {entries : List α}
    (alike : ∀ first second, selects first = true → selects second = true →
      key first = key second) :
    (entries.mergeSort (byKey key)).filter selects = entries.filter selects := by
  have ordered : (entries.filter selects).Pairwise
      fun first second => byKey key first second = true := by
    refine List.pairwise_of_forall_mem_list fun first member second member' => ?_
    have sameKey := alike first second (List.of_mem_filter member) (List.of_mem_filter member')
    exact decide_eq_true sameKey.le
  have inOrder := List.sublist_mergeSort (byKey_trans key) (byKey_total key) ordered
    List.filter_sublist
  have selected := inOrder.filter selects
  rw [List.filter_filter] at selected
  simp only [Bool.and_self] at selected
  have sameLength := ((List.mergeSort_perm entries (byKey key)).filter selects).length_eq
  exact (selected.eq_of_length sameLength.symm).symm

end Keys

/-- The rank of a form in a sorted module. -/
def formRank (form : Tree) : Nat :=
  (Category.ofForm form).rank

/-- The forms of a module in the order of their categories. -/
def sortedForms (module : Tree) : List Tree :=
  module.forms.mergeSort (byKey formRank)

theorem sortForms_eq (module : Tree) :
    sortForms module = .list (module.items.filter (!·.isList) ++ sortedForms module) :=
  rfl

/-- Forms of one category keep their order. -/
theorem filter_sortedForms {selects : Tree → Bool} {category : Category}
    (sameCategory : ∀ form, selects form = true → Category.ofForm form = category)
    (module : Tree) : (sortedForms module).filter selects = module.forms.filter selects := by
  refine filter_mergeSort_byKey formRank fun first second isFirst isSecond => ?_
  rw [formRank, formRank, sameCategory first isFirst, sameCategory second isSecond]

/-- Anything read off the forms of one category is read off the sorted module in
the same order. -/
theorem filterMap_sortForms {β : Type} {read : Tree → Option β} {category : Category}
    (noAtoms : ∀ text, read (.atom text) = none)
    (sameCategory : ∀ item, (read item).isSome = true → Category.ofForm item = category)
    (module : Tree) :
    (sortForms module).items.filterMap read = module.items.filterMap read := by
  have fromSelected : ∀ items : List Tree,
      items.filterMap read = (items.filter fun item => (read item).isSome).filterMap read := by
    intro items
    rw [List.filterMap_filter]
    refine List.filterMap_congr fun item _ => ?_
    cases read item <;> rfl
  have fromForms : ∀ items : List Tree,
      items.filterMap read = (items.filter Tree.isList).filterMap read := by
    intro items
    rw [List.filterMap_filter]
    refine List.filterMap_congr fun item _ => ?_
    cases item with
    | atom text => simp [noAtoms, Tree.isList]
    | list items => rfl
  have atomsGiveNone : (module.items.filter (!·.isList)).filterMap read = [] := by
    rw [fromForms, List.filter_filter]
    simp
  rw [sortForms_eq, Tree.items, List.filterMap_append, atomsGiveNone, List.nil_append,
    fromSelected, filter_sortedForms sameCategory, ← fromSelected, fromForms module.items,
    Tree.forms]

/-- Forms with a tag that takes no inline imports keep their order. -/
theorem filter_hasTag_sortForms (module : Tree) {tag : String} (plain : tag ∉ importableTags) :
    (sortForms module).items.filter (·.hasTag tag) = module.items.filter (·.hasTag tag) := by
  have sameCategory : ∀ item : Tree, item.hasTag tag = true →
      Category.ofForm item = Category.ofTag tag := by
    intro item isTagged
    have tagged : item.tag? = some tag := by simpa [Tree.hasTag] using isTagged
    simp [Category.ofForm, hasInlineImport, Tree.hasTagIn, tagged, plain]
  simp only [← List.filterMap_eq_filter]
  refine filterMap_sortForms (fun _ => rfl) (fun item isSome => sameCategory item ?_) module
  simpa [Option.guard] using isSome

theorem declared_sortForms (module : Tree) (kind : String) (imported : Bool) :
    declared kind imported (sortForms module).items = declared kind imported module.items :=
  filterMap_sortForms (fun text => declaredAs?_eq_none (declaration?_atom kind text))
    (fun _ => category_of_declaredAs?) module

/-- Sorting changes no index space. -/
theorem indexSpace_sortForms (module : Tree) (kind : String) :
    indexSpace (sortForms module) kind = indexSpace module kind := by
  rw [indexSpace_eq_declared, indexSpace_eq_declared, declared_sortForms, declared_sortForms]

theorem isList_of_mem_sortedForms {module form : Tree} (member : form ∈ sortedForms module) :
    form.isList = true :=
  List.of_mem_filter ((List.mergeSort_perm _ _).subset member)

theorem forms_sortForms (module : Tree) : (sortForms module).forms = sortedForms module := by
  rw [sortForms_eq, Tree.forms, Tree.items, List.filter_append, List.filter_filter,
    List.filter_eq_self.mpr fun _ => isList_of_mem_sortedForms]
  simp

/-- A sorted module is not changed by sorting. -/
theorem sortForms_sortForms (module : Tree) :
    sortForms (sortForms module) = sortForms module := by
  have sortedAgain : (sortedForms module).mergeSort (byKey formRank) = sortedForms module :=
    List.mergeSort_of_pairwise (List.pairwise_mergeSort (byKey_trans _) (byKey_total _) _)
  have noAtoms : (sortedForms module).filter (!·.isList) = [] :=
    List.filter_eq_nil_iff.mpr fun form member => by simp [isList_of_mem_sortedForms member]
  have atoms : (sortForms module).items.filter (!·.isList) =
      module.items.filter (!·.isList) := by
    rw [sortForms_eq, Tree.items, List.filter_append, List.filter_filter, noAtoms]
    simp
  rw [sortForms_eq (sortForms module), sortedForms, atoms, forms_sortForms, sortedAgain,
    sortForms_eq]

theorem mem_sortForms_iff {module item : Tree} :
    item ∈ (sortForms module).items ↔ item ∈ module.items := by
  rw [sortForms_eq, Tree.items, List.mem_append, sortedForms,
    (List.mergeSort_perm module.forms (byKey formRank)).mem_iff, Tree.forms, List.mem_filter,
    List.mem_filter, ← and_or_left]
  cases item.isList <;> simp

/-! ## Merging starts -/

/-- What merging the start entries of a module makes of it. -/
inductive StartsMerged (module : Tree) : Tree → Prop
  | same : (module.items.filter (·.hasTag "start")).length ≤ 1 → StartsMerged module module
  | merged {identifier : String} {targets : List String} :
      startTargets (module.items.filter (·.hasTag "start")) = .ok targets →
        freshIdentifier module.identifiers startIdentifier = .ok identifier →
          StartsMerged module (.list (module.items.filter (!·.hasTag "start") ++
            [startFunction identifier targets, Tree.form "start" [.atom identifier]]))

theorem startsMerged_of_mergeStarts {module module' : Tree} {event? : Option (Nat × String)}
    (merges : mergeStarts module = .ok (module', event?)) : StartsMerged module module' := by
  unfold mergeStarts at merges
  dsimp only at merges
  split at merges
  · cases merges
    exact .same ‹_›
  · cases found : startTargets (module.items.filter (·.hasTag "start")) with
    | error fault => simp [found] at merges
    | ok targets =>
        cases free : freshIdentifier module.identifiers startIdentifier with
        | error fault => simp [found, free] at merges
        | ok identifier =>
            simp only [found, free, Except.ok.injEq, Prod.mk.injEq] at merges
            obtain ⟨rfl, -⟩ := merges
            exact .merged found free

/-- A target is an atom of a start entry. -/
theorem exists_start_of_mem {starts : List Tree} {targets : List String}
    (found : startTargets starts = .ok targets) {target : String} (member : target ∈ targets) :
    ∃ form ∈ starts, .atom target ∈ form.items := by
  induction starts generalizing targets with
  | nil =>
      cases found
      simp at member
  | cons form rest ih =>
      unfold startTargets at found
      cases own : startTarget form with
      | error fault => simp [own] at found
      | ok first =>
          have inForm : .atom first ∈ form.items := by
            unfold startTarget at own
            split at own
            · rename_i items
              cases own
              simp [items]
            · cases own
          cases others : startTargets rest with
          | error fault => simp [own, others, Except.map] at found
          | ok behind =>
              simp only [own, others, Except.map, Except.ok.injEq] at found
              subst found
              rcases List.mem_cons.mp member with rfl | inRest
              · exact ⟨form, by simp, inForm⟩
              · obtain ⟨other, isStart, inOther⟩ := ih others inRest
                exact ⟨other, by simp [isStart], inOther⟩

/-- What is read off a merged module is what is read off the module, and then what
is read off the new function. -/
theorem filterMap_merged {β : Type} {read : Tree → Option β}
    (notRead : ∀ item, item.hasTag "start" = true → read item = none) (items : List Tree)
    (identifier : String) (function : Tree) :
    (items.filter (!·.hasTag "start") ++
        [function, Tree.form "start" [.atom identifier]]).filterMap read =
      items.filterMap read ++ (read function).toList := by
  have startNotRead : read (Tree.form "start" [.atom identifier]) = none := notRead _ rfl
  have others : (items.filter (!·.hasTag "start")).filterMap read = items.filterMap read := by
    rw [List.filterMap_filter]
    refine List.filterMap_congr fun item _ => ?_
    cases isStart : item.hasTag "start" with
    | false => rfl
    | true => simp [notRead item isStart]
  rw [List.filterMap_append, others]
  cases isRead : read function <;> simp [startNotRead, isRead]

/-- Anything read off neither start entries nor functions is read off the merged
module in the same order. -/
theorem StartsMerged.filterMap {β : Type} {module module' : Tree} {read : Tree → Option β}
    (merges : StartsMerged module module')
    (notRead : ∀ item, item.hasTagIn ["start", "func"] = true → read item = none) :
    module'.items.filterMap read = module.items.filterMap read := by
  have startNotRead : ∀ item : Tree, item.hasTag "start" = true → read item = none := by
    intro item isStart
    have tagged : item.tag? = some "start" := by simpa [Tree.hasTag] using isStart
    exact notRead item (by simp [Tree.hasTagIn, tagged])
  cases merges with
  | same few => rfl
  | @merged identifier targets found free =>
      have functionNotRead : read (startFunction identifier targets) = none := notRead _ rfl
      rw [Tree.items, filterMap_merged startNotRead, functionNotRead]
      simp

theorem StartsMerged.filter_hasTag {module module' : Tree} (merges : StartsMerged module module')
    {tag : String} (otherTag : tag ∉ ["start", "func"]) :
    module'.items.filter (·.hasTag tag) = module.items.filter (·.hasTag tag) := by
  simp only [← List.filterMap_eq_filter]
  refine merges.filterMap fun item isOther => ?_
  cases isTagged : item.hasTag tag with
  | false => simp [Option.guard, isTagged]
  | true =>
      have tagged : item.tag? = some tag := by simpa [Tree.hasTag] using isTagged
      exact absurd (by simpa [Tree.hasTagIn, tagged] using isOther) otherTag

/-- Merging starts changes only the index space of functions. -/
theorem StartsMerged.indexSpace {module module' : Tree} (merges : StartsMerged module module')
    {kind : String} (otherKind : kind ∉ ["start", "func"]) :
    indexSpace module' kind = Module.indexSpace module kind := by
  have notDeclared : ∀ item : Tree, item.hasTagIn ["start", "func"] = true →
      declaration? kind item = none := by
    intro item isOther
    cases tagged : item.tag? with
    | none => simp [Tree.hasTagIn, tagged] at isOther
    | some tag =>
        have inTags : tag ∈ ["start", "func"] := by simpa [Tree.hasTagIn, tagged] using isOther
        have notImport : tag ≠ "import" := by
          rintro rfl
          simp at inTags
        have notKind : tag ≠ kind := by
          rintro rfl
          exact otherKind inTags
        simp [declaration?, Tree.hasTag, tagged, notImport, notKind]
  have sameDeclared : ∀ imported, declared kind imported module'.items =
      declared kind imported module.items := fun imported =>
    merges.filterMap fun item isOther => declaredAs?_eq_none (notDeclared item isOther)
  rw [indexSpace_eq_declared, indexSpace_eq_declared, sameDeclared, sameDeclared]

/-! ## Changing declarations in place -/

/-- Whether a form declares what another does, as far as index spaces go. -/
structure SameDeclaration (form form' : Tree) : Prop where
  tag : form'.tag? = form.tag?
  inlineImport : hasInlineImport form' = hasInlineImport form

section Changes

variable {kind : String}

/-- The declaration that an item makes has the tag of its kind. -/
theorem tag_of_declaration? {item : Tree} {declaration : Declaration}
    (declares : declaration? kind item = some declaration) :
    declaration.form.tag? = some kind := by
  unfold declaration? at declares
  split at declares
  · obtain ⟨form, found, rfl⟩ := Option.map_eq_some_iff.mp declares
    rw [find?_eq] at found
    have tagged := List.find?_some found
    rw [hasTagIn_singleton] at tagged
    simpa [Tree.hasTag] using tagged
  · split at declares
    · cases declares
      simpa [Tree.hasTag] using ‹item.hasTag kind = true›
    · cases declares

/-- What is replaced has no list of the kind before it. -/
theorem replaceFirst_split {form : Tree} {rest : List Tree}
    (found : rest.find? (·.hasTag kind) = some form) :
    ∃ before after, rest = before ++ form :: after ∧ (∀ item ∈ before, item.hasTag kind = false) ∧
      ∀ form', replaceFirst kind form' rest = before ++ form' :: after := by
  induction rest with
  | nil => cases found
  | cons item rest ih =>
      rw [List.find?_cons] at found
      cases isKind : item.hasTag kind with
      | true =>
          simp only [isKind, Option.some.injEq] at found
          subst found
          exact ⟨[], rest, rfl, by simp, by simp [replaceFirst, isKind]⟩
      | false =>
          simp only [isKind] at found
          obtain ⟨before, after, rfl, others, replaced⟩ := ih found
          refine ⟨item :: before, after, rfl, List.forall_mem_cons.mpr ⟨isKind, others⟩, ?_⟩
          simp [replaceFirst, isKind, replaced]

theorem find?_replaceFirst {replacement form : Tree} {items : List Tree}
    (tagged : replacement.hasTag kind = true) (found : items.find? (·.hasTag kind) = some form) :
    (replaceFirst kind replacement items).find? (·.hasTag kind) = some replacement := by
  obtain ⟨before, after, rfl, others, replaced⟩ := replaceFirst_split found
  have noneBefore : before.find? (·.hasTag kind) = none := by
    simpa using others
  rw [replaced, List.find?_append, noneBefore]
  simp [tagged]

theorem mem_replaceFirst {replacement item : Tree} {items : List Tree}
    (member : item ∈ replaceFirst kind replacement items) : item = replacement ∨ item ∈ items := by
  induction items with
  | nil => simp [replaceFirst] at member
  | cons first rest ih =>
      rw [replaceFirst] at member
      split at member
      · exact (List.mem_cons.mp member).imp id (List.mem_cons_of_mem first)
      · rcases List.mem_cons.mp member with rfl | inRest
        · exact .inr List.mem_cons_self
        · exact (ih inRest).imp id (List.mem_cons_of_mem first)

theorem replaceFirst_self {form : Tree} {items : List Tree}
    (found : items.find? (·.hasTag kind) = some form) : replaceFirst kind form items = items := by
  obtain ⟨before, after, rfl, -, replaced⟩ := replaceFirst_split found
  exact replaced form

/-- An item that makes a declaration is an import that has it among its items,
or the declaration itself. -/
theorem declaration?_cases {item : Tree} {declaration : Declaration}
    (declares : declaration? kind item = some declaration) :
    (∃ rest, item = .list (.atom "import" :: rest) ∧ declaration.imported = true ∧
      rest.find? (·.hasTag kind) = some declaration.form) ∨
    (item.hasTag "import" = false ∧ item.hasTag kind = true ∧
      declaration = ⟨item, hasInlineImport item⟩) := by
  unfold declaration? at declares
  split at declares
  · rename_i isImport
    obtain ⟨form, found, rfl⟩ := Option.map_eq_some_iff.mp declares
    match item, isImport with
    | .list (.atom text :: rest), isImport =>
        obtain rfl : text = "import" := by simpa [Tree.hasTag, Tree.tag?] using isImport
        rw [find?_eq, Tree.items, List.find?_cons_of_neg (by simp [Tree.hasTagIn, Tree.tag?])] at found
        simp only [hasTagIn_singleton] at found
        exact .inl ⟨rest, rfl, rfl, found⟩
  · rename_i notImport
    split at declares
    · cases declares
      exact .inr ⟨by simpa using notImport, ‹_›, rfl⟩
    · cases declares

theorem declaration?_import {rest : List Tree} {form : Tree}
    (found : rest.find? (·.hasTag kind) = some form) :
    declaration? kind (.list (.atom "import" :: rest)) = some ⟨form, true⟩ := by
  have isImport : (Tree.list (.atom "import" :: rest)).hasTag "import" = true := rfl
  rw [declaration?, if_pos isImport, find?_eq, Tree.items,
    List.find?_cons_of_neg (by simp [Tree.hasTagIn, Tree.tag?])]
  simp only [hasTagIn_singleton, found, Option.map_some]

theorem replaceDeclaration_import (replacement : Tree) (rest : List Tree) :
    replaceDeclaration kind replacement (.list (.atom "import" :: rest)) =
      .list (.atom "import" :: replaceFirst kind replacement rest) := by
  rfl

/-- An item with its declaration replaced makes the new declaration. -/
theorem declaration?_replaceDeclaration {item form' : Tree} {declaration : Declaration}
    (declares : declaration? kind item = some declaration)
    (same : SameDeclaration declaration.form form') :
    declaration? kind (replaceDeclaration kind form' item) =
        some ⟨form', declaration.imported⟩ ∧
      (replaceDeclaration kind form' item).tag? = item.tag? := by
  have tagged : form'.hasTag kind = true := by
    simp [Tree.hasTag, same.tag, tag_of_declaration? declares]
  rcases declaration?_cases declares with ⟨rest, rfl, imported, found⟩ | ⟨notImport, isKind, rfl⟩
  · rw [replaceDeclaration_import, declaration?_import (find?_replaceFirst tagged found), imported]
    exact ⟨rfl, rfl⟩
  · have notImport' : form'.hasTag "import" = false := by
      simpa [Tree.hasTag, same.tag] using notImport
    simp [replaceDeclaration, notImport, declaration?, notImport', tagged, same.inlineImport,
      same.tag]

theorem replaceDeclaration_self {item : Tree} {declaration : Declaration}
    (declares : declaration? kind item = some declaration) :
    replaceDeclaration kind declaration.form item = item := by
  rcases declaration?_cases declares with ⟨rest, rfl, -, found⟩ | ⟨notImport, -, rfl⟩
  · rw [replaceDeclaration_import, replaceFirst_self found]
  · simp [replaceDeclaration, notImport]

/-- Whether the declarations among some items stand under the indices that are
given to them from the next imported and the next defined one on. -/
structure Numbered (kind : String) (stands : Nat → Declaration → Prop)
    (nextImported nextDefined : Nat) (items : List Tree) : Prop where
  imported : ∀ index declaration, (declared kind true items)[index]? = some declaration →
    stands (nextImported + index) declaration
  defined : ∀ index declaration, (declared kind false items)[index]? = some declaration →
    stands (nextDefined + index) declaration

theorem numbered_indexSpace (module : Tree) (kind : String) :
    Numbered kind (fun index declaration => (indexSpace module kind)[index]? = some declaration)
      0 (declared kind true module.items).length module.items := by
  refine ⟨fun index declaration found => ?_, fun index declaration found => ?_⟩
  · have inFront := (List.getElem?_eq_some_iff.mp found).1
    rw [indexSpace_eq_declared, Nat.zero_add, List.getElem?_append_left inFront, found]
  · rw [indexSpace_eq_declared, List.getElem?_append_right (Nat.le_add_right _ _),
      Nat.add_sub_cancel_left, found]

namespace Numbered

variable {stands : Nat → Declaration → Prop} {nextImported nextDefined : Nat} {item form : Tree}
  {rest : List Tree}

theorem behind_other (numbered : Numbered kind stands nextImported nextDefined (item :: rest))
    (other : declaration? kind item = none) :
    Numbered kind stands nextImported nextDefined rest := by
  obtain ⟨imported, defined⟩ := numbered
  rw [declared_cons_of_none other] at imported defined
  exact ⟨imported, defined⟩

theorem behind_imported (numbered : Numbered kind stands nextImported nextDefined (item :: rest))
    (declares : declaration? kind item = some ⟨form, true⟩) :
    stands nextImported ⟨form, true⟩ ∧
      Numbered kind stands (nextImported + 1) nextDefined rest := by
  obtain ⟨imported, defined⟩ := numbered
  simp only [declared_cons_of_some declares, reduceIte, Bool.true_eq_false] at imported defined
  refine ⟨imported 0 _ rfl, fun index declaration found => ?_, defined⟩
  rw [Nat.add_right_comm]
  exact imported (index + 1) declaration found

theorem behind_defined (numbered : Numbered kind stands nextImported nextDefined (item :: rest))
    (declares : declaration? kind item = some ⟨form, false⟩) :
    stands nextDefined ⟨form, false⟩ ∧
      Numbered kind stands nextImported (nextDefined + 1) rest := by
  obtain ⟨imported, defined⟩ := numbered
  simp only [declared_cons_of_some declares, reduceIte, Bool.false_eq_true] at imported defined
  refine ⟨defined 0 _ rfl, imported, fun index declaration found => ?_⟩
  rw [Nat.add_right_comm]
  exact defined (index + 1) declaration found

end Numbered

variable {change : Nat → Tree → Tree} {stands : Nat → Declaration → Prop}

/-- Changing the declarations among some items changes those with a flag one by
one, numbered from the next index of that flag. -/
theorem declared_mapDeclarations {nextImported nextDefined : Nat} {items : List Tree}
    (numbered : Numbered kind stands nextImported nextDefined items)
    (keeps : ∀ index declaration, stands index declaration →
      SameDeclaration declaration.form (change index declaration.form)) :
    declared kind true (mapDeclarations kind change nextImported nextDefined items) =
        (declared kind true items).mapIdx
          (fun index declaration =>
            ⟨change (nextImported + index) declaration.form, declaration.imported⟩) ∧
      declared kind false (mapDeclarations kind change nextImported nextDefined items) =
        (declared kind false items).mapIdx
          (fun index declaration =>
            ⟨change (nextDefined + index) declaration.form, declaration.imported⟩) := by
  induction items generalizing nextImported nextDefined with
  | nil => exact ⟨rfl, rfl⟩
  | cons item rest ih =>
      cases declares : declaration? kind item with
      | none =>
          simp only [mapDeclarations, declares, declared_cons_of_none declares]
          exact ih (numbered.behind_other declares)
      | some declaration =>
          obtain ⟨form, imported⟩ := declaration
          cases imported with
          | true =>
              obtain ⟨first, behind⟩ := numbered.behind_imported declares
              have changed := (declaration?_replaceDeclaration declares (keeps _ _ first)).1
              obtain ⟨ihImported, ihDefined⟩ := ih behind
              simp [mapDeclarations, declares, declared_cons_of_some declares,
                declared_cons_of_some changed, ihImported, ihDefined, List.mapIdx_cons,
                Nat.add_assoc, Nat.add_comm 1]
          | false =>
              obtain ⟨first, behind⟩ := numbered.behind_defined declares
              have changed := (declaration?_replaceDeclaration declares (keeps _ _ first)).1
              obtain ⟨ihImported, ihDefined⟩ := ih behind
              simp [mapDeclarations, declares, declared_cons_of_some declares,
                declared_cons_of_some changed, ihImported, ihDefined, List.mapIdx_cons,
                Nat.add_assoc, Nat.add_comm 1]

/-- Changing the declarations of a kind changes its index space index by
index. -/
theorem indexSpace_mapIndexSpace {module : Tree}
    (keeps : ∀ index declaration, (indexSpace module kind)[index]? = some declaration →
      SameDeclaration declaration.form (change index declaration.form)) :
    indexSpace (mapIndexSpace module kind change) kind =
      (indexSpace module kind).mapIdx fun index declaration =>
        ⟨change index declaration.form, declaration.imported⟩ := by
  obtain ⟨imported, defined⟩ := declared_mapDeclarations (numbered_indexSpace module kind) keeps
  rw [mapIndexSpace, indexSpace_eq_declared, indexSpace_eq_declared, importedCount_eq, Tree.items,
    imported, defined, List.mapIdx_append]
  simp only [Nat.add_comm, Nat.add_zero]

/-- An item and what a change of declarations makes of it: it is kept, or its
declaration is changed under an index that it stands under. -/
def ChangedItem (kind : String) (change : Nat → Tree → Tree)
    (stands : Nat → Declaration → Prop) (item item' : Tree) : Prop :=
  (declaration? kind item = none ∧ item' = item) ∨
    ∃ index declaration, declaration? kind item = some declaration ∧ stands index declaration ∧
      item' = replaceDeclaration kind (change index declaration.form) item

theorem mapDeclarations_forall₂ {nextImported nextDefined : Nat} {items : List Tree}
    (numbered : Numbered kind stands nextImported nextDefined items) :
    List.Forall₂ (ChangedItem kind change stands) items
      (mapDeclarations kind change nextImported nextDefined items) := by
  induction items generalizing nextImported nextDefined with
  | nil => exact .nil
  | cons item rest ih =>
      cases declares : declaration? kind item with
      | none =>
          simp only [mapDeclarations, declares]
          exact .cons (.inl ⟨declares, rfl⟩) (ih (numbered.behind_other declares))
      | some declaration =>
          obtain ⟨form, imported⟩ := declaration
          simp only [mapDeclarations, declares]
          cases imported with
          | true =>
              obtain ⟨first, behind⟩ := numbered.behind_imported declares
              exact .cons (.inr ⟨_, _, declares, first, rfl⟩) (ih behind)
          | false =>
              obtain ⟨first, behind⟩ := numbered.behind_defined declares
              exact .cons (.inr ⟨_, _, declares, first, rfl⟩) (ih behind)

/-- Every item of a module is kept, or its declaration is changed under the
index that it has in the module. -/
theorem mapIndexSpace_forall₂ (module : Tree) :
    List.Forall₂ (ChangedItem kind change fun index declaration =>
        (indexSpace module kind)[index]? = some declaration)
      module.items (mapIndexSpace module kind change).items := by
  rw [mapIndexSpace, importedCount_eq]
  exact mapDeclarations_forall₂ (numbered_indexSpace module kind)

theorem ChangedItem.tag {item item' : Tree}
    (changed : ChangedItem kind change stands item item')
    (keeps : ∀ index declaration, stands index declaration →
      SameDeclaration declaration.form (change index declaration.form)) :
    item'.tag? = item.tag? := by
  rcases changed with ⟨-, rfl⟩ | ⟨index, declaration, declares, stands, rfl⟩
  · rfl
  · exact (declaration?_replaceDeclaration declares (keeps _ _ stands)).2

/-- Forms with another tag than declarations of the kind keep their order. -/
theorem filter_mapIndexSpace {module : Tree} {tag : String} (notImport : tag ≠ "import")
    (notKind : tag ≠ kind)
    (keeps : ∀ index declaration, (indexSpace module kind)[index]? = some declaration →
      SameDeclaration declaration.form (change index declaration.form)) :
    (mapIndexSpace module kind change).items.filter (·.hasTag tag) =
      module.items.filter (·.hasTag tag) := by
  have changed : List.Forall₂ (ChangedItem kind change _) module.items
      (mapIndexSpace module kind change).items := mapIndexSpace_forall₂ module
  generalize (mapIndexSpace module kind change).items = items' at changed
  generalize module.items = items at changed
  induction changed with
  | nil => rfl
  | @cons item item' rest rest' change _ ih =>
      have sameTag : item'.hasTag tag = item.hasTag tag := by
        simp only [Tree.hasTag, change.tag keeps]
      cases tagged : item.hasTag tag with
      | false => simp [sameTag, tagged, ih]
      | true =>
          have isTag : item.tag? = some tag := by simpa [Tree.hasTag] using tagged
          have notDeclared : declaration? kind item = none := by
            simp [declaration?, Tree.hasTag, isTag, notImport, notKind]
          have same : item' = item := by
            rcases change with ⟨-, same⟩ | ⟨_, _, declares, -, -⟩
            · exact same
            · simp [notDeclared] at declares
          simp [same, tagged, ih]

end Changes

end Module

end WatLink
