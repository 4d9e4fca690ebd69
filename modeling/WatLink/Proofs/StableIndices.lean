import WatLink.Proofs.IndexSpaces

/-!
# What indices denote

Numeric references count declarations of a kind, imported ones first.  Sorting a
module moves declarations, but it is one stable sort of the items by their place
in the output, and all declarations of a kind that share a flag share a place.
So every index keeps its declaration, and a change that is made index by index
can be made before or after sorting.

Merging start entries appends one function definition, which gets the index
behind all others.
-/

namespace WatLink

namespace Module

/-! ## Sorting as one stable sort -/

/-- The place of an item in a sorted module: atoms stand in front, and forms
follow by category. -/
def place (item : Tree) : Nat :=
  if item.isList then (Category.ofForm item).rank + 1 else 0

/-- A list that is ordered by a key is known by its entries of each key. -/
theorem eq_of_filter_key_eq {α : Type} {key : α → Nat} {entries entries' : List α}
    (ordered : entries.Pairwise fun first second => key first ≤ key second)
    (ordered' : entries'.Pairwise fun first second => key first ≤ key second)
    (same : ∀ value, entries.filter (key · == value) = entries'.filter (key · == value)) :
    entries = entries' := by
  have mem_iff : ∀ entry, entry ∈ entries ↔ entry ∈ entries' := by
    intro entry
    have mem_filter_iff := congrArg (entry ∈ ·) (same (key entry))
    simpa using mem_filter_iff
  induction entries generalizing entries' with
  | nil =>
      symm
      rw [List.eq_nil_iff_forall_not_mem]
      exact fun entry member => by simpa using (mem_iff entry).mpr member
  | cons entry rest induction =>
      cases entries' with
      | nil => simpa using (mem_iff entry).mp List.mem_cons_self
      | cons entry' rest' =>
          rw [List.pairwise_cons] at ordered ordered'
          -- Both heads have the least key, so they head the filtered lists of that key.
          have sameKey : key entry = key entry' := by
            have inRest := (mem_iff entry).mp List.mem_cons_self
            have inRest' := (mem_iff entry').mpr List.mem_cons_self
            have atMost : key entry' ≤ key entry := by
              rcases List.mem_cons.mp inRest with rfl | member
              · exact Nat.le_refl _
              · exact ordered'.1 entry member
            have atLeast : key entry ≤ key entry' := by
              rcases List.mem_cons.mp inRest' with rfl | member
              · exact Nat.le_refl _
              · exact ordered.1 entry' member
            omega
          obtain rfl : entry = entry' := by
            have heads := same (key entry)
            rw [List.filter_cons_of_pos (by simp), List.filter_cons_of_pos (by simp [sameKey])] at heads
            exact (List.cons.inj heads).1
          have sameRest : ∀ value, rest.filter (key · == value) = rest'.filter (key · == value) := by
            intro value
            have filtered := same value
            by_cases isKey : key entry = value
            · rw [List.filter_cons_of_pos (by simp [isKey]),
                List.filter_cons_of_pos (by simp [isKey])] at filtered
              exact (List.cons.inj filtered).2
            · rwa [List.filter_cons_of_neg (by simp [isKey]),
                List.filter_cons_of_neg (by simp [isKey])] at filtered
          rw [induction ordered.2 ordered'.2 sameRest fun other => ?_]
          have mem_filter_iff := congrArg (other ∈ ·) (sameRest (key other))
          simpa using mem_filter_iff

theorem isList_iff_place {item : Tree} : item.isList = true ↔ place item ≠ 0 := by
  cases item <;> simp [place, Tree.isList]

theorem place_of_declaredAs? {kind : String} {imported : Bool} {item : Tree}
    (declares : (declaredAs? kind imported item).isSome = true) :
    place item = (if imported then Category.imported else Category.ofTag kind).rank + 1 := by
  cases item with
  | atom text => simp [declaredAs?_eq_none (declaration?_atom kind text)] at declares
  | list items =>
      rw [← category_of_declaredAs? declares]
      rfl

theorem filter_place_sortedForms (module : Tree) (value : Nat) :
    (sortedForms module).filter (place · == value + 1) =
      module.items.filter (place · == value + 1) := by
  have onlyForms : module.forms.filter (place · == value + 1) =
      module.items.filter (place · == value + 1) := by
    rw [Tree.forms, List.filter_filter]
    refine List.filter_congr fun item _ => ?_
    by_cases isPlace : place item = value + 1
    · simp [isPlace, isList_iff_place.mpr (by omega : place item ≠ 0)]
    · simp [isPlace]
  rw [← onlyForms]
  refine filter_mergeSort_byKey formRank fun first second isFirst isSecond => ?_
  simp only [beq_iff_eq] at isFirst isSecond
  have firstIsList := isList_iff_place.mpr (by omega : place first ≠ 0)
  have secondIsList := isList_iff_place.mpr (by omega : place second ≠ 0)
  simp only [place, firstIsList, secondIsList, if_true] at isFirst isSecond
  simp only [formRank]
  omega

/-- The items of a sorted module are the items of the module, sorted by place. -/
theorem items_sortForms (module : Tree) :
    (sortForms module).items = module.items.mergeSort (byKey place) := by
  have allForms : ∀ form ∈ sortedForms module, form.isList = true :=
    fun _ => isList_of_mem_sortedForms
  have formsOrdered : (sortedForms module).Pairwise
      fun first second => place first ≤ place second := by
    have byRank := pairwise_mergeSort_byKey formRank module.forms
    refine byRank.imp_of_mem fun member member' inOrder => ?_
    simp only [place, allForms _ member, allForms _ member', if_true]
    exact Nat.succ_le_succ inOrder
  have ordered : (sortForms module).items.Pairwise
      fun first second => place first ≤ place second := by
    rw [sortForms_eq, Tree.items, List.pairwise_append]
    refine ⟨List.pairwise_of_forall_mem_list fun first member _ _ => ?_, formsOrdered,
      fun first member _ _ => ?_⟩ <;>
    · have isAtom := List.of_mem_filter member
      simp [place, by simpa using isAtom]
  refine eq_of_filter_key_eq ordered (pairwise_mergeSort_byKey place _) fun value => ?_
  have stable : (module.items.mergeSort (byKey place)).filter (place · == value) =
      module.items.filter (place · == value) :=
    filter_mergeSort_byKey place fun first second isFirst isSecond =>
      (eq_of_beq isFirst).trans (eq_of_beq isSecond).symm
  rw [stable, sortForms_eq, Tree.items, List.filter_append, List.filter_filter]
  cases value with
  | zero =>
      have noForms : (sortedForms module).filter (place · == 0) = [] := by
        refine List.filter_eq_nil_iff.mpr fun form member => ?_
        simpa using isList_iff_place.mp (allForms form member)
      rw [noForms, List.append_nil]
      refine List.filter_congr fun item _ => ?_
      cases item <;> simp [place, Tree.isList]
  | succ value =>
      have noAtoms : module.items.filter (fun item => place item == value + 1 && !item.isList) = [] := by
        refine List.filter_eq_nil_iff.mpr fun item _ => ?_
        cases item <;> simp [place, Tree.isList]
      rw [noAtoms, List.nil_append, filter_place_sortedForms]

/-! ## Numbered items -/

section Numbering

variable {kind : String} {change : Nat → Tree → Tree}

/-- Items with the indices of the declarations of a kind that they make, given the
indices of the next imported and the next defined one.  Other items get zero. -/
def numbered (kind : String) : (nextImported nextDefined : Nat) → List Tree → List (Tree × Nat)
  | _, _, [] => []
  | nextImported, nextDefined, item :: rest =>
      match declaration? kind item with
      | none => (item, 0) :: numbered kind nextImported nextDefined rest
      | some ⟨_, true⟩ => (item, nextImported) :: numbered kind (nextImported + 1) nextDefined rest
      | some ⟨_, false⟩ => (item, nextDefined) :: numbered kind nextImported (nextDefined + 1) rest

/-- A numbered item with its declaration changed. -/
def changeNumbered (kind : String) (change : Nat → Tree → Tree) (entry : Tree × Nat) : Tree :=
  match declaration? kind entry.1 with
  | none => entry.1
  | some declaration => replaceDeclaration kind (change entry.2 declaration.form) entry.1

theorem mapDeclarations_eq_map (nextImported nextDefined : Nat) (items : List Tree) :
    mapDeclarations kind change nextImported nextDefined items =
      (numbered kind nextImported nextDefined items).map (changeNumbered kind change) := by
  induction items generalizing nextImported nextDefined with
  | nil => rfl
  | cons item rest induction =>
      cases declares : declaration? kind item with
      | none => simp [mapDeclarations, numbered, changeNumbered, declares, induction]
      | some declaration =>
          obtain ⟨form, imported⟩ := declaration
          cases imported <;>
            simp [mapDeclarations, numbered, changeNumbered, declares, induction]

theorem map_fst_numbered (nextImported nextDefined : Nat) (items : List Tree) :
    (numbered kind nextImported nextDefined items).map Prod.fst = items := by
  induction items generalizing nextImported nextDefined with
  | nil => rfl
  | cons item rest induction =>
      cases declares : declaration? kind item with
      | none => simp [numbered, declares, induction]
      | some declaration =>
          obtain ⟨form, imported⟩ := declaration
          cases imported <;> simp [numbered, declares, induction]

/-- The indices of the declarations with a flag among numbered items. -/
def indicesOf (kind : String) (imported : Bool) (entries : List (Tree × Nat)) : List Nat :=
  (entries.filter fun entry => (declaredAs? kind imported entry.1).isSome).map Prod.snd

section IndicesOf

variable {imported : Bool} {item : Tree} {index : Nat} {rest : List (Tree × Nat)}

theorem indicesOf_cons_of_none (other : declaration? kind item = none) :
    indicesOf kind imported ((item, index) :: rest) = indicesOf kind imported rest := by
  simp [indicesOf, declaredAs?_eq_none other]

theorem indicesOf_cons_of_some {declaration : Declaration}
    (declares : declaration? kind item = some declaration) :
    indicesOf kind imported ((item, index) :: rest) =
      if declaration.imported = imported then index :: indicesOf kind imported rest
      else indicesOf kind imported rest := by
  by_cases same : declaration.imported = imported
  · simp [indicesOf, declaredAs?, declares, Option.filter, same]
  · simp [indicesOf, declaredAs?, declares, Option.filter, same]

end IndicesOf

/-- Whether items are numbered from the given indices on. -/
structure Consecutive (kind : String) (nextImported nextDefined : Nat)
    (entries : List (Tree × Nat)) : Prop where
  other : ∀ entry ∈ entries, declaration? kind entry.1 = none → entry.2 = 0
  imported : ∃ count, indicesOf kind true entries = List.range' nextImported count
  defined : ∃ count, indicesOf kind false entries = List.range' nextDefined count

theorem consecutive_numbered (nextImported nextDefined : Nat) (items : List Tree) :
    Consecutive kind nextImported nextDefined
      (numbered kind nextImported nextDefined items) := by
  induction items generalizing nextImported nextDefined with
  | nil => exact ⟨by simp [numbered], ⟨0, rfl⟩, ⟨0, rfl⟩⟩
  | cons item rest induction =>
      cases declares : declaration? kind item with
      | none =>
          obtain ⟨other, imported, defined⟩ := induction nextImported nextDefined
          simp only [numbered, declares]
          refine ⟨List.forall_mem_cons.mpr ⟨fun _ => rfl, other⟩, ?_, ?_⟩
          · rwa [indicesOf_cons_of_none declares]
          · rwa [indicesOf_cons_of_none declares]
      | some declaration =>
          obtain ⟨form, isImported⟩ := declaration
          cases isImported with
          | true =>
              obtain ⟨other, ⟨count, imported⟩, defined⟩ := induction (nextImported + 1) nextDefined
              simp only [numbered, declares]
              refine ⟨List.forall_mem_cons.mpr ⟨by simp [declares], other⟩, ⟨count + 1, ?_⟩, ?_⟩
              · simp [indicesOf_cons_of_some declares, imported, List.range'_succ]
              · simpa [indicesOf_cons_of_some declares] using defined
          | false =>
              obtain ⟨other, imported, ⟨count, defined⟩⟩ := induction nextImported (nextDefined + 1)
              simp only [numbered, declares]
              refine ⟨List.forall_mem_cons.mpr ⟨by simp [declares], other⟩, ?_, ⟨count + 1, ?_⟩⟩
              · simpa [indicesOf_cons_of_some declares] using imported
              · simp [indicesOf_cons_of_some declares, defined, List.range'_succ]

theorem eq_range'_of_cons {index next count : Nat} {rest : List Nat}
    (same : index :: rest = List.range' next count) :
    index = next ∧ ∃ count, rest = List.range' (next + 1) count := by
  cases count with
  | zero => simp at same
  | succ count =>
      rw [List.range'_succ] at same
      obtain ⟨rfl, rfl⟩ := List.cons.inj same
      exact ⟨rfl, count, rfl⟩

namespace Consecutive

variable {nextImported nextDefined : Nat} {entries : List (Tree × Nat)}

/-- There is only one way to number items consecutively. -/
theorem eq_numbered (consecutive : Consecutive kind nextImported nextDefined entries) :
    entries = numbered kind nextImported nextDefined (entries.map Prod.fst) := by
  induction entries generalizing nextImported nextDefined with
  | nil => rfl
  | cons entry rest induction =>
      obtain ⟨item, index⟩ := entry
      obtain ⟨other, ⟨_, imported⟩, ⟨_, defined⟩⟩ := consecutive
      obtain ⟨otherItem, otherRest⟩ := List.forall_mem_cons.mp other
      cases declares : declaration? kind item with
      | none =>
          obtain rfl : index = 0 := otherItem declares
          rw [indicesOf_cons_of_none declares] at imported defined
          simp only [List.map_cons, numbered, declares]
          rw [← induction ⟨otherRest, ⟨_, imported⟩, ⟨_, defined⟩⟩]
      | some declaration =>
          obtain ⟨form, isImported⟩ := declaration
          rw [indicesOf_cons_of_some declares] at imported defined
          cases isImported with
          | true =>
              obtain ⟨rfl, count, importedRest⟩ := eq_range'_of_cons (by simpa using imported)
              simp only [List.map_cons, numbered, declares]
              rw [← induction ⟨otherRest, ⟨count, importedRest⟩, ⟨_, by simpa using defined⟩⟩]
          | false =>
              obtain ⟨rfl, count, definedRest⟩ := eq_range'_of_cons (by simpa using defined)
              simp only [List.map_cons, numbered, declares]
              rw [← induction ⟨otherRest, ⟨_, by simpa using imported⟩, ⟨count, definedRest⟩⟩]

/-- Sorting numbered items by place keeps the numbers consecutive. -/
theorem mergeSort (consecutive : Consecutive kind nextImported nextDefined entries) :
    Consecutive kind nextImported nextDefined
      (entries.mergeSort (byKey fun entry => place entry.1)) := by
  have sameIndices : ∀ imported,
      indicesOf kind imported (entries.mergeSort (byKey fun entry => place entry.1)) =
        indicesOf kind imported entries := by
    intro imported
    refine congrArg (List.map Prod.snd)
      (filter_mergeSort_byKey _ fun first second isFirst isSecond => ?_)
    rw [place_of_declaredAs? isFirst, place_of_declaredAs? isSecond]
  refine ⟨fun entry member => consecutive.other entry (List.mem_mergeSort.mp member), ?_, ?_⟩
  · rw [sameIndices]
    exact consecutive.imported
  · rw [sameIndices]
    exact consecutive.defined

end Consecutive

theorem ChangedItem.place_eq {stands : Nat → Declaration → Prop} {item item' : Tree}
    (changed : ChangedItem kind change stands item item')
    (keeps : ∀ index declaration, stands index declaration →
      SameDeclaration declaration.form (change index declaration.form)) :
    place item' = place item := by
  rcases changed with ⟨-, rfl⟩ | ⟨index, declaration, declares, stands, rfl⟩
  · rfl
  · have declares' := (declaration?_replaceDeclaration declares (keeps _ _ stands)).1
    have isDeclared : (declaredAs? kind declaration.imported item).isSome = true := by
      simp [declaredAs?, declares, Option.filter]
    have isDeclared' : (declaredAs? kind declaration.imported
        (replaceDeclaration kind (change index declaration.form) item)).isSome = true := by
      simp [declaredAs?, declares', Option.filter]
    rw [place_of_declaredAs? isDeclared, place_of_declaredAs? isDeclared']

/-- Changing declarations index by index commutes with sorting, if the changed
declarations stay what they are. -/
theorem mapIndexSpace_sortForms {module : Tree}
    (keeps : ∀ index declaration, (indexSpace module kind)[index]? = some declaration →
      SameDeclaration declaration.form (change index declaration.form)) :
    mapIndexSpace (sortForms module) kind change = sortForms (mapIndexSpace module kind change) := by
  let entries := numbered kind 0 (declared kind true module.items).length module.items
  have items_eq : entries.map Prod.fst = module.items := map_fst_numbered _ _ _
  have changed_eq : (mapIndexSpace module kind change).items =
      entries.map (changeNumbered kind change) := by
    rw [mapIndexSpace, importedCount_eq, Tree.items, mapDeclarations_eq_map]
  have samePlace : ∀ entry ∈ entries, place (changeNumbered kind change entry) = place entry.1 := by
    have changed : List.Forall₂ (ChangedItem kind change _) module.items
        (mapIndexSpace module kind change).items := mapIndexSpace_forall₂ module
    nth_rewrite 1 [← items_eq] at changed
    rw [changed_eq, List.forall₂_map_left_iff, List.forall₂_map_right_iff,
      List.forall₂_same] at changed
    exact fun entry member => (changed entry member).place_eq keeps
  -- The sorted entries are numbered consecutively again, so they are the numbered
  -- entries of the sorted module.
  have sorted_eq : entries.mergeSort (byKey fun entry => place entry.1) =
      numbered kind 0 (declared kind true module.items).length (sortForms module).items := by
    have sortedItems : (entries.mergeSort (byKey fun entry => place entry.1)).map
        Prod.fst = (sortForms module).items := by
      rw [items_sortForms, ← items_eq]
      exact List.map_mergeSort fun _ _ _ _ => rfl
    rw [← sortedItems]
    exact (consecutive_numbered _ _ _).mergeSort.eq_numbered
  have sides : (mapIndexSpace (sortForms module) kind change).items =
      (sortForms (mapIndexSpace module kind change)).items := by
    rw [items_sortForms, changed_eq, mapIndexSpace, importedCount_eq, declared_sortForms,
      Tree.items, mapDeclarations_eq_map, ← sorted_eq]
    refine List.map_mergeSort fun first member second member' => ?_
    simp only [byKey, samePlace first member, samePlace second member']
  exact congrArg Tree.list sides

end Numbering

/-! ## Merged starts -/

theorem declaration?_startFunction (identifier : String) (targets : List String) :
    declaration? "func" (startFunction identifier targets) =
      some ⟨startFunction identifier targets, false⟩ := by
  have noImport : (startFunction identifier targets).find? ["import"] = none := by
    rw [find?_eq, List.find?_eq_none]
    intro item member
    simp only [startFunction, Tree.form, Tree.items, List.mem_cons, List.mem_map] at member
    rcases member with rfl | rfl | ⟨target, -, rfl⟩ <;> simp [Tree.hasTagIn, Tree.tag?]
  have notInline : hasInlineImport (startFunction identifier targets) = false := by
    simp [hasInlineImport, noImport]
  have isFunction : (startFunction identifier targets).tag? = some "func" := rfl
  simp [declaration?, Tree.hasTag, isFunction, notInline]

theorem declaration?_of_start {kind : String} {item : Tree} (isStart : item.hasTag "start" = true)
    (otherKind : kind ≠ "start") : declaration? kind item = none := by
  have tagged : item.tag? = some "start" := by simpa [Tree.hasTag] using isStart
  simp [declaration?, Tree.hasTag, tagged, otherKind.symm]

theorem declared_merged (imported : Bool) (items : List Tree) (identifier : String)
    (function : Tree) :
    declared "func" imported (items.filter (!·.hasTag "start") ++
        [function, Tree.form "start" [.atom identifier]]) =
      declared "func" imported items ++ (declaredAs? "func" imported function).toList :=
  filterMap_merged
    (fun _ isStart => declaredAs?_eq_none (declaration?_of_start isStart (by decide)))
    items identifier function

/-- No numeric index changes its meaning.  Sorting keeps every index space, and so
does merging two or more start entries, functions apart: the function that calls
their targets gets the index behind all others.  So an index of a function still
denotes it when a module is sorted after its starts were merged. -/
theorem indexSpace_sortForms_and_mergeStarts (module : Tree) :
    (∀ kind, indexSpace (sortForms module) kind = indexSpace module kind) ∧
      ∀ (merged : Tree) (event? : Option (Nat × String)),
        2 ≤ (module.items.filter (·.hasTag "start")).length →
        mergeStarts module = .ok (merged, event?) →
          (∀ kind, kind ∉ ["start", "func"] → indexSpace merged kind = indexSpace module kind) ∧
          (∃ identifier targets,
            startTargets (module.items.filter (·.hasTag "start")) = .ok targets ∧
            freshIdentifier module.identifiers startIdentifier = .ok identifier ∧
            indexSpace merged "func" =
              indexSpace module "func" ++ [⟨startFunction identifier targets, false⟩]) ∧
          ∀ (index : Nat) (declaration : Declaration),
            (indexSpace module "func")[index]? = some declaration →
            (indexSpace (sortForms merged) "func")[index]? = some declaration := by
  refine ⟨indexSpace_sortForms module, fun merged event? several merges => ?_⟩
  have startsMerged := startsMerged_of_mergeStarts merges
  refine ⟨fun kind otherKind => startsMerged.indexSpace otherKind, ?_⟩
  cases startsMerged with
  | same few => omega
  | @merged identifier targets found free =>
      have functions : indexSpace (.list (module.items.filter (!·.hasTag "start") ++
          [startFunction identifier targets, Tree.form "start" [.atom identifier]])) "func" =
            indexSpace module "func" ++ [⟨startFunction identifier targets, false⟩] := by
        have declares := declaration?_startFunction identifier targets
        rw [indexSpace_eq_declared, indexSpace_eq_declared, Tree.items, declared_merged,
          declared_merged]
        simp [declaredAs?, declares, Option.filter]
      refine ⟨⟨identifier, targets, found, free, functions⟩, fun index declaration found => ?_⟩
      have inRange := (List.getElem?_eq_some_iff.mp found).1
      rw [indexSpace_sortForms, functions, List.getElem?_append_left inRange, found]

/-- A module with two start entries and a function behind an import of another. -/
def twoStarts : Tree :=
  .form "module" [.form "start" [.atom "0"], .form "func" [.atom "$own"],
    .form "import" [.atom "\"m\"", .atom "\"f\"", .form "func" [.atom "$theirs"]],
    .form "start" [.atom "$own"]]

/-- Both functions keep their indices, and the merged start gets the next one. -/
theorem indexSpace_twoStarts :
    ∃ merged event?, mergeStarts twoStarts = .ok (merged, event?) ∧
      (indexSpace (sortForms merged) "func")[0]? = some ⟨.form "func" [.atom "$theirs"], true⟩ ∧
      (indexSpace (sortForms merged) "func")[1]? = some ⟨.form "func" [.atom "$own"], false⟩ ∧
      indexSpace merged "func" = indexSpace twoStarts "func" ++
        [⟨startFunction "$_swl_start_merger" ["0", "$own"], false⟩] := by
  have targets_eq : startTargets (twoStarts.items.filter (·.hasTag "start")) =
      .ok ["0", "$own"] := rfl
  have identifier_eq : freshIdentifier twoStarts.identifiers startIdentifier =
      .ok "$_swl_start_merger" := by
    have notTaken : twoStarts.identifiers.contains startIdentifier = false := by decide +kernel
    rw [freshIdentifier, notTaken]
    rfl
  have several : 2 ≤ (twoStarts.items.filter (·.hasTag "start")).length := by decide
  obtain ⟨merged, event?, merges⟩ :
      ∃ merged event?, mergeStarts twoStarts = .ok (merged, event?) := by
    simp only [mergeStarts, targets_eq, identifier_eq, if_neg (Nat.not_le.mpr several)]
    exact ⟨_, _, rfl⟩
  obtain ⟨-, ⟨identifier, targets, found, free, functions⟩, kept⟩ :=
    (indexSpace_sortForms_and_mergeStarts twoStarts).2 merged event? several merges
  cases targets_eq.symm.trans found
  cases identifier_eq.symm.trans free
  exact ⟨merged, event?, merges, kept 0 _ (by decide), kept 1 _ (by decide), functions⟩

end Module

end WatLink
