import WatLink.Proofs.MemorySizing
import WatLink.Proofs.StableIndices

/-!
# Sizing a sorted module

Sizing reads the memories in index order and the data forms in textual order, and
sorting keeps both.  It writes into memory forms only, and a memory form that was
grown declares the same memory in the same category.  So it makes no difference
whether a module is sorted before its memories are sized or after that, not even
to what a failed sizing leaves behind.
-/

namespace WatLink

namespace Module

/-- Growing some memories keeps what the forms of all of them declare, also if one
of them cannot grow. -/
theorem sameDeclaration_growMemories {module : Tree} (extents : Extents) {index : Nat}
    {declaration : Declaration}
    (found : (indexSpace module "memory")[index]? = some declaration) :
    SameDeclaration declaration.form
      (grownForm (growMemories extents (memories module)).1 index declaration.form) := by
  unfold grownForm
  cases grown : (growMemories extents (memories module)).1.lookup index with
  | none => exact ⟨rfl, rfl⟩
  | some form' =>
      have member : (index, form') ∈ (growMemories extents (memories module)).1 := by
        obtain ⟨before, behind, same, -⟩ := List.lookup_eq_some_iff.mp grown
        simp [same]
      obtain ⟨memory, isMemory, sameIndex, pages, event?, grows⟩ := exists_of_mem_growMemories member
      obtain ⟨index', declaration', found', rfl⟩ := mem_memories_iff.mp isMemory
      obtain rfl : index' = index := sameIndex
      obtain rfl : declaration' = declaration := Option.some.inj (found'.symm.trans found)
      rcases Memory.grow_cases (tag_of_indexSpace found) grows with same | raised
      · obtain rfl : form' = declaration'.form := same
        exact ⟨rfl, rfl⟩
      · exact raised.sameDeclaration

/-- Sizing and sorting commute: sizing a sorted module gives the sorted outcome of
sizing the module, reports the same, and fails with the same error if it fails. -/
theorem sizeMemories_sortForms (module : Tree) :
    (sizeMemories (sortForms module)).failure = (sizeMemories module).failure ∧
      (sizeMemories (sortForms module)).module = sortForms (sizeMemories module).module ∧
      (sizeMemories (sortForms module)).events = (sizeMemories module).events := by
  have sameMemories : memories (sortForms module) = memories module := by
    simp only [memories, indexSpace_sortForms]
  have sameMeasure : measureForms (memories module) [] (sortForms module).forms =
      measureForms (memories module) [] module.forms :=
    measureForms_of_same_data (filter_hasTag_sortForms module (by decide)) _ _
  simp only [sizeMemories, sameMemories, sameMeasure]
  cases measureForms (memories module) [] module.forms with
  | mk result events =>
      cases result with
      | error fault => exact ⟨rfl, rfl, rfl⟩
      | ok extents =>
          exact ⟨rfl, mapIndexSpace_sortForms fun _ _ => sameDeclaration_growMemories extents, rfl⟩

end Module

end WatLink
