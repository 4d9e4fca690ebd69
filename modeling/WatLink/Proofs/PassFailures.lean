import WatLink.Proofs.FileInquiries
import WatLink.Proofs.NodeLaws

/-!
# What passes stop with

The errors that each pass can stop with, as one relation.  Errors that come from
a number or an escape name the atom that holds it; for folding, which looks at
the module while it changes, the atoms of the module and of the constants folded
so far.
-/

namespace WatLink

namespace Tree

theorem mem_subtrees_of_mem_items {item tree : Tree} (member : item ∈ tree.items) :
    item ∈ tree.subtrees := by
  cases tree with
  | atom text => simp [items] at member
  | list items => exact mem_subtrees_of_mem member (mem_subtrees_self item)

theorem mem_subtrees_trans {part item tree : Tree} (inside : part ∈ item.subtrees)
    (member : item ∈ tree.subtrees) : part ∈ tree.subtrees := by
  induction tree with
  | atom text =>
      obtain rfl : item = .atom text := by simpa [subtrees] using member
      exact inside
  | list items ih =>
      rw [subtrees, List.mem_cons, mem_subtreesOfItems] at member
      rcases member with rfl | ⟨other, inItems, inOther⟩
      · exact inside
      · exact mem_subtrees_of_mem inItems (ih other inItems inOther)

end Tree

/-! ## Imports -/

theorem fault_of_expandImports {module : Tree} {origin : Option String}
    {session session' : Session} {error : LinkError}
    (failed : Module.expandImports module origin session = .error error session') :
    ImportFault error ∨ UnservedFault session.store error := by
  have fails : ((Module.expandImports module origin).outcome session).1 = .error (error, ()) := by
    simp only [SessionM.outcome, failed]
  exact (inquiring_expandImports module origin).error fails

theorem fault_of_inlineForms {forms : List Tree} {session : Session} {error : LinkError}
    (failed : (inlineForms session forms).1.2 = some error) :
    ImportFault error ∨ UnservedFault session.store error := by
  have fails : (inlineForms session forms).1.result =
      .error (error, (inlineForms session forms).1.1) := by
    revert failed
    rcases (inlineForms session forms).1 with ⟨items, failure⟩
    rintro rfl
    rfl
  exact (inquiring_inlineForms forms).error fails

/-! ## Start entries -/

/-- The errors of merging start entries. -/
inductive MergeFault : LinkError → Prop
  | target (form : Tree) : MergeFault (.malformedForm .startTarget form)
  | taken (identifier : String) : MergeFault (.identifierTaken identifier)

theorem mergeFault_of_startTargets {forms : List Tree} {error : LinkError}
    (failed : startTargets forms = .error error) : MergeFault error := by
  induction forms with
  | nil => cases failed
  | cons form rest ih =>
      rw [startTargets] at failed
      split at failed
      · rename_i noTarget
        cases failed
        unfold startTarget at noTarget
        split at noTarget
        · cases noTarget
        · cases noTarget
          exact .target form
      · exact ih (exceptMap_eq_error_iff.mp failed)

theorem mergeFault_of_mergeStarts {module : Tree} {error : LinkError}
    (failed : Module.mergeStarts module = .error error) : MergeFault error := by
  unfold Module.mergeStarts at failed
  dsimp only at failed
  split at failed
  · cases failed
  · split at failed
    · rename_i noTargets
      cases failed
      exact mergeFault_of_startTargets noTargets
    · split at failed
      · rename_i noName
        cases failed
        unfold freshIdentifier at noName
        split at noName
        · split at noName
          · cases noName
          · cases noName
            exact .taken _
        · cases noName
      · cases failed

/-! ## Memories and segments -/

/-- The errors of sizing a module.  Numbers that cannot be read or written and
escapes that are too large come with where they are. -/
inductive SizingFault (module : Tree) : LinkError → Prop
  | malformed (defect : FormDefect) (form : Tree) : SizingFault module (.malformedForm defect form)
  | undeclared (reference : String) : SizingFault module (.undeclaredMemory reference)
  | limit (label : String) (required maximum : Int) :
      SizingFault module (.memoryLimit label required maximum)
  | unreadable {text : String} {fault : NumeralFault} : .atom text ∈ module.subtrees →
      isIntLiteral text = true → parseInt text = .error fault → SizingFault module (.numeral fault)
  | unwritable {text : String} {number : Int} {fault : NumeralFault} :
      .atom text ∈ module.subtrees → parseInt text = .ok number → writeInt number = .error fault →
        SizingFault module (.numeral fault)
  | pages {form : Tree} {segment : Segment} {fault : NumeralFault} : form ∈ module.items →
      Segment.ofForm? form = .ok (some segment) →
        writeInt (pagesFor segment.finish) = .error fault → SizingFault module (.numeral fault)
  | escape {text body : String} : .atom text ∈ module.subtrees → unquoted? text = some body →
      StringLiteral.byteLength body = .error .negativeBeyondWord →
        SizingFault module .escapeBeyondWord

theorem exists_of_offsetOfWords {words : List Tree} {fault : NumeralFault}
    (failed : offsetOfWords words = .error fault) :
    ∃ text, .atom text ∈ words ∧ isIntLiteral text = true ∧ parseInt text = .error fault := by
  unfold offsetOfWords at failed
  split at failed
  · split at failed
    · split at failed
      · rename_i text _ _ _ isLiteral
        exact ⟨text, by simp, isLiteral, exceptMap_eq_error_iff.mp failed⟩
      · cases failed
    · cases failed
  · cases failed

theorem exists_of_constantOffset {expression : Tree} {fault : NumeralFault}
    (failed : constantOffset expression = .error fault) :
    ∃ text, .atom text ∈ expression.subtrees ∧ isIntLiteral text = true ∧
      parseInt text = .error fault := by
  have inItems : ∀ items words, words ⊆ items → offsetOfWords words = .error fault →
      ∃ text, .atom text ∈ (Tree.list items).subtrees ∧ isIntLiteral text = true ∧
        parseInt text = .error fault := by
    intro items words subset failedWords
    obtain ⟨text, member, found⟩ := exists_of_offsetOfWords failedWords
    exact ⟨text, Tree.mem_subtrees_of_mem_items (subset member), found⟩
  fun_induction constantOffset expression with
  | case1 text => cases failed
  | case2 items ih =>
      obtain ⟨text, member, found⟩ := ih failed
      exact ⟨text, Tree.mem_subtrees_of_mem (by simp) member, found⟩
  | case3 => cases failed
  | case4 words => exact inItems _ words (by simp) failed
  | case5 => exact inItems _ _ (by simp) failed
  | case6 items => exact inItems _ items (by simp) failed

theorem exists_of_literalsLength {atoms : List String} {fault : EscapeFault}
    (failed : literalsLength atoms = .error fault) :
    ∃ text ∈ atoms, ∃ body, unquoted? text = some body ∧
      StringLiteral.byteLength body = .error fault := by
  induction atoms with
  | nil => cases failed
  | cons text rest ih =>
      have later : literalsLength rest = .error fault → ∃ other ∈ text :: rest, ∃ body,
          unquoted? other = some body ∧ StringLiteral.byteLength body = .error fault := by
        intro failedRest
        obtain ⟨other, member, found⟩ := ih failedRest
        exact ⟨other, List.mem_cons_of_mem text member, found⟩
      rw [literalsLength] at failed
      split at failed
      · exact later failed
      · rename_i body isLiteral
        split at failed
        · rename_i malformed
          cases failed
          exact ⟨text, by simp, body, isLiteral, malformed⟩
        · exact later (exceptMap_eq_error_iff.mp failed)

theorem segmentSize_eq_ok_iff {form : Tree} {size : Nat} :
    segmentSize form = .ok size ↔ literalsLength form.atoms = .ok size := by
  cases counted : literalsLength form.atoms with
  | ok length => simp [segmentSize, counted]
  | error fault => cases fault <;> simp [segmentSize, counted]

theorem Tree.mem_items_of_mem_atoms {tree : Tree} {text : String} (member : text ∈ tree.atoms) :
    .atom text ∈ tree.items := by
  obtain ⟨item, inItems, isText⟩ := List.mem_filterMap.mp member
  have isItem : item ∈ tree.items := by
    split at inItems
    · exact List.mem_of_mem_tail inItems
    · exact inItems
  cases item with
  | list items => cases isText
  | atom other =>
      cases isText
      exact isItem

theorem Tree.mem_items_of_find? {tree form : Tree} {tags : List String}
    (found : tree.find? tags = some form) : form ∈ tree.items :=
  List.mem_of_mem_filter (List.mem_of_find?_eq_some found)

theorem mem_items_of_offsetExpression? {form expression : Tree}
    (found : offsetExpression? form = some expression) : expression ∈ form.items := by
  cases marked : form.find? ["offset"] with
  | some other =>
      obtain rfl : other = expression := by simpa [offsetExpression?, marked] using found
      exact Tree.mem_items_of_find? marked
  | none =>
      rw [offsetExpression?, marked] at found
      exact List.mem_of_mem_filter (List.mem_of_find?_eq_some found)

/-- Where the parts of a segment come from. -/
theorem Segment.ofForm?_cases {form : Tree} {segment : Segment}
    (isSegment : Segment.ofForm? form = .ok (some segment)) :
    form.hasTag "data" = true ∧ memoryReference form (form.find? ["memory"]) = .ok segment.memory ∧
      segmentSize form = .ok segment.size ∧
        (segment.offset = some 0 ∨ ∃ expression, constantOffset expression = .ok segment.offset) := by
  unfold Segment.ofForm? at isSegment
  split at isSegment
  · rename_i isData
    dsimp only at isSegment
    split at isSegment
    · cases isSegment
    · obtain ⟨memory, refers, isSegment⟩ := exceptBind_eq_ok_iff.mp isSegment
      obtain ⟨size, measured, isSegment⟩ := exceptBind_eq_ok_iff.mp isSegment
      cases isExpression : offsetExpression? form with
      | none =>
          simp only [isExpression] at isSegment
          cases isSegment
          exact ⟨isData, refers, measured, .inl rfl⟩
      | some expression =>
          simp only [isExpression] at isSegment
          obtain ⟨offset, found, taken⟩ := exceptBind_eq_ok_iff.mp isSegment
          cases taken
          exact ⟨isData, refers, measured, .inr ⟨expression, mapError_eq_ok_iff.mp found⟩⟩
  · cases isSegment

/-- A segment refers to a memory by default or with an atom of its form. -/
theorem reference_of_ofForm? {form : Tree} {segment : Segment}
    (isSegment : Segment.ofForm? form = .ok (some segment)) :
    segment.memory = "0" ∨ .atom segment.memory ∈ form.subtrees := by
  obtain ⟨-, refers, -⟩ := Segment.ofForm?_cases isSegment
  cases used : form.find? ["memory"] with
  | none =>
      rw [used] at refers
      exact .inl (Except.ok.inj refers).symm
  | some use =>
      rw [used] at refers
      unfold memoryReference at refers
      split at refers
      · exact .inl (Except.ok.inj refers).symm
      · rename_i use_eq
        cases use_eq
        rw [← Except.ok.inj refers]
        refine .inr (Tree.mem_subtrees_trans ?_
          (Tree.mem_subtrees_of_mem_items (Tree.mem_items_of_find? used)))
        exact Tree.mem_subtrees_of_mem_items (by simp [Tree.items])
      · cases refers

section Sizing

variable {module : Tree} {error : LinkError}

theorem sizingFault_of_segmentSize {form : Tree} (member : form ∈ module.items)
    (failed : segmentSize form = .error error) : SizingFault module error := by
  unfold segmentSize at failed
  split at failed
  · cases failed
  · rename_i tooLarge
    cases failed
    obtain ⟨text, inAtoms, body, isLiteral, found⟩ := exists_of_literalsLength tooLarge
    refine .escape (Tree.mem_subtrees_trans ?_ (Tree.mem_subtrees_of_mem_items member)) isLiteral found
    exact Tree.mem_subtrees_of_mem_items (Tree.mem_items_of_mem_atoms inAtoms)
  · cases failed
    exact .malformed _ _

theorem sizingFault_of_ofForm? {form : Tree} (member : form ∈ module.items)
    (failed : Segment.ofForm? form = .error error) : SizingFault module error := by
  have inModule := Tree.mem_subtrees_of_mem_items member
  unfold Segment.ofForm? at failed
  split at failed
  · dsimp only at failed
    split at failed
    · cases failed
    · rcases exceptBind_eq_error_iff.mp failed with noMemory | ⟨memory, -, failed⟩
      · unfold memoryReference at noMemory
        split at noMemory <;> cases noMemory
        exact .malformed _ _
      · rcases exceptBind_eq_error_iff.mp failed with noSize | ⟨size, -, failed⟩
        · exact sizingFault_of_segmentSize member noSize
        · cases isExpression : offsetExpression? form with
          | none =>
              simp only [isExpression] at failed
              cases failed
          | some expression =>
              simp only [isExpression] at failed
              rcases exceptBind_eq_error_iff.mp failed with noOffset | ⟨offset, -, taken⟩
              · obtain ⟨fault, unread, rfl⟩ := mapError_eq_error_iff.mp noOffset
                obtain ⟨text, inside, isLiteral, found⟩ := exists_of_constantOffset unread
                have inForm := mem_items_of_offsetExpression? isExpression
                refine .unreadable (Tree.mem_subtrees_trans inside ?_) isLiteral found
                exact Tree.mem_subtrees_trans (Tree.mem_subtrees_of_mem_items inForm) inModule
              · cases taken
  · cases failed

theorem sizingFault_of_findMemory {form : Tree} {segment : Segment} (member : form ∈ module.items)
    (isSegment : Segment.ofForm? form = .ok (some segment)) {memories : List Memory}
    (failed : findMemory memories segment.memory = .error error) : SizingFault module error := by
  unfold findMemory at failed
  split at failed
  · split at failed
    · cases failed
    · cases failed
      exact .undeclared _
  · split at failed
    · rename_i isLiteral
      split at failed
      · rename_i fault unread
        cases failed
        rcases reference_of_ofForm? isSegment with isDefault | inForm
        · rw [isDefault] at unread
          cases unread
        · refine .unreadable (Tree.mem_subtrees_trans inForm ?_) isLiteral unread
          exact Tree.mem_subtrees_of_mem_items member
      · split at failed
        · cases failed
          exact .undeclared _
        · split at failed
          · cases failed
          · cases failed
            exact .undeclared _
    · cases failed
      exact .undeclared _

theorem sizingFault_of_measureForms {memories : List Memory} {extents : Extents}
    {forms : List Tree} (members : forms ⊆ module.items)
    (failed : (measureForms memories extents forms).1 = .error error) :
    SizingFault module error := by
  induction forms generalizing extents with
  | nil => cases failed
  | cons form rest ih =>
      obtain ⟨member, membersRest⟩ := List.cons_subset.mp members
      rw [measureForms] at failed
      split at failed
      · rename_i atForm
        cases failed
        unfold measureForm at atForm
        split at atForm
        · rename_i noSegment
          cases atForm
          exact sizingFault_of_ofForm? member noSegment
        · cases atForm
        · rename_i isSegment
          split at atForm
          · rename_i noMemory
            cases atForm
            exact sizingFault_of_findMemory member isSegment noMemory
          · split at atForm <;> cases atForm
      · exact ih membersRest failed

/-- Every extent that is measured is where a segment ends. -/
theorem finish_of_measureForms {memories : List Memory} {before extents : Extents}
    {forms : List Tree} (ends : ∀ entry ∈ before, ∃ form ∈ module.items, ∃ segment,
      Segment.ofForm? form = .ok (some segment) ∧ entry.2 = segment.finish)
    (members : forms ⊆ module.items)
    (measured : (measureForms memories before forms).1 = .ok extents) :
    ∀ entry ∈ extents, ∃ form ∈ module.items, ∃ segment,
      Segment.ofForm? form = .ok (some segment) ∧ entry.2 = segment.finish := by
  induction forms generalizing before with
  | nil =>
      cases measured
      exact ends
  | cons form rest ih =>
      obtain ⟨member, membersRest⟩ := List.cons_subset.mp members
      rw [measureForms] at measured
      split at measured
      · cases measured
      · rename_i between events step
        refine ih ?_ membersRest measured
        unfold measureForm at step
        split at step
        · cases step
        · cases step
          exact ends
        · rename_i segment isSegment
          split at step
          · cases step
          · rename_i memory _
            split at step
            · cases step
              exact ends
            · cases step
              refine List.forall_mem_cons.mpr ⟨?_, fun entry inRest =>
                ends entry (List.mem_of_mem_filter inRest)⟩
              have own : ∃ form ∈ module.items, ∃ segment',
                  Segment.ofForm? form = .ok (some segment') ∧ segment.finish = segment'.finish :=
                ⟨form, member, segment, isSegment, rfl⟩
              cases found : before.lookup memory.index with
              | none => simpa [found] using own
              | some extent =>
                  dsimp only [Option.getD_some]
                  rcases max_choice extent segment.finish with isOld | isNew
                  · rw [isOld]
                    obtain ⟨front, behind, rfl, -⟩ := List.lookup_eq_some_iff.mp found
                    exact ends (memory.index, extent) (by simp)
                  · rw [isNew]
                    exact own

theorem limitError_cases {memory : Memory} {pages maximum : Int}
    (limited : memory.limitError pages maximum = error) :
    error = .memoryLimit memory.label pages maximum ∨ Memory.writePages pages = .error error ∨
      Memory.writePages maximum = .error error := by
  unfold Memory.limitError at limited
  split at limited
  · exact .inl limited.symm
  · rename_i noPages
    exact .inr (.inl (limited ▸ noPages))
  · rename_i noMaximum _
    exact .inr (.inr (limited ▸ noMaximum))

theorem mem_items_of_mem_limits {memory : Memory} {text : String} (member : text ∈ memory.limits) :
    .atom text ∈ memory.form.items ∧ isIntLiteral text = true := by
  obtain ⟨item, inItems, isText⟩ := List.mem_filterMap.mp member
  obtain ⟨inTail, isLiteral⟩ := List.mem_filter.mp inItems
  cases item with
  | list items => cases isText
  | atom other =>
      cases isText
      exact ⟨List.mem_of_mem_tail inTail, isLiteral⟩

theorem exists_of_readLimit {memory : Memory} {text : String} (member : text ∈ memory.limits)
    (failed : Memory.readLimit text = .error error) :
    ∃ text fault, .atom text ∈ memory.form.items ∧ isIntLiteral text = true ∧
      parseInt text = .error fault ∧ error = .numeral fault := by
  obtain ⟨inItems, isLiteral⟩ := mem_items_of_mem_limits member
  obtain ⟨fault, unread, rfl⟩ := mapError_eq_error_iff.mp failed
  exact ⟨text, fault, inItems, isLiteral, unread, rfl⟩

theorem exists_of_writePages {pages : Int} (failed : Memory.writePages pages = .error error) :
    ∃ fault, writeInt pages = .error fault ∧ error = .numeral fault := by
  obtain ⟨fault, unwritten, rfl⟩ := mapError_eq_error_iff.mp failed
  exact ⟨fault, unwritten, rfl⟩

/-- Growing fails for a maximum that is too small, or for a number that cannot be
read or written. -/
theorem grow_eq_error {memory : Memory} {pages : Int} (failed : memory.grow pages = .error error) :
    (∃ label maximum, error = .memoryLimit label pages maximum) ∨
      (∃ text fault, .atom text ∈ memory.form.items ∧ isIntLiteral text = true ∧
        parseInt text = .error fault ∧ error = .numeral fault) ∨
      (∃ text number fault, .atom text ∈ memory.form.items ∧ parseInt text = .ok number ∧
        writeInt number = .error fault ∧ error = .numeral fault) ∨
      ∃ fault, writeInt pages = .error fault ∧ error = .numeral fault := by
  -- Whatever the branch, the last thing to do is to write the pages.
  have raising : ∀ result : String → Tree × Option Event,
      (do let minimum ← Memory.writePages pages
          Except.ok (result minimum)) = .error error →
        ∃ fault, writeInt pages = .error fault ∧ error = .numeral fault := by
    intro result failedRaise
    rcases exceptBind_eq_error_iff.mp failedRaise with unwritten | ⟨_, -, raised⟩
    · exact exists_of_writePages unwritten
    · cases raised
  unfold Memory.grow at failed
  split at failed
  · cases failed
  · split at failed
    · exact .inr (.inr (.inr (raising _ failed)))
    · rename_i minimum further limits_eq
      rcases exceptBind_eq_error_iff.mp failed with noMinimum | ⟨current, -, failed⟩
      · exact .inr (.inl (exists_of_readLimit (by simp [limits_eq]) noMinimum))
      · split at failed
        · cases failed
        · cases further with
          | nil => exact .inr (.inr (.inr (raising _ failed)))
          | cons text rest =>
              have isLimit : text ∈ memory.limits := by simp [limits_eq]
              rcases exceptBind_eq_error_iff.mp failed with noMaximum | ⟨maximum, reads, failed⟩
              · exact .inr (.inl (exists_of_readLimit isLimit noMaximum))
              · split at failed
                · rcases limitError_cases (Except.error.inj failed) with
                    isLimitError | noPages | noMaximum
                  · exact .inl ⟨_, _, isLimitError⟩
                  · exact .inr (.inr (.inr (exists_of_writePages noPages)))
                  · obtain ⟨fault, unwritten, isNumeral⟩ := exists_of_writePages noMaximum
                    exact .inr (.inr (.inl ⟨text, maximum, fault,
                      (mem_items_of_mem_limits isLimit).1, mapError_eq_ok_iff.mp reads,
                        unwritten, isNumeral⟩))
                · exact .inr (.inr (.inr (raising _ failed)))

theorem form_mem_subtrees_of_mem_memories {memory : Memory}
    (member : memory ∈ Module.memories module) : memory.form ∈ module.subtrees := by
  obtain ⟨index, declaration, found, rfl⟩ := Module.mem_memories_iff.mp member
  obtain ⟨item, inModule, declares⟩ := Module.exists_of_mem_indexSpace (List.mem_of_getElem? found)
  have itemInside := Tree.mem_subtrees_of_mem_items inModule
  rcases Module.declaration?_cases declares with ⟨rest, rfl, -, inRest⟩ | ⟨-, -, rfl⟩
  · refine Tree.mem_subtrees_trans (Tree.mem_subtrees_of_mem_items ?_) itemInside
    exact List.mem_cons_of_mem _ (List.mem_of_find?_eq_some inRest)
  · exact itemInside

theorem exists_of_growMemories {extents : Extents} {memories : List Memory}
    (failed : (growMemories extents memories).2.2 = some error) :
    ∃ memory ∈ memories, ∃ extent, (memory.index, extent) ∈ extents ∧
      memory.grow (pagesFor extent) = .error error := by
  induction memories with
  | nil => cases failed
  | cons memory rest ih =>
      have later : (growMemories extents rest).2.2 = some error →
          ∃ other ∈ memory :: rest, ∃ extent, (other.index, extent) ∈ extents ∧
            other.grow (pagesFor extent) = .error error := by
        intro failedRest
        obtain ⟨other, member, found⟩ := ih failedRest
        exact ⟨other, List.mem_cons_of_mem memory member, found⟩
      rw [growMemories] at failed
      split at failed
      · exact later failed
      · rename_i extent found
        split at failed
        · rename_i notGrown
          cases failed
          obtain ⟨front, behind, rfl, -⟩ := List.lookup_eq_some_iff.mp found
          exact ⟨memory, by simp, extent, by simp, notGrown⟩
        · exact later failed

theorem sizingFault_of_sizeMemories (failed : (Module.sizeMemories module).failure = some error) :
    SizingFault module error := by
  have members : module.forms ⊆ module.items := fun form => List.mem_of_mem_filter
  unfold Module.sizeMemories at failed
  dsimp only at failed
  split at failed
  · rename_i measured
    cases failed
    exact sizingFault_of_measureForms members (congrArg Prod.fst measured)
  · rename_i extents events measured
    obtain ⟨memory, isMemory, extent, inExtents, notGrown⟩ := exists_of_growMemories failed
    have inModule := form_mem_subtrees_of_mem_memories isMemory
    have atomInside : ∀ text, .atom text ∈ memory.form.items → .atom text ∈ module.subtrees :=
      fun text inForm => Tree.mem_subtrees_trans (Tree.mem_subtrees_of_mem_items inForm) inModule
    rcases grow_eq_error notGrown with ⟨label, maximum, rfl⟩ |
        ⟨text, fault, inForm, isLiteral, unread, rfl⟩ |
        ⟨text, number, fault, inForm, reads, unwritten, rfl⟩ | ⟨fault, unwritten, rfl⟩
    · exact .limit _ _ _
    · exact .unreadable (atomInside text inForm) isLiteral unread
    · exact .unwritable (atomInside text inForm) reads unwritten
    · obtain ⟨form, member, segment, isSegment, ends⟩ := finish_of_measureForms (by simp) members
        (congrArg Prod.fst measured) _ inExtents
      rw [show extent = segment.finish from ends] at unwritten
      exact .pages member isSegment unwritten

end Sizing

/-! ## All passes -/

/-- The atoms of a module and of the constants that folding makes. -/
def foldingLaw (module : Tree) : NodeLaw where
  atom text := .atom text ∈ module.subtrees ∨ Pass.Inserts .foldConstants text
  tag _ := True

/-- The errors that a pass over a module can stop with when it asks a store for files. -/
inductive Pass.Fault (store : FileStore) (module : Tree) : Pass → LinkError → Prop
  | notAModule {pass : Pass} : Fault store module pass (.notAModule pass)
  | imports {pass : Pass} {error : LinkError} : pass.ReadsFiles →
      ImportFault error ∨ UnservedFault store error → Fault store module pass error
  | decimalNumerals {text : String} {fault : NumeralFault} : .atom text ∈ module.subtrees →
      decimalSpelling? text = some (.error fault) → Fault store module .decimalNumerals (.numeral fault)
  | foldConstants {error : EvalError} :
      (Constant.foldReviser (Module.globals module)).FailsIn (foldingLaw module) module error →
        Fault store module .foldConstants (.constant error)
  | sizeMemories {error : LinkError} : SizingFault module error → Fault store module .sizeMemories error
  | mergeStarts {error : LinkError} : MergeFault error → Fault store module .mergeStarts error

theorem exists_of_decimalNumerals {tree : Tree} {fault : NumeralFault}
    (failed : tree.decimalNumerals.failure = some fault) :
    ∃ text, .atom text ∈ tree.subtrees ∧ decimalSpelling? text = some (.error fault) := by
  let anyLaw : NodeLaw := ⟨fun _ => True, fun _ => True⟩
  have obeysAny : ∀ tree : Tree, tree.Obeys anyLaw :=
    fun _ _ _ => ⟨fun _ _ => trivial, fun _ _ => trivial⟩
  obtain ⟨whole, item, member, -, -, fails⟩ := Tree.failsIn_of_revise (fun _ => trivial)
    (fun _ item' _ _ => obeysAny item') (obeysAny tree) failed
  cases item with
  | list items => cases fails
  | atom text =>
      refine ⟨text, member, ?_⟩
      simp only [decimalReviser] at fails
      split at fails
      · cases fails
      · obtain ⟨spelling, isPrefixed, spelled⟩ := Option.map_eq_some_iff.mp fails
        rw [isPrefixed, exceptMap_eq_error_iff.mp spelled]

theorem failsIn_of_foldConstants {module : Tree} {error : EvalError}
    (failed : (Module.foldConstants module).failure = some error) :
    (Constant.foldReviser (Module.globals module)).FailsIn (foldingLaw module) module error := by
  refine Tree.failsIn_of_revise (fun _ => trivial) (fun item item' replaces _ => ?_) ?_ failed
  · obtain ⟨type, value, -, rfl⟩ := exists_of_foldReviser_replaces replaces
    refine Tree.obeys_tagged.mpr ⟨⟨.inr (.constantTag type), trivial⟩, ?_⟩
    exact List.forall_mem_singleton.mpr (Tree.obeys_atom.mpr (.inr (.constant value)))
  · intro part member
    refine ⟨fun text isText => .inl ?_, fun _ _ => trivial⟩
    cases part with
    | list items => cases isText
    | atom other =>
        cases isText
        exact member

/-- What a pass fails with. -/
theorem Pass.fault_of_run {pass : Pass} {origin : Option String} {state : LinkState}
    {error : LinkError} (notFailed : state.failure = none)
    (failed : (pass.run origin state).failure = some error) :
      pass.Fault state.session.store state.tree error := by
  unfold Pass.run at failed
  by_cases isModule : state.tree.isModule = true
  · simp only [LinkState.report, isModule, if_true] at failed
    cases pass with
    | expandImports =>
        simp only [Pass.apply, EStateM.run] at failed
        split at failed
        · simp [notFailed] at failed
        · rename_i notExpanded
          cases failed
          have faulty := fault_of_expandImports notExpanded
          exact .imports (.inl rfl) faulty
    | inlineData =>
        have faulty := fault_of_inlineForms failed
        exact .imports (.inr rfl) faulty
    | decimalNumerals =>
        simp only [Pass.apply, LinkState.adopt] at failed
        split at failed
        · rename_i fault revised
          cases failed
          obtain ⟨text, member, found⟩ := exists_of_decimalNumerals revised
          exact .decimalNumerals member found
        · simp [LinkState.report, notFailed] at failed
    | foldConstants =>
        simp only [Pass.apply, LinkState.adopt] at failed
        split at failed
        · rename_i fault revised
          cases failed
          exact .foldConstants (failsIn_of_foldConstants revised)
        · simp [LinkState.report, notFailed] at failed
    | sizeMemories => exact .sizeMemories (sizingFault_of_sizeMemories failed)
    | mergeStarts =>
        simp only [Pass.apply] at failed
        split at failed
        · rename_i notMerged
          cases failed
          exact .mergeStarts (mergeFault_of_mergeStarts notMerged)
        · simp [notFailed] at failed
        · simp [LinkState.report, notFailed] at failed
    | sortForms => simp [Pass.apply, notFailed] at failed
  · simp only [LinkState.report, isModule] at failed
    cases failed
    exact .notAModule

end WatLink
