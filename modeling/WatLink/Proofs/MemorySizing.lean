import WatLink.Memory.Sizing
import WatLink.Proofs.ExceptLaws
import WatLink.Proofs.IndexSpaces
import WatLink.Proofs.IntegerLiterals

/-!
# Sized memories

Growing a memory writes one numeral into its form and leaves everything else in
place, so the form declares the same memory under the same name, and growing it
to the same number of pages again changes nothing.

The pages that a module's memories need depend only on their names and indices
and on the data forms in their order.  So sizing keeps them, and a sized module
stays sized while neither its memories nor its data forms change.
-/

namespace WatLink

theorem isIdentifier_of_isIntLiteral {text : String} (isLiteral : isIntLiteral text = true) :
    isIdentifier text = false := by
  cases starts : isIdentifier text with
  | false => rfl
  | true =>
      have head : text.toList.head? = some '$' := by simpa [isIdentifier] using starts
      obtain ⟨rest, characters⟩ : ∃ rest, text.toList = '$' :: rest := by
        match text.toList, head with
        | _ :: rest, head => exact ⟨rest, by simpa using head⟩
      have front : ∃ others, IntLiteral.dropFinalNewline ('$' :: rest) = '$' :: others := by
        unfold IntLiteral.dropFinalNewline
        split
        · rename_i endsSo
          cases rest with
          | nil => simp at endsSo
          | cons next others => exact ⟨_, rfl⟩
        · exact ⟨rest, rfl⟩
      obtain ⟨others, dropped⟩ := front
      have noDigit : Radix.decimal.digit? '$' = none := by decide
      simp [isIntLiteral, IntLiteral.ofText?, characters, dropped, IntLiteral.readSigned,
        IntLiteral.readUnsigned, IntLiteral.readDigits, noDigit] at isLiteral

namespace Memory

theorem isLimit_decimalNumeral (number : Int) : isLimit (.atom (decimalNumeral number)) = true := by
  simp [isLimit, isIntLiteral, (isText_decimalNumeral number).ofText?]

theorem insertMinimum_split (minimum : String) (items : List Tree) :
    ∃ before after, items = before ++ after ∧
      insertMinimum minimum items = before ++ .atom minimum :: after ∧
      .atom "shared" ∉ before ∧ ∀ next ∈ after.head?, next = .atom "shared" := by
  induction items with
  | nil => exact ⟨[], [], rfl, rfl, by simp, by simp⟩
  | cons item rest ih =>
      by_cases isShared : item = .atom "shared"
      · exact ⟨[], item :: rest, rfl, by simp [insertMinimum, isShared], by simp, by simp [isShared]⟩
      · obtain ⟨before, after, rfl, inserted, notShared, next⟩ := ih
        refine ⟨item :: before, after, rfl, by simp [insertMinimum, isShared, inserted], ?_, next⟩
        simp [notShared, Ne.symm isShared]

/-- What stands where a new minimum is written: nothing, at the end or in front
of `shared`, or the first limit. -/
inductive MinimumPlace (after : List Tree) : List Tree → Prop
  | new : (∀ next ∈ after.head?, next = .atom "shared") → MinimumPlace after []
  | limit {text : String} : isIntLiteral text = true → MinimumPlace after [.atom text]

/-- A memory form without inline data that got a number of pages as its minimum. -/
inductive Raised (pages : Int) : Tree → Tree → Prop
  | intro {tag : String} {before old after : List Tree} :
      before.filter isLimit = [] → MinimumPlace after old →
        (Tree.list (.atom tag :: (before ++ (old ++ after)))).find? ["data"] = none →
          writeInt pages = .ok (decimalNumeral pages) →
            Raised pages (.list (.atom tag :: (before ++ (old ++ after))))
              (.list (.atom tag :: (before ++ .atom (decimalNumeral pages) :: after)))

namespace Raised

variable {pages : Int} {form form' : Tree}

theorem forms (raised : Raised pages form form') : form'.forms = form.forms := by
  obtain ⟨-, place, -, -⟩ := raised
  cases place <;> simp [Tree.forms, Tree.items, Tree.isList]

theorem sameDeclaration (raised : Raised pages form form') :
    Module.SameDeclaration form form' := by
  have sameTag : form'.tag? = form.tag? := by
    cases raised
    rfl
  refine ⟨sameTag, ?_⟩
  simp only [hasInlineImport, Tree.hasTagIn, Tree.find?, sameTag, raised.forms]

theorem identifier? (raised : Raised pages form form') : form'.identifier? = form.identifier? := by
  have notIdentifier : isIdentifier (decimalNumeral pages) = false :=
    isIdentifier_of_isIntLiteral (isLimit_decimalNumeral pages)
  obtain ⟨-, place, -, -⟩ := raised
  rename_i tag before old after
  match before, place with
  | item :: rest, _ => cases item <;> rfl
  | [], .new next =>
      match after, next with
      | [], _ => simp [Tree.identifier?, Tree.items, notIdentifier]
      | item :: rest, next =>
          obtain rfl : item = .atom "shared" := next item (by simp)
          have notShared : isIdentifier "shared" = false := by decide
          simp [Tree.identifier?, Tree.items, notIdentifier, notShared]
  | [], .limit isLiteral =>
      simp [Tree.identifier?, Tree.items, notIdentifier, isIdentifier_of_isIntLiteral isLiteral]

/-- A raised memory is large enough. -/
theorem grow (raised : Raised pages form form') (index : Nat) :
    (ofForm index form').grow pages = .ok (form', none) := by
  have noData : form'.find? ["data"] = none := by
    rw [Tree.find?, raised.forms]
    cases raised
    assumption
  obtain ⟨noneBefore, -, -, written⟩ := raised
  rename_i tag before old after
  have limits : (ofForm index (.list (.atom tag ::
      (before ++ .atom (decimalNumeral pages) :: after)))).limits =
        decimalNumeral pages :: (after.filter isLimit).filterMap Tree.text? := by
    simp [Memory.limits, ofForm, Tree.items, noneBefore, isLimit_decimalNumeral, Tree.text?]
  have readsBack := (parseInt_of_writeInt written).2
  simp only [Memory.grow, limits]
  rw [ofForm, noData]
  simp [readLimit, readsBack, Except.mapError, bind, Except.bind]

end Raised

theorem filterMap_text?_eq_nil_iff {items : List Tree} :
    (items.filter isLimit).filterMap Tree.text? = [] ↔ items.filter isLimit = [] := by
  refine ⟨fun noTexts => ?_, fun noLimits => by rw [noLimits]; rfl⟩
  rw [List.filterMap_eq_nil_iff] at noTexts
  refine List.eq_nil_iff_forall_not_mem.mpr fun item member => ?_
  match item, List.of_mem_filter member, noTexts item member with
  | .atom text, _, noText => simp [Tree.text?] at noText

theorem writePages_eq_ok {pages : Int} {minimum : String}
    (written : writePages pages = .ok minimum) :
    writeInt pages = .ok (decimalNumeral pages) ∧ minimum = decimalNumeral pages := by
  unfold writePages at written
  cases ending : writeInt pages with
  | error fault => simp [ending, Except.mapError] at written
  | ok text =>
      obtain ⟨rfl, -⟩ := parseInt_of_writeInt ending
      simp only [ending, Except.mapError, Except.ok.injEq] at written
      exact ⟨rfl, written.symm⟩

/-- The value of an item of a memory form that is an integer literal. -/
def limitValue? (item : Tree) : Option Int :=
  (item.text?.bind IntLiteral.ofText?).map IntLiteral.value

theorem filterMap_limitValue? (items : List Tree) :
    items.filterMap limitValue? = ((items.filter isLimit).filterMap Tree.text?).filterMap
      fun text => (IntLiteral.ofText? text).map IntLiteral.value := by
  rw [List.filterMap_filterMap, List.filterMap_filter]
  refine List.filterMap_congr fun item _ => ?_
  cases item with
  | atom text => cases reads : IntLiteral.ofText? text <;>
      simp [limitValue?, isLimit, isIntLiteral, Tree.text?, reads]
  | list items => rfl

/-- What growing to a number of pages makes of the items behind the tag of a memory
form.  The first limit is the minimum: it is kept if it is large enough, and else
replaced, unless the next limit is in the way.  Without a limit there is a new
one before the first `shared`, or at the end. -/
inductive Grown (pages : Int) : List Tree → List Tree → Prop
  | enough {before after : List Tree} {text : String} {literal : IntLiteral} :
      before.filter isLimit = [] → IntLiteral.ofText? text = some literal →
        pages ≤ literal.value →
          Grown pages (before ++ .atom text :: after) (before ++ .atom text :: after)
  | replaced {before after : List Tree} {text : String} {literal : IntLiteral} :
      before.filter isLimit = [] → IntLiteral.ofText? text = some literal →
        literal.value < pages → (∀ maximum ∈ (after.filterMap limitValue?).head?, pages ≤ maximum) →
          writeInt pages = .ok (decimalNumeral pages) →
            Grown pages (before ++ .atom text :: after)
              (before ++ .atom (decimalNumeral pages) :: after)
  | inserted {before after : List Tree} :
      (before ++ after).filter isLimit = [] → .atom "shared" ∉ before →
        (∀ next ∈ after.head?, next = .atom "shared") →
          writeInt pages = .ok (decimalNumeral pages) →
            Grown pages (before ++ after) (before ++ .atom (decimalNumeral pages) :: after)

theorem exists_literal_of_readLimit {text : String} {number : Int}
    (reads : readLimit text = .ok number) :
    ∃ literal, IntLiteral.ofText? text = some literal ∧ literal.value = number := by
  unfold readLimit at reads
  cases parsed : parseInt text with
  | error fault => simp [parsed, Except.mapError] at reads
  | ok value =>
      simp only [parsed, Except.mapError, Except.ok.injEq] at reads
      obtain ⟨literal, isLiteral, -, value_eq⟩ := exists_of_parseInt parsed
      exact ⟨literal, isLiteral, value_eq.trans reads⟩

/-- The first limit among some items, with what stands before and behind it. -/
theorem exists_first_limit {items : List Tree} {minimum : String} {further : List String}
    (texts : (items.filter isLimit).filterMap Tree.text? = minimum :: further) :
    ∃ before after, items = before ++ .atom minimum :: after ∧ before.filter isLimit = [] ∧
      (after.filter isLimit).filterMap Tree.text? = further ∧
      ∀ text, replaceMinimum text items = before ++ .atom text :: after := by
  induction items with
  | nil => cases texts
  | cons item rest ih =>
      cases isFirst : isLimit item with
      | true =>
          match item, isFirst with
          | .atom text, isFirst =>
              rw [List.filter_cons_of_pos isFirst] at texts
              obtain ⟨rfl, others⟩ := List.cons.inj texts
              exact ⟨[], rest, rfl, rfl, others, by simp [replaceMinimum, isFirst]⟩
      | false =>
          rw [List.filter_cons_of_neg (by simp [isFirst])] at texts
          obtain ⟨before, after, rfl, noneBefore, others, replaced⟩ := ih texts
          refine ⟨item :: before, after, rfl, ?_, others, ?_⟩
          · rw [List.filter_cons_of_neg (by simp [isFirst]), noneBefore]
          · simp [replaceMinimum, isFirst, replaced]

theorem grown_of_insert {pages : Int} {minimum : String} {rest : List Tree}
    (noLimits : rest.filter isLimit = []) (written : writePages pages = .ok minimum) :
    ∃ rest', insertMinimum minimum (.atom "memory" :: rest) = .atom "memory" :: rest' ∧
      Grown pages rest rest' := by
  obtain ⟨isWritten, rfl⟩ := writePages_eq_ok written
  obtain ⟨before, after, rfl, inserted, notShared, next⟩ :=
    insertMinimum_split (decimalNumeral pages) rest
  refine ⟨_, ?_, .inserted noLimits notShared next isWritten⟩
  simp [insertMinimum, inserted]

/-- What growing can do to a memory form. -/
theorem grow_eq_ok {index : Nat} {name : Option String} {pages : Int} {rest : List Tree}
    {form' : Tree} {event? : Option Event}
    (grows : (Memory.mk index name (.list (.atom "memory" :: rest))).grow pages =
      .ok (form', event?)) :
    ((Tree.list (.atom "memory" :: rest)).find? ["data"]).isSome = true ∧
        form' = .list (.atom "memory" :: rest) ∨
      (Tree.list (.atom "memory" :: rest)).find? ["data"] = none ∧
        ∃ rest', form' = .list (.atom "memory" :: rest') ∧ Grown pages rest rest' := by
  have limits_eq : (Memory.mk index name (.list (.atom "memory" :: rest))).limits =
      (rest.filter isLimit).filterMap Tree.text? := rfl
  unfold Memory.grow at grows
  split at grows
  · rename_i hasData
    cases grows
    exact .inl ⟨hasData, rfl⟩
  · rename_i notData
    refine .inr ⟨by simpa using notData, ?_⟩
    split at grows
    · rename_i noTexts
      rw [limits_eq, filterMap_text?_eq_nil_iff] at noTexts
      obtain ⟨minimum, written, done⟩ := exceptBind_eq_ok_iff.mp grows
      cases done
      obtain ⟨rest', behindTag, grown⟩ := grown_of_insert noTexts written
      exact ⟨rest', congrArg Tree.list behindTag, grown⟩
    · rename_i minimum further texts
      rw [limits_eq] at texts
      obtain ⟨before, after, rfl, noneBefore, others, replaced⟩ := exists_first_limit texts
      obtain ⟨current, readsMinimum, grows⟩ := exceptBind_eq_ok_iff.mp grows
      obtain ⟨literal, isLiteral, rfl⟩ := exists_literal_of_readLimit readsMinimum
      split at grows
      · cases grows
        exact ⟨_, rfl, .enough noneBefore isLiteral ‹_›⟩
      · rename_i small
        have values := filterMap_limitValue? after
        rw [others] at values
        -- the next limit is looked at only here, where the minimum has to change
        obtain ⟨underMaximum, written, written_eq, rfl⟩ :
            (∀ maximum ∈ (after.filterMap limitValue?).head?, pages ≤ maximum) ∧
              ∃ text, writePages pages = .ok text ∧
                form' = .list (.atom "memory" :: replaceMinimum text
                  (before ++ .atom minimum :: after)) := by
          dsimp only at grows
          split at grows
          · obtain ⟨maximum, readsMaximum, grows⟩ := exceptBind_eq_ok_iff.mp grows
            obtain ⟨upper, isUpper, rfl⟩ := exists_literal_of_readLimit readsMaximum
            split at grows
            · cases grows
            · rename_i notAbove
              obtain ⟨text, written, done⟩ := exceptBind_eq_ok_iff.mp grows
              cases done
              refine ⟨?_, text, written, rfl⟩
              simp only [values, List.filterMap_cons, isUpper, Option.map_some, List.head?_cons,
                Option.mem_def, Option.some.injEq, forall_eq']
              omega
          · obtain ⟨text, written, done⟩ := exceptBind_eq_ok_iff.mp grows
            cases done
            exact ⟨by simp [values], text, written, rfl⟩
        obtain ⟨isWritten, rfl⟩ := writePages_eq_ok written_eq
        rw [replaced]
        exact ⟨_, rfl, .replaced noneBefore isLiteral (by omega) underMaximum isWritten⟩

/-- Growing keeps a form or raises its minimum. -/
theorem grow_cases {memory : Memory} {pages : Int} {form' : Tree} {event? : Option Event}
    (tagged : memory.form.tag? = some "memory")
    (grows : memory.grow pages = .ok (form', event?)) :
    form' = memory.form ∨ Raised pages memory.form form' := by
  obtain ⟨index, name, form⟩ := memory
  obtain ⟨rest, rfl⟩ := Tree.exists_of_tag? tagged
  rcases grow_eq_ok grows with ⟨-, same⟩ | ⟨noData, rest', rfl, grown⟩
  · exact .inl same
  · cases grown with
    | enough _ _ _ => exact .inl rfl
    | replaced noneBefore isLiteral _ _ written =>
        exact .inr (.intro noneBefore (.limit (by simp [isIntLiteral, isLiteral])) noData written)
    | @inserted before after noLimits _ next written =>
        rw [List.filter_append, List.append_eq_nil_iff] at noLimits
        exact .inr (.intro noLimits.1 (.new next) noData written)

/-- A memory that was grown is not grown by the same number of pages again. -/
theorem grow_again {index : Nat} {form form' : Tree} {pages : Int} {event? : Option Event}
    (tagged : form.tag? = some "memory")
    (grows : (ofForm index form).grow pages = .ok (form', event?)) :
    ∃ event?, (ofForm index form').grow pages = .ok (form', event?) := by
  rcases grow_cases tagged grows with rfl | raised
  · exact ⟨event?, grows⟩
  · exact ⟨none, raised.grow index⟩

end Memory

/-! ## Measuring data -/

/-- What references to memories look at. -/
def Memory.key (memory : Memory) : Nat × Option String :=
  (memory.index, memory.name)

section Measuring

variable {memories memories' : List Memory}

theorem findMemory_congr (sameKeys : memories'.map Memory.key = memories.map Memory.key)
    (reference : String) :
    (findMemory memories' reference).map Memory.index =
      (findMemory memories reference).map Memory.index := by
  have byName : (memories'.find? (·.name == some reference)).map Memory.key =
      (memories.find? (·.name == some reference)).map Memory.key := by
    have found := congrArg (List.find? fun key => key.2 == some reference) sameKeys
    rwa [List.find?_map, List.find?_map] at found
  have byIndex : ∀ index : Nat, memories'[index]?.map Memory.key = memories[index]?.map Memory.key := by
    intro index
    rw [← List.getElem?_map, ← List.getElem?_map, sameKeys]
  unfold findMemory
  split
  · cases found' : memories'.find? (·.name == some reference) <;>
      cases found : memories.find? (·.name == some reference) <;>
      simp_all [Except.map, Memory.key]
  · split
    · cases parseInt reference with
      | error fault => rfl
      | ok index =>
          dsimp only
          split
          · rfl
          · have same := byIndex index.toNat
            cases found' : memories'[index.toNat]? <;> cases found : memories[index.toNat]? <;>
              simp_all [Except.map, Memory.key]
    · rfl

theorem measureForm_congr (sameKeys : memories'.map Memory.key = memories.map Memory.key)
    (extents : Extents) (form : Tree) :
    measureForm memories' extents form = measureForm memories extents form := by
  unfold measureForm
  cases Segment.ofForm? form with
  | error fault => rfl
  | ok segment? =>
      cases segment? with
      | none => rfl
      | some segment =>
          have same := findMemory_congr sameKeys segment.memory
          dsimp only
          cases found' : findMemory memories' segment.memory <;>
            cases found : findMemory memories segment.memory <;>
            simp_all [Except.map]

theorem measureForms_congr (sameKeys : memories'.map Memory.key = memories.map Memory.key)
    (extents : Extents) (forms : List Tree) :
    measureForms memories' extents forms = measureForms memories extents forms := by
  induction forms generalizing extents with
  | nil => rfl
  | cons form rest ih =>
      simp only [measureForms, measureForm_congr sameKeys extents form, ih]

/-- Only data forms are measured. -/
theorem measureForms_filter (memories : List Memory) (extents : Extents) (forms : List Tree) :
    measureForms memories extents (forms.filter (·.hasTag "data")) =
      measureForms memories extents forms := by
  induction forms generalizing extents with
  | nil => rfl
  | cons form rest ih =>
      cases isData : form.hasTag "data" with
      | true =>
          simp only [List.filter_cons, isData, if_true, measureForms, ih]
      | false =>
          have skipped : measureForm memories extents form = .ok (extents, []) := by
            simp [measureForm, Segment.ofForm?, isData]
          rw [List.filter_cons_of_neg (by simp [isData]), ih]
          simp [measureForms, skipped]

end Measuring

/-! ## Growing the memories of a module -/

/-- Whether a form is what a memory has to become for the extents: itself if no
data of known range is written to it, and else what growing it gives. -/
def Fitted (extents : Extents) (memory : Memory) (form : Tree) : Prop :=
  match extents.lookup memory.index with
  | none => form = memory.form
  | some extent => ∃ event?, memory.grow (pagesFor extent) = .ok (form, event?)

theorem Fitted.unique {extents : Extents} {memory : Memory} {form form' : Tree}
    (fitted : Fitted extents memory form) (fitted' : Fitted extents memory form') :
    form = form' := by
  unfold Fitted at fitted fitted'
  cases found : extents.lookup memory.index with
  | none =>
      rw [found] at fitted fitted'
      exact fitted.trans fitted'.symm
  | some extent =>
      rw [found] at fitted fitted'
      obtain ⟨event?, grows⟩ := fitted
      obtain ⟨event?', grows'⟩ := fitted'
      rw [grows] at grows'
      cases grows'
      rfl

/-- Only memories of the list are grown, each to the pages that its extent needs. -/
theorem exists_of_mem_growMemories {extents : Extents} {memories : List Memory}
    {entry : Nat × Tree} (member : entry ∈ (growMemories extents memories).1) :
    ∃ memory ∈ memories, memory.index = entry.1 ∧
      ∃ pages event?, memory.grow pages = .ok (entry.2, event?) := by
  induction memories with
  | nil => simp [growMemories] at member
  | cons memory rest ih =>
      have inRest : entry ∈ (growMemories extents rest).1 → ∃ other ∈ memory :: rest,
          other.index = entry.1 ∧ ∃ pages event?, other.grow pages = .ok (entry.2, event?) := by
        intro member
        obtain ⟨other, isOther, grown⟩ := ih member
        exact ⟨other, List.mem_cons_of_mem memory isOther, grown⟩
      cases found : extents.lookup memory.index with
      | none =>
          simp only [growMemories, found] at member
          exact inRest member
      | some extent =>
          cases grows : memory.grow (pagesFor extent) with
          | error fault => simp [growMemories, found, grows] at member
          | ok result =>
              simp only [growMemories, found, grows] at member
              rcases List.mem_cons.mp member with rfl | member
              · exact ⟨memory, List.mem_cons_self, rfl, _, _, grows⟩
              · exact inRest member

theorem lookup_growMemories_eq_none {extents : Extents} {memories : List Memory} {index : Nat}
    (other : index ∉ memories.map Memory.index) :
    (growMemories extents memories).1.lookup index = none := by
  rw [List.lookup_eq_none_iff]
  intro entry member
  obtain ⟨memory, isMemory, sameIndex, -⟩ := exists_of_mem_growMemories member
  rw [bne_iff_ne]
  rintro rfl
  exact other (sameIndex ▸ List.mem_map_of_mem isMemory)

/-- Growing without a failure gives every memory the form that it needs. -/
theorem growMemories_fitted {extents : Extents} {memories : List Memory}
    (distinct : (memories.map Memory.index).Nodup)
    (succeeded : (growMemories extents memories).2.2 = none) :
    ∀ memory ∈ memories, Fitted extents memory
      (((growMemories extents memories).1.lookup memory.index).getD memory.form) := by
  induction memories with
  | nil => simp
  | cons memory rest ih =>
      rw [List.map_cons, List.nodup_cons] at distinct
      obtain ⟨notInRest, distinctRest⟩ := distinct
      cases found : extents.lookup memory.index with
      | none =>
          simp only [growMemories, found] at succeeded ⊢
          refine List.forall_mem_cons.mpr ⟨?_, ih distinctRest succeeded⟩
          simp [Fitted, found, lookup_growMemories_eq_none notInRest]
      | some extent =>
          cases grows : memory.grow (pagesFor extent) with
          | error fault => simp [growMemories, found, grows] at succeeded
          | ok result =>
              simp only [growMemories, found, grows] at succeeded ⊢
              refine List.forall_mem_cons.mpr ⟨?_, fun other member => ?_⟩
              · simp only [List.lookup_cons_self, Option.getD_some, Fitted, found]
                exact ⟨result.2, grows⟩
              · have different : (other.index == memory.index) = false := by
                  rw [beq_eq_false_iff_ne]
                  intro same
                  exact notInRest (same ▸ List.mem_map_of_mem member)
                simp only [List.lookup_cons, different]
                exact ih distinctRest succeeded other member

/-- Growing memories that fit already does not fail. -/
theorem growMemories_of_fitted {extents : Extents} {memories : List Memory}
    (fitted : ∀ memory ∈ memories, Fitted extents memory memory.form) :
    (growMemories extents memories).2.2 = none := by
  induction memories with
  | nil => rfl
  | cons memory rest ih =>
      obtain ⟨fits, fitsRest⟩ := List.forall_mem_cons.mp fitted
      unfold Fitted at fits
      cases found : extents.lookup memory.index with
      | none =>
          simp only [growMemories, found]
          exact ih fitsRest
      | some extent =>
          rw [found] at fits
          obtain ⟨event?, grows⟩ := fits
          simp only [growMemories, found, grows]
          exact ih fitsRest

/-! ## Sized modules -/

namespace Module

theorem memories_nodup (module : Tree) : ((memories module).map Memory.index).Nodup := by
  have indices : (memories module).map Memory.index =
      (indexSpace module "memory").zipIdx.map Prod.snd := by
    simp [memories, Memory.ofForm, Function.comp_def]
  rw [indices, List.zipIdx_map_snd]
  exact List.nodup_range'

theorem mem_memories_iff {module : Tree} {memory : Memory} :
    memory ∈ memories module ↔ ∃ index declaration,
      (indexSpace module "memory")[index]? = some declaration ∧
        memory = Memory.ofForm index declaration.form := by
  simp only [memories, List.mem_map, Prod.exists, List.mk_mem_zipIdx_iff_getElem?]
  constructor
  · rintro ⟨declaration, index, found, rfl⟩
    exact ⟨index, declaration, found, rfl⟩
  · rintro ⟨index, declaration, found, rfl⟩
    exact ⟨declaration, index, found, rfl⟩

theorem exists_of_mem_indexSpace {module : Tree} {kind : String} {declaration : Declaration}
    (member : declaration ∈ indexSpace module kind) :
    ∃ item ∈ module.items, declaration? kind item = some declaration := by
  simp only [indexSpace, List.mem_append, List.mem_filter, declarations, List.mem_filterMap] at member
  rcases member with ⟨⟨item, inModule, declares⟩, -⟩ | ⟨⟨item, inModule, declares⟩, -⟩
  · exact ⟨item, inModule, declares⟩
  · exact ⟨item, inModule, declares⟩

theorem tag_of_indexSpace {module : Tree} {kind : String} {index : Nat} {declaration : Declaration}
    (found : (indexSpace module kind)[index]? = some declaration) :
    declaration.form.tag? = some kind := by
  obtain ⟨item, -, declares⟩ := exists_of_mem_indexSpace (List.mem_of_getElem? found)
  exact tag_of_declaration? declares

theorem filter_data_forms (module : Tree) :
    module.forms.filter (·.hasTag "data") = module.items.filter (·.hasTag "data") := by
  rw [Tree.forms, List.filter_filter]
  refine List.filter_congr fun item _ => ?_
  cases item <;> simp [Tree.isList, Tree.hasTag, Tree.tag?]

/-- What is measured depends only on the data forms in their order. -/
theorem measureForms_of_same_data {module module' : Tree}
    (sameData : module'.items.filter (·.hasTag "data") = module.items.filter (·.hasTag "data"))
    (memories : List Memory) (extents : Extents) :
    measureForms memories extents module'.forms = measureForms memories extents module.forms := by
  rw [← measureForms_filter, filter_data_forms, sameData, ← filter_data_forms,
    measureForms_filter]

/-- A module whose memories have the sizes that its data needs. -/
def Sized (module : Tree) : Prop :=
  ∃ extents events, measureForms (memories module) [] module.forms = (.ok extents, events) ∧
    ∀ memory ∈ memories module, Fitted extents memory memory.form

/-- Whether a module stays sized depends only on its memories and data forms. -/
theorem Sized.of_same {module module' : Tree} (sized : Sized module)
    (sameMemories : indexSpace module' "memory" = indexSpace module "memory")
    (sameData : module'.items.filter (·.hasTag "data") = module.items.filter (·.hasTag "data")) :
    Sized module' := by
  have memories_eq : memories module' = memories module := by simp only [memories, sameMemories]
  obtain ⟨extents, events, measured, fitted⟩ := sized
  refine ⟨extents, events, ?_, memories_eq ▸ fitted⟩
  rw [memories_eq, measureForms_of_same_data sameData, measured]

/-- The change that sizing makes, if growing gave some forms. -/
def grownForm (grown : List (Nat × Tree)) (index : Nat) (form : Tree) : Tree :=
  (grown.lookup index).getD form

/-- A sizing that does not fail measures the data and fits the memories. -/
theorem sizeMemories_cases {module : Tree} (succeeded : (sizeMemories module).failure = none) :
    ∃ extents events grown,
      measureForms (memories module) [] module.forms = (.ok extents, events) ∧
        (∀ memory ∈ memories module,
          Fitted extents memory (grownForm grown memory.index memory.form)) ∧
        (sizeMemories module).module = mapIndexSpace module "memory" (grownForm grown) := by
  unfold sizeMemories at succeeded ⊢
  cases measured : measureForms (memories module) [] module.forms with
  | mk result events =>
      cases result with
      | error fault => simp [measured] at succeeded
      | ok extents =>
          simp only [measured] at succeeded ⊢
          exact ⟨extents, events, (growMemories extents (memories module)).1, rfl,
            growMemories_fitted (memories_nodup module) succeeded, rfl⟩

/-- Sizing a sized module leaves it as it is. -/
theorem sizeMemories_of_sized {items : List Tree} (sized : Sized (.list items)) :
    (sizeMemories (.list items)).module = .list items ∧
      (sizeMemories (.list items)).failure = none := by
  obtain ⟨extents, events, measured, fitted⟩ := sized
  have succeeded : (sizeMemories (.list items)).failure = none := by
    simp only [sizeMemories, measured]
    exact growMemories_of_fitted fitted
  obtain ⟨extents', events', grown, measured', fitted', module_eq⟩ := sizeMemories_cases succeeded
  rw [measured] at measured'
  cases measured'
  have changed : List.Forall₂ (ChangedItem "memory" (grownForm grown) fun index declaration =>
      (indexSpace (.list items) "memory")[index]? = some declaration)
      items (mapIndexSpace (.list items) "memory" (grownForm grown)).items :=
    mapIndexSpace_forall₂ (.list items)
  have unchanged : List.Forall₂ (· = ·) items
      (mapIndexSpace (.list items) "memory" (grownForm grown)).items := by
    refine changed.imp ?_
    rintro item item' (⟨-, rfl⟩ | ⟨index, declaration, declares, found, rfl⟩)
    · rfl
    · have member := mem_memories_iff.mpr ⟨index, declaration, found, rfl⟩
      have same := (fitted' _ member).unique (fitted _ member)
      simp only [Memory.ofForm] at same
      rw [same, replaceDeclaration_self declares]
  rw [List.forall₂_eq_eq_eq] at unchanged
  exact ⟨module_eq.trans (congrArg Tree.list unchanged.symm), succeeded⟩

theorem fitted_cases {extents : Extents} {memory : Memory} {form : Tree}
    (tagged : memory.form.tag? = some "memory") (fitted : Fitted extents memory form) :
    form = memory.form ∨ ∃ pages, Memory.Raised pages memory.form form := by
  unfold Fitted at fitted
  split at fitted
  · exact .inl fitted
  · obtain ⟨event?, grows⟩ := fitted
    exact (Memory.grow_cases tagged grows).imp id fun raised => ⟨_, raised⟩

theorem getElem?_memories (module : Tree) (index : Nat) :
    (memories module)[index]? =
      (indexSpace module "memory")[index]?.map fun declaration =>
        Memory.ofForm index declaration.form := by
  simp [memories, Function.comp_def]

section Sizing

variable {module : Tree} {extents : Extents} {grown : List (Nat × Tree)}

/-- Sizing gives every memory declaration its own form or one with a raised
minimum. -/
theorem grownForm_cases
    (fitted : ∀ memory ∈ memories module,
      Fitted extents memory (grownForm grown memory.index memory.form))
    {index : Nat} {declaration : Declaration}
    (found : (indexSpace module "memory")[index]? = some declaration) :
    grownForm grown index declaration.form = declaration.form ∨
      ∃ pages, Memory.Raised pages declaration.form (grownForm grown index declaration.form) :=
  fitted_cases (tag_of_indexSpace found)
    (fitted _ (mem_memories_iff.mpr ⟨index, declaration, found, rfl⟩))

theorem sameDeclaration_grownForm
    (fitted : ∀ memory ∈ memories module,
      Fitted extents memory (grownForm grown memory.index memory.form))
    {index : Nat} {declaration : Declaration}
    (found : (indexSpace module "memory")[index]? = some declaration) :
    SameDeclaration declaration.form (grownForm grown index declaration.form) := by
  rcases grownForm_cases fitted found with same | ⟨pages, raised⟩
  · rw [same]
    exact ⟨rfl, rfl⟩
  · exact raised.sameDeclaration

theorem getElem?_memories_sized
    (fitted : ∀ memory ∈ memories module,
      Fitted extents memory (grownForm grown memory.index memory.form)) (index : Nat) :
    (memories (mapIndexSpace module "memory" (grownForm grown)))[index]? =
      (indexSpace module "memory")[index]?.map fun declaration =>
        Memory.ofForm index (grownForm grown index declaration.form) := by
  rw [getElem?_memories,
    indexSpace_mapIndexSpace fun _ _ found => sameDeclaration_grownForm fitted found,
    List.getElem?_mapIdx, Option.map_map]
  rfl

/-- Sizing keeps the names and indices of memories. -/
theorem keys_sized
    (fitted : ∀ memory ∈ memories module,
      Fitted extents memory (grownForm grown memory.index memory.form)) :
    (memories (mapIndexSpace module "memory" (grownForm grown))).map Memory.key =
      (memories module).map Memory.key := by
  refine List.ext_getElem? fun index => ?_
  rw [List.getElem?_map, List.getElem?_map, getElem?_memories_sized fitted, getElem?_memories]
  cases found : (indexSpace module "memory")[index]? with
  | none => rfl
  | some declaration =>
      have sameName : (grownForm grown index declaration.form).identifier? =
          declaration.form.identifier? := by
        rcases grownForm_cases fitted found with same | ⟨pages, raised⟩
        · rw [same]
        · exact raised.identifier?
      simp [Memory.key, Memory.ofForm, sameName]

end Sizing

/-- A module is sized once its memories were sized without a failure. -/
theorem sized_sizeMemories {module : Tree} (succeeded : (sizeMemories module).failure = none) :
    Sized (sizeMemories module).module := by
  obtain ⟨extents, events, grown, measured, fitted, module_eq⟩ := sizeMemories_cases succeeded
  rw [module_eq]
  refine ⟨extents, events, ?_, fun memory member => ?_⟩
  · have sameData := filter_mapIndexSpace (by decide : "data" ≠ "import") (by decide)
      fun _ _ found => sameDeclaration_grownForm fitted found
    rw [measureForms_congr (keys_sized fitted), measureForms_of_same_data sameData, measured]
  · obtain ⟨index, found'⟩ := List.mem_iff_getElem?.mp member
    rw [getElem?_memories_sized fitted, Option.map_eq_some_iff] at found'
    obtain ⟨declaration, found, rfl⟩ := found'
    have fits := fitted _ (mem_memories_iff.mpr ⟨index, declaration, found, rfl⟩)
    have tagged := tag_of_indexSpace found
    unfold Fitted at fits ⊢
    simp only [Memory.ofForm] at fits ⊢
    split at fits
    · trivial
    · obtain ⟨event?, grows⟩ := fits
      exact Memory.grow_again tagged grows

end Module

end WatLink
