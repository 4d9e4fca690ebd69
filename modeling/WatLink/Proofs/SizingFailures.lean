import WatLink.Proofs.MemoryMinimums
import WatLink.Proofs.NumberLimits
import WatLink.Proofs.PassFailures
import WatLink.Proofs.StringEscapes

/-!
# Where sizing stops

Sizing looks at the active segments in textual order first, and then at the
memories in the order of their indices; the first thing that is wrong decides the
error.  A faulty segment leaves the module as it is.  A memory that cannot grow
leaves those before it grown, as they would be without it.
-/

namespace WatLink

/-! ## The first fault -/

section FirstFault

variable {α ε : Type} {fails : α → ε → Prop} {thing : α} {rest : List α} {error : ε}

/-- The error of the first of some things that fails. -/
def FirstFault (fails : α → ε → Prop) (things : List α) (error : ε) : Prop :=
  ∃ before thing after, things = before ++ thing :: after ∧
    (∀ other ∈ before, ∀ error', ¬ fails other error') ∧ fails thing error

theorem firstFault_nil : ¬ FirstFault fails [] error := by
  rintro ⟨before, thing, after, split, -⟩
  simp at split

theorem firstFault_cons :
    FirstFault fails (thing :: rest) error ↔
      fails thing error ∨ (∀ error', ¬ fails thing error') ∧ FirstFault fails rest error := by
  constructor
  · rintro ⟨before, other, after, split, passed, failed⟩
    cases before with
    | nil =>
        obtain ⟨rfl, rfl⟩ := List.cons.inj split
        exact .inl failed
    | cons first before =>
        obtain ⟨rfl, rfl⟩ := List.cons.inj split
        obtain ⟨firstPassed, passed⟩ := List.forall_mem_cons.mp passed
        exact .inr ⟨firstPassed, before, other, after, rfl, passed, failed⟩
  · rintro (failed | ⟨firstPassed, before, other, after, rfl, passed, failed⟩)
    · exact ⟨[], thing, rest, rfl, by simp, failed⟩
    · exact ⟨thing :: before, other, after, rfl,
        List.forall_mem_cons.mpr ⟨firstPassed, passed⟩, failed⟩

theorem forall_not_firstFault_iff {things : List α} :
    (∀ error, ¬ FirstFault fails things error) ↔ ∀ thing ∈ things, ∀ error, ¬ fails thing error := by
  induction things with
  | nil => simp [firstFault_nil]
  | cons thing rest ih =>
      rw [List.forall_mem_cons, ← ih]
      constructor
      · intro none
        have firstPassed : ∀ error, ¬ fails thing error := fun error failed =>
          none error (firstFault_cons.mpr (.inl failed))
        exact ⟨firstPassed, fun error later =>
          none error (firstFault_cons.mpr (.inr ⟨firstPassed, later⟩))⟩
      · rintro ⟨firstPassed, none⟩ error first
        rcases firstFault_cons.mp first with failed | ⟨-, later⟩
        · exact firstPassed error failed
        · exact none error later

theorem firstFault_congr {fails' : α → ε → Prop} {things : List α}
    (same : ∀ thing ∈ things, ∀ error, fails thing error ↔ fails' thing error) :
    FirstFault fails things error ↔ FirstFault fails' things error := by
  induction things with
  | nil => simp [firstFault_nil]
  | cons thing rest ih =>
      obtain ⟨sameFirst, sameRest⟩ := List.forall_mem_cons.mp same
      simp only [firstFault_cons, sameFirst, ih sameRest]

end FirstFault

/-! ## Numbers -/

/-- A tree whose integer literals have no more decimal digits than can be read and
written. -/
def WithinDigitLimit (tree : Tree) : Prop :=
  ∀ text literal, .atom text ∈ tree.subtrees → IntLiteral.ofText? text = some literal →
    literal.isTooLong = false ∧ literal.value.natAbs < 10 ^ digitLimit

instance (tree : Tree) : Decidable (WithinDigitLimit tree) :=
  decidable_of_iff (∀ item ∈ tree.subtrees, ∀ text ∈ item.text?, ∀ literal ∈ IntLiteral.ofText? text,
    literal.isTooLong = false ∧ literal.value.natAbs < 10 ^ digitLimit) <| by
    constructor
    · intro within text literal inside isLiteral
      exact within _ inside text rfl literal isLiteral
    · intro within item inside text isText literal isLiteral
      cases item with
      | atom other =>
          cases isText
          exact within text literal inside isLiteral
      | list items => cases isText

theorem WithinDigitLimit.below {tree part : Tree} (within : WithinDigitLimit tree)
    (inside : part ∈ tree.subtrees) : WithinDigitLimit part :=
  fun text literal member => within text literal (Tree.mem_subtrees_trans member inside)

theorem WithinDigitLimit.parseInt {tree : Tree} {text : String} {literal : IntLiteral}
    (within : WithinDigitLimit tree) (inside : .atom text ∈ tree.subtrees)
    (isLiteral : IntLiteral.ofText? text = some literal) : parseInt text = .ok literal.value := by
  simp [WatLink.parseInt, isLiteral, (within text literal inside isLiteral).1]

theorem WithinDigitLimit.not_unread {tree : Tree} {text : String} {fault : NumeralFault}
    (within : WithinDigitLimit tree) (inside : .atom text ∈ tree.subtrees)
    (isLiteral : isIntLiteral text = true) : WatLink.parseInt text ≠ .error fault := by
  obtain ⟨literal, reads⟩ := Option.isSome_iff_exists.mp isLiteral
  simp [within.parseInt inside reads]

/-! ## Faulty segments -/

/-- A string literal with a malformed escape, behind a front that can be read. -/
def MalformedEscape (text : String) (fault : EscapeFault) : Prop :=
  ∃ front rest length, unquoted? text = some (String.ofList (front ++ rest)) ∧
    StringLiteral.Denotes front length ∧ StringLiteral.Malformed rest fault

theorem malformedEscape_iff {text : String} {fault : EscapeFault} :
    MalformedEscape text fault ↔
      ∃ body, unquoted? text = some body ∧ StringLiteral.byteLength body = .error fault := by
  constructor
  · rintro ⟨front, rest, length, isLiteral, denotes, malformed⟩
    exact ⟨_, isLiteral, StringLiteral.byteLength_eq_error_iff.mpr
      ⟨front, rest, length, String.toList_ofList, denotes, malformed⟩⟩
  · rintro ⟨body, isLiteral, failed⟩
    obtain ⟨front, rest, length, split, denotes, malformed⟩ :=
      StringLiteral.byteLength_eq_error_iff.mp failed
    refine ⟨front, rest, length, ?_, denotes, malformed⟩
    rw [← split, String.ofList_toList]
    exact isLiteral

/-- The lengths of string literals are known unless one has a malformed escape, and
the first of them decides. -/
theorem literalsLength_eq_error_iff {texts : List String} {fault : EscapeFault} :
    literalsLength texts = .error fault ↔ FirstFault MalformedEscape texts fault := by
  induction texts with
  | nil => simp [literalsLength, firstFault_nil]
  | cons text rest ih =>
      rw [firstFault_cons, ← ih]
      simp only [malformedEscape_iff, literalsLength]
      cases isLiteral : unquoted? text with
      | none => simp
      | some body =>
          cases counted : StringLiteral.byteLength body with
          | error fault' => simp [counted]
          | ok length => simp [counted, exceptMap_eq_error_iff]

namespace Segment

/-- Whether a form is an active data segment: it names a memory or has an offset. -/
def IsActive (form : Tree) : Prop :=
  form.hasTag "data" = true ∧
    ((form.find? ["memory"]).isSome = true ∨ (offsetExpression? form).isSome = true)

/-- The memory that a data form refers to: the first one, unless it has a memory
use. -/
inductive RefersTo (form : Tree) : String → Prop
  | default : form.find? ["memory"] = none → RefersTo form "0"
  | use {reference : String} :
      form.find? ["memory"] = some (.form "memory" [.atom reference]) → RefersTo form reference

/-- A memory reference that names a declared memory, by its identifier or by its
index. -/
def Declared (memories : List Memory) (reference : String) : Prop :=
  (isIdentifier reference = true ∧ ∃ memory ∈ memories, memory.name = some reference) ∨
    ∃ literal, IntLiteral.ofText? reference = some literal ∧ 0 ≤ literal.value ∧
      literal.value < memories.length

/-- The error of a data form, among some memories.  The memory use is looked at
first, then the string literals, then what the memory use refers to. -/
inductive Defect (memories : List Memory) (form : Tree) : LinkError → Prop
  | memoryUse {use : Tree} : form.find? ["memory"] = some use →
      (∀ reference, use ≠ .form "memory" [.atom reference]) →
        Defect memories form (.malformedForm .memoryUse form)
  | escape {reference : String} {fault : EscapeFault} : RefersTo form reference →
      FirstFault MalformedEscape form.atoms fault → fault ≠ .negativeBeyondWord →
        Defect memories form (.malformedForm (.stringLiteral fault) form)
  | escapeBeyondWord {reference : String} : RefersTo form reference →
      FirstFault MalformedEscape form.atoms .negativeBeyondWord →
        Defect memories form .escapeBeyondWord
  | undeclared {reference : String} : RefersTo form reference →
      (∀ text ∈ form.atoms, ∀ fault, ¬ MalformedEscape text fault) →
        ¬ Declared memories reference → Defect memories form (.undeclaredMemory reference)

/-- The error of a form that is an active data segment. -/
def Fault (memories : List Memory) (form : Tree) (error : LinkError) : Prop :=
  IsActive form ∧ Defect memories form error

theorem exists_of_find?_memory {form use : Tree} (found : form.find? ["memory"] = some use) :
    ∃ items, use = .form "memory" items := by
  rw [Tree.find?] at found
  have tagged := List.find?_some found
  rw [Module.hasTagIn_singleton, Tree.hasTag, beq_iff_eq] at tagged
  exact Tree.exists_of_tag? tagged

theorem memoryReference_eq_ok_iff {form : Tree} {reference : String} :
    memoryReference form (form.find? ["memory"]) = .ok reference ↔ RefersTo form reference := by
  constructor
  · intro refers
    cases found : form.find? ["memory"] with
    | none =>
        rw [found] at refers
        cases refers
        exact .default found
    | some use =>
        obtain ⟨items, rfl⟩ := exists_of_find?_memory found
        rw [found] at refers
        unfold memoryReference at refers
        split at refers
        · rename_i missing
          cases missing
        · rename_i isUse
          cases isUse
          cases refers
          exact .use found
        · cases refers
  · rintro (missing | found)
    · rw [missing]
      rfl
    · rw [found]
      rfl

theorem memoryReference_eq_error_iff {form : Tree} {error : LinkError} :
    memoryReference form (form.find? ["memory"]) = .error error ↔
      error = .malformedForm .memoryUse form ∧
        ∃ use, form.find? ["memory"] = some use ∧ ∀ reference, use ≠ .form "memory" [.atom reference] := by
  constructor
  · intro malformed
    cases found : form.find? ["memory"] with
    | none =>
        rw [found] at malformed
        cases malformed
    | some use =>
        rw [found] at malformed
        unfold memoryReference at malformed
        split at malformed
        · cases malformed
        · cases malformed
        · rename_i noReference isUse
          cases isUse
          cases malformed
          refine ⟨rfl, use, rfl, ?_⟩
          rintro reference rfl
          exact noReference _ _ rfl
  · rintro ⟨rfl, use, found, noReference⟩
    obtain ⟨items, rfl⟩ := exists_of_find?_memory found
    rw [found]
    unfold memoryReference
    split
    · rename_i missing
      cases missing
    · rename_i isUse
      cases isUse
      exact absurd rfl (noReference _)
    · rfl

theorem segmentSize_eq_error_iff {form : Tree} {error : LinkError} :
    segmentSize form = .error error ↔
      (FirstFault MalformedEscape form.atoms .negativeBeyondWord ∧ error = .escapeBeyondWord) ∨
        ∃ fault, FirstFault MalformedEscape form.atoms fault ∧ fault ≠ .negativeBeyondWord ∧
          error = .malformedForm (.stringLiteral fault) form := by
  simp only [← literalsLength_eq_error_iff]
  cases measured : literalsLength form.atoms with
  | ok size => simp [segmentSize, measured]
  | error fault => cases fault <;> simp [segmentSize, measured, eq_comm]

theorem exists_segmentSize_iff {form : Tree} :
    (∃ size, segmentSize form = .ok size) ↔
      ∀ text ∈ form.atoms, ∀ fault, ¬ MalformedEscape text fault := by
  simp only [← forall_not_firstFault_iff, ← literalsLength_eq_error_iff]
  cases measured : literalsLength form.atoms with
  | ok size => simp [segmentSize, measured]
  | error fault => cases fault <;> simp [segmentSize, measured]

theorem RefersTo.eq_zero_or_mem {form : Tree} {reference : String} (refers : RefersTo form reference) :
    reference = "0" ∨ .atom reference ∈ form.subtrees := by
  cases refers with
  | default _ => exact .inl rfl
  | use found =>
      refine .inr (Tree.mem_subtrees_trans ?_
        (Tree.mem_subtrees_of_mem_items (Tree.mem_items_of_find? found)))
      exact Tree.mem_subtrees_of_mem_items (by simp [Tree.form, Tree.items])

theorem findMemory_eq_error_iff {memories : List Memory} {form : Tree} {reference : String}
    {error : LinkError} (within : WithinDigitLimit form) (refers : RefersTo form reference) :
    findMemory memories reference = .error error ↔
      ¬ Declared memories reference ∧ error = .undeclaredMemory reference := by
  unfold findMemory
  by_cases named : isIdentifier reference = true
  · have noNumber : IntLiteral.ofText? reference = none := by
      cases reads : IntLiteral.ofText? reference with
      | none => rfl
      | some literal =>
          have isLiteral : isIntLiteral reference = true := by simp [isIntLiteral, reads]
          rw [isIdentifier_of_isIntLiteral isLiteral] at named
          cases named
    have isDeclared : Declared memories reference ↔
        (memories.find? (·.name == some reference)).isSome = true := by
      simp [Declared, named, noNumber]
    rw [if_pos named, isDeclared]
    cases memories.find? (·.name == some reference) <;> simp [eq_comm]
  · rw [if_neg named]
    cases reads : IntLiteral.ofText? reference with
    | none => simp [isIntLiteral, Declared, named, reads, eq_comm]
    | some literal =>
        have parsed : parseInt reference = .ok literal.value := by
          rcases refers.eq_zero_or_mem with rfl | inside
          · cases reads
            rfl
          · exact within.parseInt inside reads
        have isDeclared : Declared memories reference ↔
            0 ≤ literal.value ∧ literal.value.toNat < memories.length := by
          simp only [Declared, named, reads, Option.some.injEq, exists_eq_left', false_and, false_or,
            Bool.false_eq_true]
          omega
        rw [if_pos (by simp [isIntLiteral, reads]), isDeclared]
        simp only [parsed]
        by_cases negative : literal.value < 0
        · simp [negative, eq_comm]
        · rw [if_neg negative]
          cases found : memories[literal.value.toNat]? with
          | none => simp [List.getElem?_eq_none_iff.mp found, eq_comm]
          | some memory =>
              obtain ⟨bound, -⟩ := List.getElem?_eq_some_iff.mp found
              simp [bound, not_lt.mp negative]

theorem ofForm?_of_not_isActive {form : Tree} (passive : ¬ IsActive form) :
    Segment.ofForm? form = .ok none := by
  unfold Segment.ofForm?
  by_cases isData : form.hasTag "data" = true
  · rw [if_pos isData]
    cases used : form.find? ["memory"] with
    | some use => exact absurd ⟨isData, .inl (by simp [used])⟩ passive
    | none =>
        cases expression : offsetExpression? form with
        | some offset => exact absurd ⟨isData, .inr (by simp [expression])⟩ passive
        | none => rfl
  · rw [if_neg isData]

/-- The offset of an active data form can be read, so only its memory use and its
string literals are in the way of a segment. -/
theorem ofForm?_of_isActive {form : Tree} (within : WithinDigitLimit form) (active : IsActive form) :
    ∃ offset, Segment.ofForm? form = (do
      let memory ← memoryReference form (form.find? ["memory"])
      let size ← segmentSize form
      .ok (some ⟨form, memory, offset, size⟩)) := by
  obtain ⟨isData, used⟩ := active
  unfold Segment.ofForm?
  rw [if_pos isData]
  cases expression : offsetExpression? form with
  | none =>
      refine ⟨some 0, ?_⟩
      cases found : form.find? ["memory"] with
      | none => simp [expression, found] at used
      | some use => rfl
  | some offset =>
      cases reads : constantOffset offset with
      | ok address => exact ⟨address, by simp [reads, Except.mapError, bind, Except.bind]⟩
      | error fault =>
          obtain ⟨text, inside, isLiteral, unread⟩ := exists_of_constantOffset reads
          refine absurd unread (within.not_unread (Tree.mem_subtrees_trans inside ?_) isLiteral)
          exact Tree.mem_subtrees_of_mem_items (mem_items_of_offsetExpression? expression)

theorem measureForm_eq_error_of_isActive {memories : List Memory} {extents : Extents} {form : Tree}
    {error : LinkError} (within : WithinDigitLimit form) (active : IsActive form) :
    measureForm memories extents form = .error error ↔
      memoryReference form (form.find? ["memory"]) = .error error ∨
        ∃ reference, memoryReference form (form.find? ["memory"]) = .ok reference ∧
          (segmentSize form = .error error ∨
            (∃ size, segmentSize form = .ok size) ∧ findMemory memories reference = .error error) := by
  obtain ⟨offset, isSegment⟩ := ofForm?_of_isActive within active
  unfold measureForm
  rw [isSegment]
  cases memoryReference form (form.find? ["memory"]) with
  | error fault => simp [bind, Except.bind]
  | ok reference =>
      cases segmentSize form with
      | error fault => simp [bind, Except.bind]
      | ok size =>
          cases found : findMemory memories reference with
          | error fault => simp [bind, Except.bind, found]
          | ok memory => cases offset <;> simp [bind, Except.bind, found]

/-- A form stops the measuring exactly if it is a faulty segment. -/
theorem measureForm_eq_error_iff {memories : List Memory} {extents : Extents} {form : Tree}
    {error : LinkError} (within : WithinDigitLimit form) :
    measureForm memories extents form = .error error ↔ Fault memories form error := by
  by_cases active : IsActive form
  · rw [measureForm_eq_error_of_isActive within active, memoryReference_eq_error_iff,
      segmentSize_eq_error_iff, exists_segmentSize_iff]
    simp only [memoryReference_eq_ok_iff]
    constructor
    · rintro (⟨rfl, use, found, noReference⟩ | ⟨reference, refers, inside | ⟨readable, missing⟩⟩)
      · exact ⟨active, .memoryUse found noReference⟩
      · rcases inside with ⟨first, rfl⟩ | ⟨fault, first, notLarge, rfl⟩
        · exact ⟨active, .escapeBeyondWord refers first⟩
        · exact ⟨active, .escape refers first notLarge⟩
      · obtain ⟨undeclared, rfl⟩ := (findMemory_eq_error_iff within refers).mp missing
        exact ⟨active, .undeclared refers readable undeclared⟩
    · rintro ⟨-, defect⟩
      cases defect with
      | memoryUse found noReference => exact .inl ⟨rfl, _, found, noReference⟩
      | escape refers first notLarge =>
          exact .inr ⟨_, refers, .inl (.inr ⟨_, first, notLarge, rfl⟩)⟩
      | escapeBeyondWord refers first => exact .inr ⟨_, refers, .inl (.inl ⟨first, rfl⟩)⟩
      | undeclared refers readable undeclared =>
          exact .inr ⟨_, refers, .inr ⟨readable,
            (findMemory_eq_error_iff within refers).mpr ⟨undeclared, rfl⟩⟩⟩
  · simp [measureForm, ofForm?_of_not_isActive active, Fault, active]

end Segment

/-- Measuring stops at the first faulty segment. -/
theorem measureForms_eq_error_iff {memories : List Memory} {extents : Extents} {forms : List Tree}
    {error : LinkError} (within : ∀ form ∈ forms, WithinDigitLimit form) :
    (measureForms memories extents forms).1 = .error error ↔
      FirstFault (Segment.Fault memories) forms error := by
  induction forms generalizing extents with
  | nil => simp [measureForms, firstFault_nil]
  | cons form rest ih =>
      obtain ⟨withinForm, withinRest⟩ := List.forall_mem_cons.mp within
      have atForm : ∀ error, measureForm memories extents form = .error error ↔
          Segment.Fault memories form error :=
        fun error => Segment.measureForm_eq_error_iff withinForm
      rw [firstFault_cons]
      simp only [← atForm, measureForms]
      cases measureForm memories extents form with
      | error fault => simp
      | ok result => simp [ih withinRest]

/-! ## Memories that cannot grow -/

namespace Memory

/-- The error of a memory that a number of pages does not fit into: its minimum is
smaller, and a maximum is in the way or the number cannot be written. -/
def Blocked (memory : Memory) (pages : Nat) (error : LinkError) : Prop :=
  (∀ minimum ∈ (limitValues memory.form).head?, minimum < pages) ∧
    (10 ^ digitLimit ≤ pages ∧ error = .numeral .tooLongToWrite ∨
      pages < 10 ^ digitLimit ∧ ∃ maximum ∈ (limitValues memory.form).tail.head?, maximum < pages ∧
        error = .memoryLimit memory.label pages maximum)

theorem writePages_eq (number : Int) :
    writePages number =
      if 10 ^ digitLimit ≤ number.natAbs then .error (.numeral .tooLongToWrite)
      else .ok (decimalNumeral number) := by
  unfold writePages
  cases written : writeInt number with
  | error fault =>
      obtain ⟨rfl, large⟩ := writeInt_eq_error_iff.mp written
      rw [if_pos large]
      rfl
  | ok text =>
      have small : ¬ 10 ^ digitLimit ≤ number.natAbs := by
        intro large
        simp [writeInt_eq_error_iff.mpr ⟨rfl, large⟩] at written
      obtain ⟨rfl, -⟩ := parseInt_of_writeInt written
      rw [if_neg small]
      rfl

theorem bind_writePages_eq_error_iff {β : Type} {pages : Nat} {error : LinkError}
    (result : String → β) :
    (writePages pages >>= fun minimum => Except.ok (result minimum)) = .error error ↔
      10 ^ digitLimit ≤ pages ∧ error = .numeral .tooLongToWrite := by
  rw [exceptBind_eq_error_iff, writePages_eq, Int.natAbs_natCast]
  by_cases large : 10 ^ digitLimit ≤ pages
  · simp [large, eq_comm]
  · simp [large]

theorem limitError_eq (memory : Memory) (pages : Nat) {maximum : Int}
    (small : maximum.natAbs < 10 ^ digitLimit) :
    memory.limitError pages maximum =
      if 10 ^ digitLimit ≤ pages then .numeral .tooLongToWrite
      else .memoryLimit memory.label pages maximum := by
  unfold limitError
  rw [writePages_eq pages, writePages_eq maximum, if_neg (not_le.mpr small), Int.natAbs_natCast]
  by_cases large : 10 ^ digitLimit ≤ pages
  · rw [if_pos large, if_pos large]
  · rw [if_neg large, if_neg large]

/-- Growing fails exactly if the memory has no inline data and is blocked. -/
theorem grow_eq_error_iff {memory : Memory} {pages : Nat} {error : LinkError}
    (within : WithinDigitLimit memory.form) :
    memory.grow pages = .error error ↔
      memory.form.find? ["data"] = none ∧ Blocked memory pages error := by
  have values : limitValues memory.form = memory.limits.filterMap fun text =>
      (IntLiteral.ofText? text).map IntLiteral.value := filterMap_limitValue? _
  have reads : ∀ text ∈ memory.limits, ∃ literal, IntLiteral.ofText? text = some literal ∧
      readLimit text = .ok literal.value ∧ literal.value.natAbs < 10 ^ digitLimit := by
    intro text isLimit
    obtain ⟨inItems, isLiteral⟩ := mem_items_of_mem_limits isLimit
    obtain ⟨literal, isText⟩ := Option.isSome_iff_exists.mp isLiteral
    have inside := Tree.mem_subtrees_of_mem_items inItems
    exact ⟨literal, isText, by simp [readLimit, within.parseInt inside isText, Except.mapError],
      (within text literal inside isText).2⟩
  unfold Memory.grow Blocked
  cases memory.form.find? ["data"] with
  | some data => simp
  | none =>
      simp only [Option.isSome_none, Bool.false_eq_true, if_false, true_and]
      cases limits_eq : memory.limits with
      | nil =>
          rw [limits_eq] at values
          rw [bind_writePages_eq_error_iff, values]
          simp
      | cons minimum further =>
          obtain ⟨lower, isLower, readsLower, -⟩ := reads minimum (by simp [limits_eq])
          rw [limits_eq, List.filterMap_cons, isLower] at values
          simp only [values, readsLower, Option.map_some, List.head?_cons, Option.mem_some_iff,
            forall_eq', List.tail_cons]
          by_cases enough : (pages : Int) ≤ lower.value
          · simp [bind, Except.bind, enough, not_lt.mpr enough]
          · have raising : (writePages pages >>= fun text =>
                Except.ok (changeBehindTag (replaceMinimum text) memory.form,
                  some (Event.raisedMinimum memory.label lower.value pages))) = .error error ↔
                10 ^ digitLimit ≤ pages ∧ error = .numeral .tooLongToWrite :=
              bind_writePages_eq_error_iff _
            simp only [bind, Except.bind] at raising
            simp only [bind, Except.bind, enough, if_false, not_le.mp enough, true_and]
            cases further with
            | nil => simp [raising]
            | cons text rest =>
                obtain ⟨upper, isUpper, readsUpper, small⟩ := reads text (by simp [limits_eq])
                simp only [readsUpper, List.filterMap_cons, isUpper, Option.map_some,
                  List.head?_cons, Option.mem_some_iff, exists_eq_left']
                by_cases inTheWay : upper.value < pages
                · rw [if_pos inTheWay, limitError_eq memory pages small]
                  by_cases large : 10 ^ digitLimit ≤ pages
                  · simp [large, not_lt.mpr large, eq_comm]
                  · simp [large, not_le.mp large, inTheWay, eq_comm]
                · rw [if_neg inTheWay, raising]
                  simp [inTheWay]

end Memory

/-- The error of a memory that cannot grow to its extent. -/
def Outgrown (extents : Extents) (memory : Memory) (error : LinkError) : Prop :=
  ∃ extent, extents.lookup memory.index = some extent ∧
    memory.grow (pagesFor extent) = .error error

/-- Growing stops at the first memory that cannot grow. -/
theorem growMemories_eq_some_iff {extents : Extents} {memories : List Memory} {error : LinkError} :
    (growMemories extents memories).2.2 = some error ↔
      FirstFault (Outgrown extents) memories error := by
  induction memories with
  | nil => simp [growMemories, firstFault_nil]
  | cons memory rest ih =>
      rw [firstFault_cons]
      simp only [Outgrown, growMemories]
      cases found : extents.lookup memory.index with
      | none => simp [ih]
      | some extent =>
          cases grows : memory.grow (pagesFor extent) with
          | error fault => simp [grows]
          | ok result => simp [grows, ih]

theorem growMemories_append {extents : Extents} {before : List Memory}
    (passed : ∀ memory ∈ before, ∀ error, ¬ Outgrown extents memory error) (rest : List Memory) :
    (growMemories extents (before ++ rest)).1 =
      (growMemories extents before).1 ++ (growMemories extents rest).1 := by
  induction before with
  | nil => rfl
  | cons memory before ih =>
      obtain ⟨grows, passed⟩ := List.forall_mem_cons.mp passed
      have grown := ih passed
      rw [List.cons_append, growMemories, growMemories]
      cases found : extents.lookup memory.index with
      | none => simpa using grown
      | some extent =>
          cases result : memory.grow (pagesFor extent) with
          | error fault => exact absurd ⟨extent, found, result⟩ (grows fault)
          | ok form => simpa [result] using grown

/-- Whether an error is about a data segment. -/
def LinkError.OfSegment : LinkError → Prop
  | .malformedForm _ _ => True
  | .undeclaredMemory _ => True
  | .escapeBeyondWord => True
  | _ => False

namespace Module

open Memory

/-- The error of a memory of a module that its data forces beyond what it can grow
to. -/
def Stuck (module : Tree) (memory : Memory) (error : LinkError) : Prop :=
  memory.form.find? ["data"] = none ∧ (dataEnds module memory.index).Nonempty ∧
    ∃ pages, IsLeast {count | ∀ finish ∈ dataEnds module memory.index, finish ≤ count * pageSize}
      pages ∧ Blocked memory pages error

theorem outgrown_iff_stuck {module : Tree} {extents : Extents} {memory : Memory} {error : LinkError}
    (within : WithinDigitLimit memory.form)
    (isFurthest : Furthest (dataEnds module memory.index) (extents.lookup memory.index)) :
    Outgrown extents memory error ↔ Stuck module memory error := by
  unfold Outgrown Stuck
  cases found : extents.lookup memory.index with
  | none =>
      rw [found] at isFurthest
      have noEnds : dataEnds module memory.index = ∅ := isFurthest
      simp [noEnds]
  | some finish =>
      rw [found] at isFurthest
      have isGreatest : IsGreatest (dataEnds module memory.index) finish := isFurthest
      obtain ⟨pages, pages_eq, isLeast⟩ := isLeast_pagesFor isGreatest
      simp only [Option.some.injEq, exists_eq_left', pages_eq, grow_eq_error_iff within]
      constructor
      · rintro ⟨noData, blocked⟩
        exact ⟨noData, ⟨finish, isGreatest.1⟩, pages, isLeast, blocked⟩
      · rintro ⟨noData, -, pages', isLeast', blocked⟩
        obtain rfl := isLeast'.unique isLeast
        exact ⟨noData, blocked⟩

section Sizing

variable {module : Tree} {extents : Extents} {error : LinkError}

theorem sizeMemories_of_unmeasured
    (failed : (measureForms (memories module) [] module.forms).1 = .error error) :
    (sizeMemories module).failure = some error ∧ (sizeMemories module).module = module := by
  cases step : measureForms (memories module) [] module.forms with
  | mk result events =>
      rw [step] at failed
      obtain rfl : result = .error error := failed
      simp [sizeMemories, step]

theorem sizeMemories_of_measured
    (measured : (measureForms (memories module) [] module.forms).1 = .ok extents) :
    (sizeMemories module).failure = (growMemories extents (memories module)).2.2 ∧
      (sizeMemories module).module =
        mapIndexSpace module "memory" (grownForm (growMemories extents (memories module)).1) := by
  cases step : measureForms (memories module) [] module.forms with
  | mk result events =>
      rw [step] at measured
      obtain rfl : result = .ok extents := measured
      simp only [sizeMemories, step, true_and]
      rfl

theorem furthest_dataEnds
    (measured : (measureForms (memories module) [] module.forms).1 = .ok extents) (index : Nat) :
    Furthest (dataEnds module index) (extents.lookup index) := by
  have unmeasured : Furthest ∅ (List.lookup index ([] : Extents)) := rfl
  have behind := furthest_measureForms (Prod.ext measured rfl) unmeasured
  rwa [Set.empty_union] at behind

theorem unmeasured_iff_firstFault (within : WithinDigitLimit module) :
    (measureForms (memories module) [] module.forms).1 = .error error ↔
      FirstFault (Segment.Fault (memories module)) module.forms error := by
  refine measureForms_eq_error_iff fun form isForm => within.below ?_
  exact Tree.mem_subtrees_of_mem_items (List.mem_of_mem_filter isForm)

theorem outgrown_iff_stuck_of_mem (within : WithinDigitLimit module)
    (measured : (measureForms (memories module) [] module.forms).1 = .ok extents) :
    ∀ memory ∈ memories module, ∀ error,
      Outgrown extents memory error ↔ Stuck module memory error :=
  fun memory member _ => outgrown_iff_stuck (within.below (form_mem_subtrees_of_mem_memories member))
    (furthest_dataEnds measured memory.index)

theorem ofSegment_of_firstFault
    (first : FirstFault (Segment.Fault (memories module)) module.forms error) :
    error.OfSegment := by
  obtain ⟨-, form, -, -, -, -, defect⟩ := first
  cases defect <;> trivial

theorem not_ofSegment_of_stuck {things : List Memory} (first : FirstFault (Stuck module) things error) :
    ¬ error.OfSegment := by
  obtain ⟨-, memory, -, -, -, -, -, pages, -, -, ⟨-, rfl⟩ | ⟨-, maximum, -, -, rfl⟩⟩ := first
  · exact id
  · exact id

theorem index_of_getElem? {memory : Memory} {index : Nat}
    (found : (memories module)[index]? = some memory) : memory.index = index := by
  rw [getElem?_memories, Option.map_eq_some_iff] at found
  obtain ⟨declaration, -, rfl⟩ := found
  rfl

/-- The memories before one that is stuck are grown, and no others. -/
theorem resized_of_stuck (within : WithinDigitLimit module)
    (measured : (measureForms (memories module) [] module.forms).1 = .ok extents)
    {before after : List Memory} {memory : Memory}
    (split : memories module = before ++ memory :: after)
    (passed : ∀ lower ∈ before, ∀ error', ¬ Stuck module lower error')
    (stuck : Stuck module memory error) {index : Nat} {declaration : Declaration}
    (found : (indexSpace module "memory")[index]? = some declaration) :
    (index < memory.index →
        Resized (dataEnds module index) declaration.form
          (grownForm (growMemories extents (memories module)).1 index declaration.form)) ∧
      (memory.index ≤ index →
        grownForm (growMemories extents (memories module)).1 index declaration.form =
          declaration.form) := by
  have outgrown := outgrown_iff_stuck_of_mem within measured
  have passed' : ∀ lower ∈ before, ∀ error', ¬ Outgrown extents lower error' := by
    intro lower member error'
    rw [outgrown lower (by simp [split, member])]
    exact passed lower member error'
  have grown_eq : (growMemories extents (memories module)).1 = (growMemories extents before).1 := by
    obtain ⟨extent, hasExtent, notGrown⟩ := (outgrown memory (by simp [split]) error).mpr stuck
    rw [split, growMemories_append passed']
    simp [growMemories, hasExtent, notGrown]
  have stands : (memories module)[before.length]? = some memory := by simp [split]
  have place : memory.index = before.length := index_of_getElem? stands
  rw [grown_eq, place]
  constructor
  · intro lower
    have atIndex : (memories module)[index]? = some (ofForm index declaration.form) := by
      rw [getElem?_memories, found]
      rfl
    rw [split, List.getElem?_append_left lower] at atIndex
    have distinct : (before.map Memory.index).Nodup := by
      have all := memories_nodup module
      rw [split, List.map_append] at all
      exact all.of_append_left
    have succeeded : (growMemories extents before).2.2 = none := by
      rw [Option.eq_none_iff_forall_ne_some]
      intro error'
      rw [ne_eq, growMemories_eq_some_iff]
      exact forall_not_firstFault_iff.mpr passed' error'
    have fitted := growMemories_fitted distinct succeeded _ (List.mem_of_getElem? atIndex)
    exact resized_of_fitted (tag_of_indexSpace found) (furthest_dataEnds measured index) fitted
  · intro above
    have other : index ∉ before.map Memory.index := by
      intro member
      obtain ⟨lower, inBefore, rfl⟩ := List.mem_map.mp member
      obtain ⟨position, bound, atPosition⟩ := List.mem_iff_getElem.mp inBefore
      have stands : (memories module)[position]? = some lower := by
        rw [split, List.getElem?_append_left bound, List.getElem?_eq_getElem bound, atPosition]
      have isPosition : lower.index = position := index_of_getElem? stands
      omega
    simp [grownForm, lookup_growMemories_eq_none other]

end Sizing

/-- Within the limit of digits, sizing stops with the error of the first faulty
active segment and leaves the module as it is.  Without one it stops with the error
of the memory of lowest index that its data forces beyond what it can grow to, and
exactly the memories below it are grown. -/
theorem sizeMemories_stops_at_first_fault {module : Tree} (within : WithinDigitLimit module) :
    (∀ error, (sizeMemories module).failure = some error ∧ error.OfSegment ↔
      FirstFault (Segment.Fault (memories module)) module.forms error) ∧
    (∀ error, (sizeMemories module).failure = some error → error.OfSegment →
      (sizeMemories module).module = module) ∧
    (∀ error, (sizeMemories module).failure = some error ∧ ¬ error.OfSegment ↔
      (∀ form ∈ module.forms, ∀ error', ¬ Segment.Fault (memories module) form error') ∧
        FirstFault (Stuck module) (memories module) error) ∧
    ∀ before memory after error, memories module = before ++ memory :: after →
      (∀ form ∈ module.forms, ∀ error', ¬ Segment.Fault (memories module) form error') →
        (∀ lower ∈ before, ∀ error', ¬ Stuck module lower error') → Stuck module memory error →
          ∃ change, (sizeMemories module).module = mapIndexSpace module "memory" change ∧
            ∀ index declaration, (indexSpace module "memory")[index]? = some declaration →
              (index < memory.index →
                Resized (dataEnds module index) declaration.form (change index declaration.form)) ∧
              (memory.index ≤ index → change index declaration.form = declaration.form) := by
  cases measured : (measureForms (memories module) [] module.forms).1 with
  | error fault =>
      have first := (unmeasured_iff_firstFault within).mp measured
      have stopped := sizeMemories_of_unmeasured measured
      have faulty : ¬ ∀ form ∈ module.forms, ∀ error', ¬ Segment.Fault (memories module) form error' := by
        rw [← forall_not_firstFault_iff]
        exact fun none => none fault first
      refine ⟨fun error => ?_, fun _ _ _ => stopped.2, fun error => ?_,
        fun _ _ _ _ _ noFault => absurd noFault faulty⟩
      · rw [← unmeasured_iff_firstFault within, measured, stopped.1, Option.some.injEq,
          Except.error.injEq]
        refine and_iff_left_of_imp ?_
        rintro rfl
        exact ofSegment_of_firstFault first
      · rw [stopped.1, Option.some.injEq]
        constructor
        · rintro ⟨rfl, other⟩
          exact absurd (ofSegment_of_firstFault first) other
        · rintro ⟨noFault, -⟩
          exact absurd noFault faulty
  | ok extents =>
      obtain ⟨failure_eq, module_eq⟩ := sizeMemories_of_measured measured
      have noFault : ∀ error, ¬ FirstFault (Segment.Fault (memories module)) module.forms error := by
        intro error first
        rw [← unmeasured_iff_firstFault within, measured] at first
        cases first
      have stops : ∀ error, (sizeMemories module).failure = some error ↔
          FirstFault (Stuck module) (memories module) error := by
        intro error
        rw [failure_eq, growMemories_eq_some_iff]
        exact firstFault_congr (outgrown_iff_stuck_of_mem within measured)
      refine ⟨fun error => ?_, fun error failed about => ?_, fun error => ?_,
        fun before memory after error split _ passed stuck => ?_⟩
      · rw [stops]
        constructor
        · rintro ⟨first, about⟩
          exact absurd about (not_ofSegment_of_stuck first)
        · intro first
          exact absurd first (noFault error)
      · exact absurd about (not_ofSegment_of_stuck ((stops error).mp failed))
      · rw [stops, and_iff_right (forall_not_firstFault_iff.mp noFault)]
        exact and_iff_left_of_imp not_ofSegment_of_stuck
      · exact ⟨_, module_eq, fun index declaration found =>
          resized_of_stuck within measured split passed stuck found⟩

/-- A module whose data escapes a negative code point that no machine word holds. -/
def wideEscape : Tree :=
  .form "module" [.form "memory" [.atom "1"],
    .form "data" [.form "i32.const" [.atom "0"], .atom "\"\\u\x7b-80000001\x7d\""]]

/-- A module with data behind the first page of two memories, of which only one has
room to grow. -/
def crowded : Tree :=
  .form "module" [.form "memory" [.atom "$low", .atom "1"],
    .form "memory" [.atom "$high", .atom "0x1", .atom "1"],
    .form "data" [.form "memory" [.atom "$high"], .form "i32.const" [.atom "65536"], .atom "\"x\""],
    .form "data" [.form "i32.const" [.atom "65536"], .atom "\"x\""]]

theorem sizeMemories_wideEscape_and_crowded :
    WithinDigitLimit wideEscape ∧
      FirstFault (Segment.Fault (memories wideEscape)) wideEscape.forms .escapeBeyondWord ∧
      (sizeMemories wideEscape).failure = some .escapeBeyondWord ∧
      (sizeMemories wideEscape).module = wideEscape ∧
      WithinDigitLimit crowded ∧
      FirstFault (Stuck crowded) (memories crowded) (.memoryLimit "$high" 2 1) ∧
      (sizeMemories crowded).module =
        .form "module" (.form "memory" [.atom "$low", .atom "2"] :: crowded.items.drop 2) := by
  have within : WithinDigitLimit wideEscape := by decide +kernel
  have within' : WithinDigitLimit crowded := by decide +kernel
  have first : FirstFault (Segment.Fault (memories wideEscape)) wideEscape.forms
      .escapeBeyondWord := by
    have malformed : StringLiteral.Malformed
        ('\\' :: 'u' :: '\x7b' :: ("-80000001".toList ++ ['\x7d'])) .negativeBeyondWord :=
      .negativeBeyondWord (by decide) rfl (by decide)
    refine ⟨[.form "memory" [.atom "1"]], _, [], rfl, ?_, ⟨rfl, .inr rfl⟩,
      .escapeBeyondWord (.default rfl) ⟨[], _, [], rfl, by simp, [], _, 0, rfl, .nil, malformed⟩⟩
    intro form member error fault
    cases List.mem_singleton.mp member
    cases fault.1.1
  obtain ⟨ofSegment, unchanged, -, -⟩ := sizeMemories_stops_at_first_fault within
  obtain ⟨-, -, ofMemory, -⟩ := sizeMemories_stops_at_first_fault within'
  obtain ⟨failed, about⟩ := (ofSegment _).mpr first
  have failed' : (sizeMemories crowded).failure = some (.memoryLimit "$high" 2 1) := rfl
  obtain ⟨-, stuck⟩ := (ofMemory _).mp ⟨failed', id⟩
  exact ⟨within, first, failed, unchanged _ failed about, within', stuck, rfl⟩

end Module

end WatLink
