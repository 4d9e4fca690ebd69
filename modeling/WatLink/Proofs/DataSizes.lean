import WatLink.Proofs.LinkRetry
import WatLink.Proofs.NumberLimits

/-!
# Sizes of data forms

A data form stands for the bytes of its string literals and of the files that it
imports.  Inlining turns the second into the first; the passes behind it add no
bytes.  Only a form with more bytes than can be counted in decimal needs more
pages than can be written.
-/

namespace WatLink

/-- The number of bytes that a text denotes as a string literal. -/
def literalLength (text : String) : Nat :=
  ((unquoted? text).bind fun body => (StringLiteral.byteLength body).toOption).getD 0

/-- The number of bytes that an item of a data form stands for. -/
def itemLength (files : Files) : Tree → Nat
  | .atom text => literalLength text
  | .list items =>
      (((rawImport? (.list items)).bind unquoted?).bind (List.lookup · files)).elim 0 List.length

/-- The number of bytes that the items of a data form stand for. -/
def dataLength (files : Files) (items : List Tree) : Nat :=
  (items.map (itemLength files)).sum

theorem dataLength_cons (files : Files) (item : Tree) (rest : List Tree) :
    dataLength files (item :: rest) = itemLength files item + dataLength files rest := by
  simp [dataLength]

theorem itemLength_nil_list (items : List Tree) : itemLength [] (.list items) = 0 := by
  have missing : ∀ path : String, List.lookup path ([] : Files) = none := fun _ => rfl
  simp [itemLength, missing]

theorem itemLength_nil_le (files : Files) (item : Tree) :
    itemLength [] item ≤ itemLength files item := by
  cases item with
  | atom text => exact le_rfl
  | list items => simp [itemLength_nil_list]

theorem dataLength_nil_le (files : Files) (items : List Tree) :
    dataLength [] items ≤ dataLength files items :=
  List.sum_le_sum fun item _ => itemLength_nil_le files item

/-! ## Segments -/

theorem literalsLength_eq_ok {atoms : List String} {size : Nat}
    (measured : literalsLength atoms = .ok size) : size = (atoms.map literalLength).sum := by
  induction atoms generalizing size with
  | nil =>
      cases measured
      rfl
  | cons text rest ih =>
      rw [literalsLength] at measured
      rw [List.map_cons, List.sum_cons]
      cases isLiteral : unquoted? text with
      | none =>
          simp only [isLiteral] at measured
          simp [literalLength, isLiteral, ih measured]
      | some body =>
          simp only [isLiteral] at measured
          cases counted : StringLiteral.byteLength body with
          | error fault => simp [counted] at measured
          | ok length =>
              simp only [counted] at measured
              cases others : literalsLength rest with
              | error fault => simp [others, Except.map] at measured
              | ok size' =>
                  simp only [others, Except.map, Except.ok.injEq] at measured
                  rw [← measured, ih others]
                  simp [literalLength, isLiteral, counted, Except.toOption]

theorem sum_literalLength_le (files : Files) (items : List Tree) :
    ((items.filterMap Tree.text?).map literalLength).sum ≤ dataLength files items := by
  induction items with
  | nil => exact le_rfl
  | cons item rest ih =>
      rw [dataLength_cons]
      cases item with
      | atom text => simpa [Tree.text?, itemLength] using ih
      | list items => exact ih.trans (Nat.le_add_left _ _)

theorem size_le_dataLength {form : Tree} {size : Nat} (measured : segmentSize form = .ok size)
    (files : Files) : size ≤ dataLength files form.items := by
  rw [literalsLength_eq_ok (segmentSize_eq_ok_iff.mp measured), Tree.atoms]
  split
  · refine (sum_literalLength_le files _).trans ?_
    cases form.items with
    | nil => exact le_rfl
    | cons item rest =>
        rw [dataLength_cons]
        exact Nat.le_add_left _ _
  · exact sum_literalLength_le files _

theorem offset_lt_of_offsetOfWords {words : List Tree} {offset : Nat}
    (found : offsetOfWords words = .ok (some offset)) : offset < 2 ^ 64 := by
  unfold offsetOfWords at found
  split at found
  · split at found
    · rename_i width _
      split at found
      · obtain ⟨number, -, isOffset⟩ := exceptMap_eq_ok_iff.mp found
        rw [← Option.some.inj isOffset]
        exact (BitVec.isLt _).trans_le
          (Nat.pow_le_pow_right (by decide) (by cases width <;> decide))
      · cases found
    · cases found
  · cases found

theorem offset_lt_of_constantOffset {expression : Tree} {offset : Nat}
    (found : constantOffset expression = .ok (some offset)) : offset < 2 ^ 64 := by
  fun_induction constantOffset expression with
  | case1 => cases found
  | case2 items ih => exact ih found
  | case3 => cases found
  | case4 words => exact offset_lt_of_offsetOfWords found
  | case5 => exact offset_lt_of_offsetOfWords found
  | case6 => exact offset_lt_of_offsetOfWords found

/-- Pages that cannot be written hold more bytes than can be counted. -/
theorem large_of_pages {form : Tree} {segment : Segment} {fault : NumeralFault}
    (isSegment : Segment.ofForm? form = .ok (some segment))
    (unwritten : writeInt (pagesFor segment.finish) = .error fault) (files : Files) :
    form.hasTag "data" = true ∧ 10 ^ digitLimit ≤ dataLength files form.items := by
  obtain ⟨isData, -, measured, offsets⟩ := Segment.ofForm?_cases isSegment
  have offset_lt : segment.offset.getD 0 < 2 ^ 64 := by
    rcases offsets with isZero | ⟨expression, found⟩
    · rw [isZero]
      decide
    · cases known : segment.offset with
      | none => decide
      | some offset => exact offset_lt_of_constantOffset (known ▸ found)
  obtain ⟨-, long⟩ := writeInt_eq_error_iff.mp unwritten
  have wide : 10 ^ 20 ≤ 10 ^ digitLimit := Nat.pow_le_pow_right (by decide) (by decide)
  refine ⟨isData, le_trans ?_ (size_le_dataLength measured files)⟩
  simp only [pagesFor, Segment.finish, pageSize] at long
  generalize 10 ^ digitLimit = limit at long wide
  omega

/-! ## Inlining -/

theorem literalLength_ofBytes (bytes : Bytes) :
    literalLength (StringLiteral.ofBytes bytes) = bytes.length := by
  have isBody := StringLiteral.unquoted?_ofBytes bytes
  simp [literalLength, isBody, StringLiteral.byteLength_ofBytes bytes isBody, Except.toOption]

theorem itemLength_literal {files : Files} {item literal : Tree} {text : String}
    (isImport : rawImport? item = some text) (found : literalAt files item text = .ok literal) :
    itemLength [] literal = itemLength files item := by
  obtain ⟨items, rfl⟩ : ∃ items, item = .list items := by
    cases item with
    | atom other => simp [rawImport?, importAtom?] at isImport
    | list items => exact ⟨items, rfl⟩
  unfold literalAt at found
  split at found
  · cases found
  · rename_i path unquoted
    split at found
    · cases found
    · rename_i bytes held
      cases found
      simp [itemLength, literalLength_ofBytes, isImport, unquoted, held]

theorem dataLength_inlinedItems (files : Files) (items : List Tree) :
    dataLength [] (inlinedItems files items).1 ≤ dataLength files items := by
  induction items with
  | nil => exact le_rfl
  | cons item rest ih =>
      cases isImport : rawImport? item with
      | none =>
          simp only [inlinedItems, isImport, dataLength_cons]
          exact Nat.add_le_add (itemLength_nil_le files item) ih
      | some text =>
          cases found : literalAt files item text with
          | error fault =>
              simp only [inlinedItems, isImport, found]
              exact dataLength_nil_le files _
          | ok literal =>
              simp only [inlinedItems, isImport, found, dataLength_cons,
                itemLength_literal isImport found]
              exact Nat.add_le_add_left ih _

/-- An inlined data form has no more bytes than the form with its files. -/
theorem exists_of_mem_inlinedForms {files : Files} {forms : List Tree} {form' : Tree}
    (member : form' ∈ (inlinedForms files forms).1) (isData' : form'.hasTag "data" = true) :
    ∃ form ∈ forms, form.hasTag "data" = true ∧
      dataLength [] form'.items ≤ dataLength files form.items := by
  induction forms with
  | nil => simp [inlinedForms] at member
  | cons form rest ih =>
      have later : form' ∈ (inlinedForms files rest).1 → ∃ other ∈ form :: rest,
          other.hasTag "data" = true ∧ dataLength [] form'.items ≤ dataLength files other.items := by
        intro inRest
        obtain ⟨other, isOther, found⟩ := ih inRest
        exact ⟨other, List.mem_cons_of_mem form isOther, found⟩
      by_cases isData : form.hasTag "data" = true
      · have smaller := dataLength_inlinedItems files form.items
        obtain ⟨items, failure, inlined⟩ : ∃ items failure,
            inlinedItems files form.items = (items, failure) := ⟨_, _, rfl⟩
        rw [inlined] at smaller
        cases failure with
        | none =>
            rw [inlinedForms_data isData inlined] at member
            rcases List.mem_cons.mp member with rfl | inRest
            · exact ⟨form, by simp, isData, smaller⟩
            · exact later inRest
        | some error =>
            rw [inlinedForms_failed isData inlined] at member
            rcases List.mem_cons.mp member with rfl | inRest
            · exact ⟨form, by simp, isData, smaller⟩
            · exact ⟨form', List.mem_cons_of_mem form inRest, isData', dataLength_nil_le files _⟩
      · rw [inlinedForms_other isData] at member
        rcases List.mem_cons.mp member with rfl | inRest
        · exact absurd isData' isData
        · exact later inRest

/-! ## Rewriting -/

theorem IsBare.itemLength_eq_zero {text : String} (bare : IsBare text) (files : Files) :
    itemLength files (.atom text) = 0 := by
  have noLiteral : unquoted? text = none := by
    refine Option.eq_none_iff_forall_ne_some.mpr fun body isLiteral => ?_
    have starts := List.mem_of_head? (head?_of_unquoted? isLiteral)
    exact absurd rfl (bare.characters '"' starts).1.2.2.2
  simp [itemLength, literalLength, noLiteral]

theorem Rewritten.dataLength_le {keeps : Tree → Prop} {replaces : Tree → Tree → Prop}
    {tree tree' : Tree} (rewritten : Rewritten keeps replaces tree tree')
    (noData : ∀ item item', replaces item item' → itemLength [] item' = 0) :
    dataLength [] tree'.items ≤ dataLength [] tree.items := by
  induction rewritten with
  | atom => exact le_rfl
  | nil => exact le_rfl
  | @kept item item' rest rest' _ first _ _ ihRest =>
      have same : itemLength [] item' ≤ itemLength [] item := by
        cases item' with
        | list items => simp [itemLength_nil_list]
        | atom text => rw [first.eq_atom]
      simp only [Tree.items, dataLength_cons] at ihRest ⊢
      exact Nat.add_le_add same ihRest
  | @replaced item item' rest rest' replaced _ ihRest =>
      simp only [Tree.items, dataLength_cons, noData _ _ replaced] at ihRest ⊢
      omega

end WatLink
