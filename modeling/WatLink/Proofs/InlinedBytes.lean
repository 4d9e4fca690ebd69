import WatLink.Proofs.DataSizes
import WatLink.Proofs.LiteralBytes
import WatLink.Proofs.PrintableOutput
import WatLink.Proofs.ServedFiles

/-!
# Bytes of inlined files

A file is inlined as a literal of two-digit escapes.  The literal is one token, and
it denotes the bytes of the file and no others, so a data form is measured with the
bytes of its own strings and the bytes of the files it imports.
-/

namespace WatLink

namespace StringLiteral

theorem hexValue_hexPadded {number : Nat} (small : number < 256) :
    hexValue (Text.hexPadded 2 number) = number := by
  have listed : ∀ number < 256, hexValue (Text.hexPadded 2 number) = number := by
    decide +kernel
  exact listed number small

/-- A byte is written with one element. -/
theorem exists_element_of_byte (byte : UInt8) :
    ∃ element : Element, element.spelling = '\\' :: Text.hexPadded 2 byte.toNat ∧
      element.bytes = [byte] := by
  obtain ⟨high, low, padded⟩ := hexPadded_byte byte
  have areDigits : ∀ character ∈ [high, low], isHexDigit character = true := by
    rw [← padded]
    exact fun _ => isHexDigit_of_mem_hexPadded
  refine ⟨.byte high low (areDigits high (by simp)) (areDigits low (by simp)), ?_, ?_⟩
  · rw [Element.spelling, padded]
  · rw [Element.bytes, ← padded, hexValue_hexPadded byte.toNat_lt, UInt8.ofNat_toNat]

theorem exists_elements_of_bytes (bytes : Bytes) :
    ∃ elements : List Element,
      bytes.flatMap (fun byte => '\\' :: Text.hexPadded 2 byte.toNat) =
          elements.flatMap Element.spelling ∧
        bytes = elements.flatMap Element.bytes := by
  induction bytes with
  | nil => exact ⟨[], rfl, rfl⟩
  | cons byte rest ih =>
      obtain ⟨element, isSpelling, isByte⟩ := exists_element_of_byte byte
      obtain ⟨elements, areSpellings, areBytes⟩ := ih
      refine ⟨element :: elements, ?_, ?_⟩
      · rw [List.flatMap_cons, List.flatMap_cons, isSpelling, areSpellings]
      · rw [List.flatMap_cons, isByte, ← areBytes, List.singleton_append]

/-- Whether the parser reads a text as one atom, and this atom is a literal that
denotes some bytes and no others. -/
def IsLiteralOf (text : String) (bytes : Bytes) : Prop :=
  Tree.parse text = .ok (.atom text) ∧
    ∃ body, unquoted? text = some body ∧ ∀ other, Spells body other ↔ other = bytes

theorem isLiteralOf_ofBytes (bytes : Bytes) : IsLiteralOf (ofBytes bytes) bytes := by
  refine ⟨Tree.parse_of_completeToken (completeToken_ofBytes bytes), ?_⟩
  obtain ⟨elements, areSpellings, areBytes⟩ := exists_elements_of_bytes bytes
  have spells : Spells (String.ofList
      (bytes.flatMap fun byte => '\\' :: Text.hexPadded 2 byte.toNat)) bytes :=
    ⟨elements, by rw [String.toList_ofList, areSpellings], areBytes⟩
  refine ⟨_, unquoted?_ofBytes bytes, fun other => ⟨fun others => others.unique spells, ?_⟩⟩
  rintro rfl
  exact spells

end StringLiteral

/-! ## Sizes -/

/-- Whether the bytes of a text can be counted, if it is a string literal. -/
def Countable (text : String) : Prop :=
  ∀ body, unquoted? text = some body → ∃ length, StringLiteral.byteLength body = .ok length

/-- Whether a store serves a file for a path atom. -/
def Serves (store : FileStore) (text : String) (bytes : Bytes) : Prop :=
  ∃ path, unquoted? text = some path ∧ (store.load path).1 = .ok bytes

theorem countable_ofBytes (bytes : Bytes) : Countable (StringLiteral.ofBytes bytes) :=
  fun _ isBody => ⟨bytes.length, StringLiteral.byteLength_ofBytes bytes isBody⟩

theorem literalsLength_of_countable {atoms : List String}
    (countable : ∀ text ∈ atoms, Countable text) :
    literalsLength atoms = .ok (atoms.map literalLength).sum := by
  induction atoms with
  | nil => rfl
  | cons text rest ih =>
      have others := ih fun text member => countable text (List.mem_cons_of_mem _ member)
      rw [literalsLength, List.map_cons, List.sum_cons]
      cases isLiteral : unquoted? text with
      | none => simp [literalLength, isLiteral, others]
      | some body =>
          obtain ⟨length, counted⟩ := countable text List.mem_cons_self body isLiteral
          simp [literalLength, isLiteral, counted, others, Except.map, Except.toOption]

/-- The items of a data form behind inlining are its own strings and the literals of
files. -/
theorem exists_files_of_served {store : FileStore} {items items' : List Tree}
    (served : List.Forall₂ (ServedItem store) items items')
    (countable : ∀ text ∈ items.filterMap Tree.text?, Countable text) :
    ∃ files : List Bytes, List.Forall₂ (Serves store) (items.filterMap rawImport?) files ∧
      (∀ text ∈ items'.filterMap Tree.text?, Countable text) ∧
      ((items'.filterMap Tree.text?).map literalLength).sum =
        ((items.filterMap Tree.text?).map literalLength).sum + (files.map List.length).sum := by
  induction served with
  | nil => exact ⟨[], .nil, countable, rfl⟩
  | @cons item item' rest rest' first _ ih =>
      cases first with
      | kept isOther =>
          cases item with
          | list inner =>
              obtain ⟨files, areServed, countable', total⟩ := ih countable
              refine ⟨files, ?_, countable', total⟩
              rwa [List.filterMap_cons_none isOther]
          | atom text =>
              simp only [List.filterMap_cons, Tree.text?, List.forall_mem_cons] at countable
              obtain ⟨files, areServed, countable', total⟩ := ih countable.2
              refine ⟨files, ?_, ?_, ?_⟩
              · rwa [List.filterMap_cons_none isOther]
              · simpa only [List.filterMap_cons, Tree.text?, List.forall_mem_cons] using
                  ⟨countable.1, countable'⟩
              · simp only [List.filterMap_cons, Tree.text?, List.map_cons, List.sum_cons, total]
                omega
      | @literal text path bytes isRaw isPath found =>
          obtain ⟨inner, rfl⟩ : ∃ inner, item = .list inner := ⟨_, eq_of_importAtom? isRaw⟩
          obtain ⟨files, areServed, countable', total⟩ := ih countable
          refine ⟨bytes :: files, ?_, ?_, ?_⟩
          · rw [List.filterMap_cons_some isRaw]
            exact .cons ⟨path, isPath, found⟩ areServed
          · simpa only [List.filterMap_cons, Tree.text?, List.forall_mem_cons] using
              ⟨countable_ofBytes bytes, countable'⟩
          · simp only [List.filterMap_cons, Tree.text?, List.map_cons, List.sum_cons, total,
              literalLength_ofBytes]
            omega

/-- An inlined data form is measured with its own strings and the files it imported. -/
theorem ServedForm.exists_files {store : FileStore} {form form' : Tree}
    (served : ServedForm store form form') (isData : form.hasTag "data" = true)
    (countable : ∀ text ∈ form.atoms, Countable text) :
    ∃ files : List Bytes, List.Forall₂ (Serves store) (form.items.filterMap rawImport?) files ∧
      segmentSize form' =
        .ok ((form.atoms.map literalLength).sum + (files.map List.length).sum) := by
  cases served with
  | other notData => simp [isData] at notData
  | data _ servedItems =>
      obtain ⟨rest, isForm⟩ := Tree.exists_of_tag? (beq_iff_eq.mp isData)
      cases isForm
      -- the tag is an atom, so it is kept, and it is no string literal
      cases servedItems with
      | cons first servedRest =>
          cases first with
          | literal isRaw => cases isRaw
          | kept _ =>
              obtain ⟨files, areServed, countable', total⟩ :=
                exists_files_of_served servedRest countable
              have counted := literalsLength_of_countable countable'
              rw [total] at counted
              exact ⟨files, areServed, segmentSize_eq_ok_iff.mpr counted⟩

theorem ServedForm.rawImport?_eq_none {store : FileStore} {form form' : Tree}
    (served : ServedForm store form form') (isData : form'.hasTag "data" = true) {item' : Tree}
    (member : item' ∈ form'.items) : rawImport? item' = none := by
  cases served with
  | other notData => simp [isData] at notData
  | data _ servedItems =>
      obtain ⟨item, -, servedItem⟩ := exists_of_mem_forall₂ servedItems member
      cases servedItem with
      | kept isOther => exact isOther
      | literal => rfl

/-- Inlining replaces every raw import of a data form, in its place, by one atom: a
literal that denotes the bytes of the file that the store serves, and no others.
Nothing else changes, and no raw import remains in a data form.  A data form with
countable strings is then measured with the bytes of its strings and of its files. -/
theorem Module.inlineData_gives_file_bytes (items : List Tree) (session : Session)
    (succeeded : (Module.inlineData (.list items) session).1.2 = none) :
    ∃ items', (Module.inlineData (.list items) session).1.1 = .list items' ∧
      List.Forall₂ (ServedForm session.store) items items' ∧
      (∀ bytes, StringLiteral.IsLiteralOf (StringLiteral.ofBytes bytes) bytes) ∧
      (∀ form' ∈ items', form'.hasTag "data" = true →
        ∀ item' ∈ form'.items, rawImport? item' = none) ∧
      List.Forall₂ (fun form form' => form.hasTag "data" = true →
        (∀ text ∈ form.atoms, Countable text) →
          ∃ files : List Bytes,
            List.Forall₂ (Serves session.store) (form.items.filterMap rawImport?) files ∧
            segmentSize form' =
              .ok ((form.atoms.map literalLength).sum + (files.map List.length).sum) ∧
            ∀ segment, Segment.ofForm? form' = .ok (some segment) → segment.size =
              (form.atoms.map literalLength).sum + (files.map List.length).sum) items items' := by
  have served : List.Forall₂ (ServedForm session.store) items _ := inlineForms_served succeeded
  refine ⟨_, rfl, served, StringLiteral.isLiteralOf_ofBytes, ?_, served.imp ?_⟩
  · intro form' member isData item' inForm
    obtain ⟨form, -, servedForm⟩ := exists_of_mem_forall₂ served member
    exact servedForm.rawImport?_eq_none isData inForm
  · intro form form' servedForm isData countable
    obtain ⟨files, areServed, measured⟩ := servedForm.exists_files isData countable
    refine ⟨files, areServed, measured, fun segment isSegment => ?_⟩
    obtain ⟨-, -, size, -⟩ := Segment.ofForm?_cases isSegment
    exact Except.ok.inj (size.symm.trans measured)

/-- A module that imports a file twice, behind a string with an escape. -/
def doubledImport : List Tree :=
  [.atom "module", .form "data" [.form "i32.const" [.atom "8"], .atom "\"a\\n\"",
    .form "import" [.atom "\"bin\"", .form "raw" []],
    .form "import" [.atom "\"bin\"", .form "raw" []]]]

theorem Module.inlineData_doubledImport :
    let session : Session := ⟨.memory [("bin", [0x41, 0xFF])], #[]⟩
    (Module.inlineData (.list doubledImport) session).1.2 = none ∧
      ∃ form', (Module.inlineData (.list doubledImport) session).1.1.items[1]? = some form' ∧
        segmentSize form' = .ok 6 := by
  intro session
  have succeeded : (Module.inlineData (.list doubledImport) session).1.2 = none := by
    decide +kernel
  have countable : ∀ text ∈ ["\"a\\n\""], Countable text := by
    simp only [List.mem_singleton, forall_eq]
    intro body isBody
    cases isBody
    exact ⟨2, by decide +kernel⟩
  have isFile : ∀ {bytes}, Serves session.store "\"bin\"" bytes → bytes = [0x41, 0xFF] := by
    rintro bytes ⟨path, isPath, found⟩
    cases isPath
    exact (Except.ok.inj found).symm
  obtain ⟨items', isResult, -, -, -, sizes⟩ :=
    Module.inlineData_gives_file_bytes doubledImport session succeeded
  obtain ⟨first', rest', -, restSizes, rfl⟩ := List.forall₂_cons_left_iff.mp sizes
  obtain ⟨form', tail', size, isLast, rfl⟩ := List.forall₂_cons_left_iff.mp restSizes
  cases isLast
  obtain ⟨files, served, measured, -⟩ := size (by decide) countable
  obtain ⟨bytes, files', first, others, rfl⟩ := List.forall₂_cons_left_iff.mp served
  obtain ⟨bytes', files'', second, isLast, rfl⟩ := List.forall₂_cons_left_iff.mp others
  cases isLast
  rw [isFile first, isFile second] at measured
  refine ⟨succeeded, form', by rw [isResult]; rfl, measured.trans ?_⟩
  exact congrArg Except.ok (by decide +kernel)

end WatLink
