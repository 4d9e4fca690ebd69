import WatLink.Proofs.NodeLaws

/-!
# Settled modules

A pass is settled in a module that has nothing left for it to do.  A pass that
does not fail settles itself, and the passes behind it keep it settled: none of
them writes an import, a prefixed literal, a constant expression or a second
start entry, and behind the sizing none of them touches memories or data.
-/

namespace WatLink

/-- No atom is a prefixed literal, string literals apart. -/
def numeralLaw : NodeLaw where
  atom text := isStringLiteral text = true ∨ decimalSpelling? text = none
  tag _ := True

/-- No list asks for evaluation. -/
def constantLaw : NodeLaw where
  atom _ := True
  tag text := Constant.constexprType? text = none

/-- Whether a pass has nothing left to do in a module. -/
def Pass.Settled : Pass → Tree → Prop
  | .expandImports, module => ∀ item ∈ module.items, fileImport? item = none
  | .inlineData, module => ∀ form ∈ module.items.filter (·.hasTag "data"),
      ∀ item ∈ form.items, rawImport? item = none
  | .decimalNumerals, module => module.Obeys numeralLaw
  | .foldConstants, module => module.Obeys constantLaw
  | .sizeMemories, module => Module.Sized module
  | .mergeStarts, module => (module.items.filter (·.hasTag "start")).length ≤ 1
  | .sortForms, module => Module.sortForms module = module

/-! ## Import forms -/

section Imports

variable {kind : String} {item : Tree}

theorem eq_of_importAtom? {path : String} (isImport : importAtom? kind item = some path) :
    item = .list [.atom "import", .atom path, .list [.atom kind]] := by
  unfold importAtom? at isImport
  split at isImport
  · split at isImport
    · rename_i same
      obtain ⟨rfl, rfl⟩ := same
      cases isImport
      rfl
    · cases isImport
  · cases isImport

theorem importAtom?_of_tag {tag : String} (tagged : item.tag? = some tag) (other : tag ≠ "import") :
    importAtom? kind item = none := by
  cases isImport : importAtom? kind item with
  | none => rfl
  | some path =>
      rw [eq_of_importAtom? isImport] at tagged
      exact absurd (Option.some.inj tagged).symm other

/-- A form that imports a declaration imports nothing else. -/
theorem importAtom?_of_declaration? {other : String} {declaration : Declaration}
    (declares : Module.declaration? other item = some declaration) (different : other ≠ kind) :
    importAtom? kind item = none := by
  cases isImport : importAtom? kind item with
  | none => rfl
  | some path =>
      obtain rfl := eq_of_importAtom? isImport
      rcases Module.declaration?_cases declares with ⟨rest, same, -, found⟩ | ⟨notImport, -⟩
      · cases same
        have isOther := List.find?_some found
        have inRest := List.mem_of_find?_eq_some found
        rcases List.mem_pair.mp inRest with isPath | isKind
        · simp [isPath, Tree.hasTag, Tree.tag?] at isOther
        · rw [isKind] at isOther
          simp [Tree.hasTag, Tree.tag?, different.symm] at isOther
      · simp [Tree.hasTag, Tree.tag?] at notImport

end Imports

/-! ## Imports under rewriting -/

/-- The texts that make imports and data forms. -/
def importWords : List String := ["import", "file", "raw", "data"]

/-- Whether replacements make no import and no data form: atoms take the place
only of atoms, and lists have a tag and a value. -/
structure MakesNoImports (replaces : Tree → Tree → Prop) : Prop where
  atom : ∀ item text, replaces item (.atom text) → item.isList = false ∧ text ∉ importWords
  list : ∀ item items, replaces item (.list items) →
    ∃ tag value, items = [.atom tag, .atom value] ∧ tag ∉ importWords

namespace Rewritten

variable {keeps : Tree → Prop} {replaces : Tree → Tree → Prop} {item item' tree tree' : Tree}

theorem exists_cons {rest' : List Tree}
    (rewritten : Rewritten keeps replaces tree (.list (item' :: rest'))) :
    ∃ item rest, tree = .list (item :: rest) ∧
      (Rewritten keeps replaces item item' ∨ replaces item item') ∧
        Rewritten keeps replaces (.list rest) (.list rest') := by
  cases rewritten with
  | kept _ first behind => exact ⟨_, _, rfl, .inl first, behind⟩
  | replaced replaced behind => exact ⟨_, _, rfl, .inr replaced, behind⟩

theorem eq_nil (rewritten : Rewritten keeps replaces tree (.list [])) : tree = .list [] := by
  cases rewritten
  rfl

theorem exists_of_mem (rewritten : Rewritten keeps replaces tree tree')
    (member : item' ∈ tree'.items) :
    ∃ item ∈ tree.items, Rewritten keeps replaces item item' ∨ replaces item item' := by
  induction rewritten with
  | atom => simp [Tree.items] at member
  | nil => simp [Tree.items] at member
  | kept _ first _ _ ih =>
      rcases List.mem_cons.mp member with rfl | inRest
      · exact ⟨_, List.mem_cons_self, .inl first⟩
      · obtain ⟨other, inItems, written⟩ := ih inRest
        exact ⟨other, List.mem_cons_of_mem _ inItems, written⟩
  | replaced replaced _ ih =>
      rcases List.mem_cons.mp member with rfl | inRest
      · exact ⟨_, List.mem_cons_self, .inr replaced⟩
      · obtain ⟨other, inItems, written⟩ := ih inRest
        exact ⟨other, List.mem_cons_of_mem _ inItems, written⟩

section MakesNoImports

variable (noImports : MakesNoImports replaces)

include noImports

theorem exists_atom {text : String}
    (written : Rewritten keeps replaces item (.atom text) ∨ replaces item (.atom text)) :
    ∃ text', item = .atom text' ∧ (text ∈ importWords → text' = text) := by
  rcases written with rewritten | replaced
  · exact ⟨text, rewritten.eq_atom, fun _ => rfl⟩
  · obtain ⟨isAtom, notWord⟩ := noImports.atom _ _ replaced
    cases item with
    | atom text' => exact ⟨text', rfl, fun isWord => absurd isWord notWord⟩
    | list items => simp [Tree.isList] at isAtom

/-- A list has a word for its tag only if it had it before. -/
theorem tag_of_importWord {tag : String} (isWord : tag ∈ importWords)
    (written : Rewritten keeps replaces item item' ∨ replaces item item')
    (tagged : item'.tag? = some tag) :
    item.tag? = some tag ∧ Rewritten keeps replaces item item' := by
  obtain ⟨rest', rfl⟩ := Tree.exists_of_tag? tagged
  rcases written with rewritten | replaced
  · obtain ⟨first, rest, rfl, writtenFirst, -⟩ := rewritten.exists_cons
    obtain ⟨text, rfl, same⟩ := exists_atom noImports writtenFirst
    exact ⟨congrArg some (same isWord), rewritten⟩
  · obtain ⟨tag', value, same, notWord⟩ := noImports.list _ _ replaced
    cases same
    exact absurd isWord notWord

/-- An item is an import of files only if it was one before. -/
theorem importAtom?_eq_none {kind : String} (isWord : kind ∈ importWords)
    (written : Rewritten keeps replaces item item' ∨ replaces item item')
    (other : importAtom? kind item = none) : importAtom? kind item' = none := by
  cases isImport : importAtom? kind item' with
  | none => rfl
  | some path =>
      obtain rfl := eq_of_importAtom? isImport
      have rewritten := (tag_of_importWord noImports (by simp [importWords]) written rfl).2
      obtain ⟨first, _, rfl, writtenFirst, behindFirst⟩ := rewritten.exists_cons
      obtain ⟨second, _, same, writtenSecond, behindSecond⟩ := behindFirst.exists_cons
      obtain rfl := Tree.list.inj same
      obtain ⟨third, _, same, writtenThird, behindThird⟩ := behindSecond.exists_cons
      obtain rfl := Tree.list.inj same
      obtain rfl := Tree.list.inj behindThird.eq_nil
      obtain ⟨_, rfl, isSame⟩ := exists_atom noImports writtenFirst
      obtain rfl := isSame (by simp [importWords])
      obtain ⟨_, rfl, -⟩ := exists_atom noImports writtenSecond
      have inner := (tag_of_importWord noImports isWord writtenThird rfl).2
      obtain ⟨last, _, rfl, writtenLast, behindLast⟩ := inner.exists_cons
      obtain rfl := Tree.list.inj behindLast.eq_nil
      obtain ⟨_, rfl, isSame⟩ := exists_atom noImports writtenLast
      obtain rfl := isSame isWord
      simp [importAtom?] at other

/-- Rewriting leaves neither file imports nor raw imports where there were none. -/
theorem settled_imports (rewritten : Rewritten keeps replaces tree tree') :
    (Pass.Settled .expandImports tree → Pass.Settled .expandImports tree') ∧
      (Pass.Settled .inlineData tree → Pass.Settled .inlineData tree') := by
  refine ⟨fun settled item' member => ?_, fun settled form' member item' inForm' => ?_⟩
  · obtain ⟨item, inTree, written⟩ := rewritten.exists_of_mem member
    exact importAtom?_eq_none noImports (by simp [importWords]) written (settled item inTree)
  · obtain ⟨inTree', isData'⟩ := List.mem_filter.mp member
    obtain ⟨form, inTree, written⟩ := rewritten.exists_of_mem inTree'
    have tagged' : form'.tag? = some "data" := by simpa [Tree.hasTag] using isData'
    obtain ⟨isData, rewrittenForm⟩ :=
      tag_of_importWord noImports (by simp [importWords]) written tagged'
    obtain ⟨item, inForm, writtenItem⟩ := rewrittenForm.exists_of_mem inForm'
    refine importAtom?_eq_none noImports (by simp [importWords]) writtenItem ?_
    exact settled form (List.mem_filter.mpr ⟨inTree, by simp [Tree.hasTag, isData]⟩) item inForm

end MakesNoImports

/-- Rewriting leaves only items that obey a law if what is kept does, as far as
its own text or tag goes, and all replacements do. -/
theorem items_obey {law : NodeLaw} (rewritten : Rewritten keeps replaces tree tree')
    (atoms : ∀ text, keeps (.atom text) → law.atom text)
    (tags : ∀ item item' : Tree, keeps item → Rewritten keeps replaces item item' →
      ∀ tag ∈ item'.tag?, law.tag tag)
    (replacements : ∀ item item', replaces item item' → item'.Obeys law) :
    ∀ item' ∈ tree'.items, item'.Obeys law := by
  induction rewritten with
  | atom => simp [Tree.items]
  | nil => simp [Tree.items]
  | @kept item item' _ _ isKept first _ ihFirst ihRest =>
      refine List.forall_mem_cons.mpr ⟨?_, ihRest⟩
      cases item' with
      | atom text => exact Tree.obeys_atom.mpr (atoms text (first.eq_atom ▸ isKept))
      | list items' => exact Tree.obeys_list.mpr ⟨tags _ _ isKept first, ihFirst⟩
  | replaced replaced _ ihRest =>
      exact List.forall_mem_cons.mpr ⟨replacements _ _ replaced, ihRest⟩

end Rewritten

theorem exists_digit_of_inserts {text : String} (inserts : Pass.Inserts .decimalNumerals text) :
    ∃ digit < 10, Nat.digitChar digit ∈ text.toList := by
  cases inserts with
  | numeral characters number =>
      obtain ⟨character, isDigit⟩ :=
        List.exists_mem_of_ne_nil _ (Nat.toDigits_ne_nil (n := number.natAbs) (b := 10))
      obtain ⟨digit, small, rfl⟩ := exists_digit_of_mem_toDigits (by decide) isDigit
      exact ⟨digit, small, by simp [toList_decimalNumeral, isDigit]⟩

theorem decimalReviser_makesNoImports : MakesNoImports decimalReviser.Replaces := by
  have noDigits : ∀ word ∈ importWords, ∀ digit < 10, Nat.digitChar digit ∉ word.toList := by
    decide
  constructor
  · intro item text replaces
    obtain ⟨old, inserted, rfl, -, same, inserts⟩ := exists_of_decimalReviser_replaces replaces
    cases same
    obtain ⟨digit, small, inText⟩ := exists_digit_of_inserts inserts
    exact ⟨rfl, fun isWord => noDigits text isWord digit small inText⟩
  · intro item items replaces
    obtain ⟨old, inserted, -, -, same, -⟩ := exists_of_decimalReviser_replaces replaces
    cases same

theorem foldReviser_makesNoImports (before : List Global) :
    MakesNoImports (Constant.foldReviser before).Replaces := by
  constructor
  · intro item text replaces
    obtain ⟨type, value, -, same⟩ := exists_of_foldReviser_replaces replaces
    cases same
  · intro item items replaces
    obtain ⟨type, value, -, same⟩ := exists_of_foldReviser_replaces replaces
    cases same
    refine ⟨_, _, rfl, ?_⟩
    cases type with
    | int width => cases width <;> decide
    | float precision => cases precision <;> decide

/-! ## Settling -/

theorem numeralLaw_accepts {text : String} (bare : IsBare text) : numeralLaw.Accepts text :=
  ⟨.inr bare.decimalSpelling?, trivial⟩

theorem constantLaw_accepts {text : String} (bare : IsBare text) : constantLaw.Accepts text :=
  ⟨trivial, bare.constexprType?⟩

theorem obeys_module {law : NodeLaw} {module : Tree} (isModule : module.isModule = true)
    (tag : law.tag "module") (items : ∀ item ∈ module.items, item.Obeys law) :
    module.Obeys law := by
  obtain ⟨rest, rfl⟩ := isModule_iff.mp isModule
  exact Tree.obeys_list.mpr ⟨by simpa [Tree.tag?] using tag, items⟩

namespace Pass.Effect

variable {loads : Tree → Prop} {pass : Pass} {module module' : Tree}

/-- A pass that does not fail leaves itself nothing to do. -/
theorem settles (effect : pass.Effect loads module module') (isModule : module.isModule = true) :
    pass.Settled module' := by
  have isModule' := effect.isModule isModule
  cases effect with
  | expandImports expanded => exact expanded.noImports
  | inlineData inlined =>
      intro form' member item' inForm'
      obtain ⟨inModule', isData⟩ := List.mem_filter.mp member
      obtain ⟨form, -, inlinedForm⟩ := exists_of_mem_forall₂ inlined inModule'
      cases inlinedForm with
      | other notData => simp [notData] at isData
      | data _ inlinedItems =>
          obtain ⟨item, -, inlinedItem⟩ := exists_of_mem_forall₂ inlinedItems inForm'
          cases inlinedItem with
          | kept isOther => exact isOther
          | literal bytes _ => rfl
  | decimalNumerals rewritten =>
      refine obeys_module isModule' trivial (rewritten.items_obey ?_ ?_ ?_)
      · intro text keeps
        exact decimalReviser_keeps_iff.mp keeps text rfl
      · exact fun _ _ _ _ _ _ => trivial
      · intro item item' replaces
        obtain ⟨_, inserted, -, -, rfl, inserts⟩ := exists_of_decimalReviser_replaces replaces
        exact Tree.obeys_atom.mpr (numeralLaw_accepts (inserts.isBare_of_ne (by decide))).1
  | @foldConstants _ before rewritten =>
      refine obeys_module isModule' rfl (rewritten.items_obey ?_ ?_ ?_)
      · exact fun _ _ => trivial
      · -- Folding replaces no atoms, so the tag is the one that was looked at.
        intro item item' keeps rewrittenItem tag tagged
        obtain ⟨rest', rfl⟩ := Tree.exists_of_tag? tagged
        obtain ⟨first, rest, rfl, rewrittenFirst | replaced, -⟩ := rewrittenItem.exists_cons
        · obtain rfl := rewrittenFirst.eq_atom
          exact foldReviser_keeps_iff.mp keeps
        · obtain ⟨_, _, -, same⟩ := exists_of_foldReviser_replaces replaced
          cases same
      · intro item item' replaces
        obtain ⟨type, value, -, rfl⟩ := exists_of_foldReviser_replaces replaces
        have bareTag := (Inserts.constantTag type).isBare_of_ne (by decide)
        exact Tree.obeys_tagged.mpr ⟨constantLaw_accepts bareTag,
          List.forall_mem_singleton.mpr (Tree.obeys_atom.mpr trivial)⟩
  | sizeMemories succeeded => exact Module.sized_sizeMemories succeeded
  | mergeStarts merges =>
      cases merges with
      | same few => exact few
      | merged _ _ =>
          simp [Settled, Tree.items, startFunction, Tree.form, Tree.hasTag, Tree.tag?]
  | sortForms => exact Module.sortForms_sortForms module

/-! ## Staying settled -/

theorem settled_inlineData_of_same (settled : Settled .inlineData module)
    (sameData : module'.items.filter (·.hasTag "data") = module.items.filter (·.hasTag "data")) :
    Settled .inlineData module' :=
  fun form member => settled form (sameData ▸ member)

/-- What sizing makes of an item imports no more files than it did. -/
theorem settled_imports_sizeMemories (succeeded : (Module.sizeMemories module).failure = none) :
    (Settled .expandImports module → Settled .expandImports (Module.sizeMemories module).module) ∧
      (Settled .inlineData module → Settled .inlineData (Module.sizeMemories module).module) := by
  obtain ⟨extents, events, grown, -, fitted, module_eq⟩ := Module.sizeMemories_cases succeeded
  rw [module_eq]
  refine ⟨fun settled item' member => ?_, fun settled => ?_⟩
  · obtain ⟨item, inModule, changed⟩ :=
      exists_of_mem_forall₂ (Module.mapIndexSpace_forall₂ module) member
    rcases changed with ⟨-, rfl⟩ | ⟨index, declaration, declares, found, rfl⟩
    · exact settled item' inModule
    · have declares' := Module.declaration?_replaceDeclaration declares
        (Module.sameDeclaration_grownForm fitted found)
      exact importAtom?_of_declaration? declares'.1 (by decide)
  · exact settled_inlineData_of_same settled (Module.filter_mapIndexSpace (by decide) (by decide)
      fun _ _ found => Module.sameDeclaration_grownForm fitted found)

/-- No pass makes a file import. -/
theorem settled_expandImports (effect : pass.Effect loads module module')
    (settled : Settled .expandImports module) : Settled .expandImports module' := by
  cases effect with
  | expandImports expanded => exact expanded.noImports
  | inlineData inlined =>
      intro form' member
      obtain ⟨form, inModule, inlinedForm⟩ := exists_of_mem_forall₂ inlined member
      rcases inlinedForm.cases with ⟨-, rfl⟩ | ⟨_, _, -, rfl, -⟩
      · exact settled form' inModule
      · exact importAtom?_of_tag rfl (by decide)
  | decimalNumerals rewritten =>
      exact (rewritten.settled_imports decimalReviser_makesNoImports).1 settled
  | foldConstants rewritten =>
      exact (rewritten.settled_imports (foldReviser_makesNoImports _)).1 settled
  | sizeMemories succeeded => exact (settled_imports_sizeMemories succeeded).1 settled
  | mergeStarts merges =>
      cases merges with
      | same _ => exact settled
      | merged _ _ =>
          refine List.forall_mem_append.mpr ⟨fun item member => ?_, ?_⟩
          · exact settled item (List.mem_of_mem_filter member)
          · refine List.forall_mem_cons.mpr ⟨?_, List.forall_mem_singleton.mpr ?_⟩
            · exact importAtom?_of_tag rfl (by decide)
            · exact importAtom?_of_tag rfl (by decide)
  | sortForms => exact fun item member => settled item (Module.mem_sortForms_iff.mp member)

/-- Only files bring in raw imports. -/
theorem settled_inlineData (effect : pass.Effect loads module module')
    (isModule : module.isModule = true) (noFiles : pass ≠ .expandImports)
    (settled : Settled .inlineData module) : Settled .inlineData module' := by
  cases effect with
  | expandImports _ => exact absurd rfl noFiles
  | inlineData inlined =>
      have effect : Effect loads module .inlineData _ := .inlineData inlined
      exact effect.settles isModule
  | decimalNumerals rewritten =>
      exact (rewritten.settled_imports decimalReviser_makesNoImports).2 settled
  | foldConstants rewritten =>
      exact (rewritten.settled_imports (foldReviser_makesNoImports _)).2 settled
  | sizeMemories succeeded => exact (settled_imports_sizeMemories succeeded).2 settled
  | mergeStarts merges =>
      exact settled_inlineData_of_same settled (merges.filter_hasTag (by decide))
  | sortForms =>
      exact settled_inlineData_of_same settled (Module.filter_hasTag_sortForms module (by decide))

/-- Only imported files bring in prefixed literals and constant expressions. -/
theorem settled_of_law {law : NodeLaw} (effect : pass.Effect loads module module')
    (isModule : module.isModule = true) (noFiles : ¬ pass.ReadsFiles)
    (accepts : ∀ text, IsBare text → law.Accepts text) (obeys : module.Obeys law) :
    module'.Obeys law := by
  refine effect.obeys isModule (fun text inserts => accepts text ?_) ?_ obeys
  · exact inserts.isBare_of_ne fun isData => noFiles (.inr isData)
  · exact fun isImport => absurd (.inl isImport) noFiles

end Pass.Effect

/-- Whether a pass runs in front of another. -/
def Pass.Before (first second : Pass) : Prop :=
  Pass.all.idxOf first < Pass.all.idxOf second

instance (first second : Pass) : Decidable (first.Before second) :=
  inferInstanceAs (Decidable (_ < _))

theorem Pass.inOrder_filter (selected : Pass → Bool) :
    (Pass.all.filter selected).Pairwise Pass.Before :=
  List.Pairwise.filter selected (by decide)

theorem Pass.Before.not_readsFiles {earlier later : Pass} (before : earlier.Before later)
    (other : ¬ earlier.ReadsFiles) : ¬ later.ReadsFiles := by
  rintro (rfl | rfl)
  · exact absurd before (Nat.not_lt_zero _)
  · have isFirst : earlier = .expandImports := by
      revert before
      cases earlier <;> decide
    exact other (.inl isFirst)

/-- Passes keep settled what ran in front of them. -/
theorem Pass.Settled.of_effect {loads : Tree → Prop} {earlier later : Pass}
    {module module' : Tree} (settled : earlier.Settled module) (before : earlier.Before later)
    (effect : later.Effect loads module module') (isModule : module.isModule = true) :
    earlier.Settled module' := by
  cases earlier with
  | expandImports => exact effect.settled_expandImports settled
  | inlineData =>
      refine effect.settled_inlineData isModule ?_ settled
      rintro rfl
      exact absurd before (by decide)
  | decimalNumerals =>
      have noFiles := before.not_readsFiles (by simp [Pass.ReadsFiles])
      exact effect.settled_of_law isModule noFiles (fun _ => numeralLaw_accepts) settled
  | foldConstants =>
      have noFiles := before.not_readsFiles (by simp [Pass.ReadsFiles])
      exact effect.settled_of_law isModule noFiles (fun _ => constantLaw_accepts) settled
  | sizeMemories =>
      cases effect with
      | mergeStarts merges =>
          exact settled.of_same (merges.indexSpace (by decide)) (merges.filter_hasTag (by decide))
      | sortForms =>
          exact settled.of_same (Module.indexSpace_sortForms module "memory")
            (Module.filter_hasTag_sortForms module (by decide))
      | _ => exact absurd before (by decide)
  | mergeStarts =>
      cases effect with
      | sortForms =>
          have sameStarts := Module.filter_hasTag_sortForms module
            (by decide : "start" ∉ importableTags)
          exact (congrArg List.length sameStarts).trans_le settled
      | _ => exact absurd before (by decide)
  | sortForms =>
      have isLast : ¬ Pass.sortForms.Before later := by cases later <;> decide
      exact absurd before isLast

end WatLink
