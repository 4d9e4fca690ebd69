import WatLink.Proofs.PassEffects

/-!
# Laws on the nodes of a module

A law says which texts may be atoms and which may be tags.  A pass keeps a law
that accepts every text it inserts: all other atoms it leaves as they are, and it
takes no tag from a list without giving it one that it inserted.  Imported files
have to obey the law themselves.
-/

namespace WatLink

/-- Which texts may be atoms of a tree and which may be tags of its lists. -/
structure NodeLaw where
  atom : String → Prop
  tag : String → Prop

/-- Whether a law allows a text everywhere. -/
def NodeLaw.Accepts (law : NodeLaw) (text : String) : Prop :=
  law.atom text ∧ law.tag text

namespace Tree

/-- Whether all atoms and tags of a tree are allowed by a law. -/
def Obeys (law : NodeLaw) (tree : Tree) : Prop :=
  ∀ part ∈ tree.subtrees, (∀ text ∈ part.text?, law.atom text) ∧ ∀ tag ∈ part.tag?, law.tag tag

variable {law : NodeLaw}

theorem obeys_atom {text : String} : Obeys law (.atom text) ↔ law.atom text := by
  simp [Obeys, subtrees, text?, tag?]

theorem obeys_list {items : List Tree} :
    Obeys law (.list items) ↔
      (∀ tag ∈ (Tree.list items).tag?, law.tag tag) ∧ ∀ item ∈ items, item.Obeys law := by
  rw [Obeys, forall_mem_subtrees_list]
  simp [text?, Obeys]

theorem obeys_tagged {tag : String} {rest : List Tree} :
    Obeys law (.list (.atom tag :: rest)) ↔ law.Accepts tag ∧ ∀ item ∈ rest, item.Obeys law := by
  rw [obeys_list, List.forall_mem_cons, obeys_atom]
  simp only [tag?, Option.mem_def, Option.some.injEq, forall_eq', NodeLaw.Accepts]
  tauto

theorem Obeys.items {tree : Tree} (obeys : tree.Obeys law) : ∀ item ∈ tree.items, item.Obeys law := by
  cases tree with
  | atom text => simp [Tree.items]
  | list items => exact (obeys_list.mp obeys).2

end Tree

/-! ## Rewriting -/

namespace Rewritten

variable {keeps : Tree → Prop} {replaces : Tree → Tree → Prop} {tree tree' : Tree}

theorem eq_atom {text : String} (rewritten : Rewritten keeps replaces tree (.atom text)) :
    tree = .atom text := by
  cases rewritten
  rfl

/-- Rewriting keeps a law that the replacements of items that obey it obey, as
atoms also at the front of a list. -/
theorem obeys {law : NodeLaw} (rewritten : Rewritten keeps replaces tree tree')
    (replacements : ∀ item item', replaces item item' → item.Obeys law →
      item'.Obeys law ∧ ∀ text ∈ item'.text?, law.tag text) :
    ((∀ item ∈ tree.items, item.Obeys law) → ∀ item' ∈ tree'.items, item'.Obeys law) ∧
      (tree.Obeys law → tree'.Obeys law) := by
  induction rewritten with
  | atom => exact ⟨id, id⟩
  | nil => exact ⟨id, id⟩
  | @kept item item' rest rest' _ first _ ihFirst ihRest =>
      have items : (∀ other ∈ item :: rest, other.Obeys law) →
          ∀ other ∈ item' :: rest', other.Obeys law := by
        intro allObey
        obtain ⟨obeysItem, obeysRest⟩ := List.forall_mem_cons.mp allObey
        exact List.forall_mem_cons.mpr ⟨ihFirst.2 obeysItem, ihRest.1 obeysRest⟩
      refine ⟨items, fun obeys => ?_⟩
      obtain ⟨tags, allObey⟩ := Tree.obeys_list.mp obeys
      refine Tree.obeys_list.mpr ⟨fun tag isTag => ?_, items allObey⟩
      cases item' with
      | list items => simp [Tree.tag?] at isTag
      | atom text =>
          obtain rfl := first.eq_atom
          exact tags tag isTag
  | @replaced item item' rest rest' replaced _ ihRest =>
      have items : (∀ other ∈ item :: rest, other.Obeys law) →
          ∀ other ∈ item' :: rest', other.Obeys law := by
        intro allObey
        obtain ⟨obeysItem, obeysRest⟩ := List.forall_mem_cons.mp allObey
        exact List.forall_mem_cons.mpr
          ⟨(replacements _ _ replaced obeysItem).1, ihRest.1 obeysRest⟩
      refine ⟨items, fun obeys => ?_⟩
      have allObey := (Tree.obeys_list.mp obeys).2
      refine Tree.obeys_list.mpr ⟨fun tag isTag => ?_, items allObey⟩
      cases item' with
      | list items => simp [Tree.tag?] at isTag
      | atom text => exact (replacements _ _ replaced (allObey item (by simp))).2 tag isTag

end Rewritten

/-! ## Failing revisions -/

/-- Whether a reviser fails at an item of a tree, shown a whole tree that obeys a
law. -/
def Reviser.FailsIn {ε : Type} (revise : Reviser ε) (law : NodeLaw) (tree : Tree) (fault : ε) :
    Prop :=
  ∃ whole : Tree → Tree, ∃ item ∈ tree.subtrees, item.Obeys law ∧ (whole item).Obeys law ∧
    revise whole item = some (.error fault)

namespace Tree

variable {ε : Type} {revise : Reviser ε} {law : NodeLaw} {fault : ε}

theorem obeys_list_iff (anyTag : ∀ text, law.tag text) {items : List Tree} :
    Obeys law (.list items) ↔ ∀ item ∈ items, item.Obeys law := by
  rw [obeys_list]
  exact and_iff_right fun tag _ => anyTag tag

theorem obeys_withReplacements {items : List Tree} {replacements : List (Option Tree)}
    (obeysItems : ∀ item ∈ items, item.Obeys law)
    (obeysReplacements : ∀ replacement, some replacement ∈ replacements → replacement.Obeys law) :
    ∀ item ∈ withReplacements items replacements, item.Obeys law := by
  induction items generalizing replacements with
  | nil => simp [withReplacements]
  | cons item rest ih =>
      obtain ⟨obeysItem, obeysRest⟩ := List.forall_mem_cons.mp obeysItems
      cases replacements with
      | nil => simpa only [withReplacements] using obeysItems
      | cons decision replacements =>
          rw [withReplacements]
          refine List.forall_mem_cons.mpr ⟨?_, ih obeysRest fun replacement member =>
            obeysReplacements replacement (by simp [member])⟩
          cases decision with
          | none => exact obeysItem
          | some replacement => exact obeysReplacements replacement (by simp)

theorem failsIn_of_reviseItems {whole : List Tree → Tree} {done items : List Tree}
    (obeysWhole : ∀ items', (∀ item ∈ items', item.Obeys law) → (whole items').Obeys law)
    (replacements : ∀ item item', revise.Replaces item item' → item.Obeys law → item'.Obeys law)
    (obeysDone : ∀ item ∈ done, item.Obeys law) (obeysItems : ∀ item ∈ items, item.Obeys law)
    (failed : (reviseItems revise whole done items).2 = some fault) :
    ∃ item ∈ items, revise.FailsIn law item fault := by
  induction items generalizing done with
  | nil => simp [reviseItems] at failed
  | cons item rest ih =>
      obtain ⟨obeysItem, obeysRest⟩ := List.forall_mem_cons.mp obeysItems
      have later : ∀ done', (∀ item' ∈ done', item'.Obeys law) →
          (reviseItems revise whole done' rest).2 = some fault →
            ∃ item' ∈ item :: rest, revise.FailsIn law item' fault := by
        intro done' obeysDone' failedRest
        obtain ⟨item', member, fails⟩ := ih obeysDone' obeysRest failedRest
        exact ⟨item', List.mem_cons_of_mem item member, fails⟩
      rw [reviseItems] at failed
      cases decided : revise (fun item' => whole (done.reverse ++ item' :: rest)) item with
      | none =>
          simp only [decided] at failed
          exact later _ (List.forall_mem_cons.mpr ⟨obeysItem, obeysDone⟩) failed
      | some outcome =>
          cases outcome with
          | ok replacement =>
              simp only [decided] at failed
              have obeysReplacement := replacements _ _ ⟨_, decided⟩ obeysItem
              exact later _ (List.forall_mem_cons.mpr ⟨obeysReplacement, obeysDone⟩) failed
          | error other =>
              simp only [decided, Option.some.injEq] at failed
              subst failed
              refine ⟨item, by simp, _, item, mem_subtrees_self item, obeysItem, ?_, decided⟩
              refine obeysWhole _ fun part member => ?_
              rcases List.mem_append.mp member with inDone | inItems
              · exact obeysDone part (List.mem_reverse.mp inDone)
              · exact obeysItems part inItems

theorem failsIn_of_reviseNested {whole : List Tree → Tree} {done items : List Tree}
    {decisions : List (Option Tree)}
    (inside : ∀ item ∈ items, item.Obeys law → ∀ whole : Tree → Tree,
      (∀ tree, tree.Obeys law → (whole tree).Obeys law) →
        (∀ fault, (reviseWithin revise whole item).failure = some fault →
          revise.FailsIn law item fault) ∧
        ((reviseWithin revise whole item).failure = none →
          (reviseWithin revise whole item).tree.Obeys law))
    (obeysWhole : ∀ items', (∀ item ∈ items', item.Obeys law) → (whole items').Obeys law)
    (replacements : ∀ item item', revise.Replaces item item' → item.Obeys law → item'.Obeys law)
    (obeysDone : ∀ item ∈ done, item.Obeys law) (obeysItems : ∀ item ∈ items, item.Obeys law)
    (decided : List.Forall₂ revise.Decides items decisions)
    (failed : (reviseNested revise whole done items decisions).2.2 = some fault) :
    ∃ item ∈ items, revise.FailsIn law item fault := by
  induction decided generalizing done with
  | nil => simp [reviseNested] at failed
  | @cons item decision rest decisions decides decidedRest ih =>
      obtain ⟨obeysItem, obeysRest⟩ := List.forall_mem_cons.mp obeysItems
      obtain ⟨insideItem, insideRest⟩ := List.forall_mem_cons.mp inside
      have later : ∀ item', item'.Obeys law →
          (reviseNested revise whole (item' :: done) rest decisions).2.2 = some fault →
            ∃ other ∈ item :: rest, revise.FailsIn law other fault := by
        intro item' obeysItem' failedRest
        obtain ⟨other, member, fails⟩ := ih insideRest
          (List.forall_mem_cons.mpr ⟨obeysItem', obeysDone⟩) obeysRest failedRest
        exact ⟨other, List.mem_cons_of_mem item member, fails⟩
      cases decision with
      | some replacement =>
          rw [reviseNested] at failed
          exact later _ (replacements _ _ decides obeysItem) failed
      | none =>
          have obeysBehind : ∀ part ∈ withReplacements rest decisions, part.Obeys law := by
            refine obeys_withReplacements obeysRest fun replacement member => ?_
            obtain ⟨other, inRest, replaces⟩ := exists_of_mem_forall₂ decidedRest member
            exact replacements _ _ replaces (obeysRest other inRest)
          obtain ⟨fails, obeysRevised⟩ := insideItem obeysItem
            (fun item' => whole (done.reverse ++ item' :: withReplacements rest decisions))
            fun item' obeysItem' => obeysWhole _ <| List.forall_mem_append.mpr
              ⟨fun part member => obeysDone part (List.mem_reverse.mp member),
                List.forall_mem_cons.mpr ⟨obeysItem', obeysBehind⟩⟩
          rw [reviseNested] at failed
          cases ended : (reviseWithin revise (fun item' =>
              whole (done.reverse ++ item' :: withReplacements rest decisions)) item).failure with
          | some other =>
              simp only [ended, Option.some.injEq] at failed
              exact ⟨item, by simp, fails fault (failed ▸ ended)⟩
          | none =>
              simp only [ended] at failed
              exact later _ (obeysRevised ended) failed

theorem failsIn_of_reviseWithin {tree : Tree} {whole : Tree → Tree}
    (anyTag : ∀ text, law.tag text)
    (obeysWhole : ∀ tree, tree.Obeys law → (whole tree).Obeys law)
    (replacements : ∀ item item', revise.Replaces item item' → item.Obeys law → item'.Obeys law)
    (obeys : tree.Obeys law) (failed : (reviseWithin revise whole tree).failure = some fault) :
    revise.FailsIn law tree fault := by
  induction tree generalizing whole fault with
  | atom text => simp [reviseWithin] at failed
  | list items ih =>
      have obeysItems := (obeys_list_iff anyTag).mp obeys
      have obeysWholeItems : ∀ items', (∀ item ∈ items', item.Obeys law) →
          (whole (.list items')).Obeys law :=
        fun items' obeysItems' => obeysWhole _ ((obeys_list_iff anyTag).mpr obeysItems')
      have inItem : ∀ item ∈ items, revise.FailsIn law item fault →
          revise.FailsIn law (.list items) fault := by
        rintro item member ⟨context, part, inPart, fails⟩
        exact ⟨context, part, mem_subtrees_of_mem member inPart, fails⟩
      rw [reviseWithin] at failed
      cases decided : (reviseItems revise (fun items' => whole (.list items')) [] items).2 with
      | some other =>
          simp only [decided, Option.some.injEq] at failed
          obtain ⟨item, member, fails⟩ := failsIn_of_reviseItems obeysWholeItems replacements
            (by simp) obeysItems (failed ▸ decided)
          exact inItem item member fails
      | none =>
          simp only [decided] at failed
          obtain ⟨item, member, fails⟩ := failsIn_of_reviseNested (fun item member obeysItem whole'
            obeysWhole' => ⟨fun _ => ih item member obeysWhole' obeysItem, fun succeeded =>
              ((reviseWithin_rewritten succeeded).obeys fun _ _ replaces obeysPart =>
                ⟨replacements _ _ replaces obeysPart, fun text _ => anyTag text⟩).2 obeysItem⟩)
            obeysWholeItems replacements (by simp) obeysItems (reviseItems_decides decided) failed
          exact inItem item member fails

/-- A revision that stops early stopped at an item of the tree.  What the reviser
was shown there obeys every law on atoms that the tree and the replacements
obey. -/
theorem failsIn_of_revise {tree : Tree} (anyTag : ∀ text, law.tag text)
    (replacements : ∀ item item', revise.Replaces item item' → item.Obeys law → item'.Obeys law)
    (obeys : tree.Obeys law) (failed : (tree.revise revise).failure = some fault) :
    revise.FailsIn law tree fault :=
  failsIn_of_reviseWithin anyTag (fun _ obeysTree => obeysTree) replacements obeys failed

end Tree

/-! ## Passes -/

namespace Pass.Effect

variable {law : NodeLaw} {loads : Tree → Prop} {pass : Pass} {module module' : Tree}

/-- A module obeys a law if another one does and all its items obey it. -/
theorem obeys_of_items (isModule : module.isModule = true) (isModule' : module'.isModule = true)
    (obeys : module.Obeys law) (items : ∀ item ∈ module'.items, item.Obeys law) :
    module'.Obeys law := by
  obtain ⟨rest, rfl⟩ := isModule_iff.mp isModule
  obtain ⟨rest', rfl⟩ := isModule_iff.mp isModule'
  exact Tree.obeys_tagged.mpr
    ⟨(Tree.obeys_tagged.mp obeys).1, fun item member => items item (by simp [Tree.items, member])⟩

theorem obeys_inlinedForm (accepts : ∀ text, Pass.Inserts .inlineData text → law.Accepts text)
    {form form' : Tree} (inlined : InlinedForm form form') (obeys : form.Obeys law) :
    form'.Obeys law := by
  rcases inlined.cases with ⟨-, rfl⟩ | ⟨rest, rest', rfl, rfl, inlinedItems⟩
  · exact obeys
  · obtain ⟨tag, items⟩ := Tree.obeys_tagged.mp obeys
    refine Tree.obeys_tagged.mpr ⟨tag, fun item' member => ?_⟩
    obtain ⟨item, inRest, inlinedItem⟩ := exists_of_mem_forall₂ inlinedItems member
    cases inlinedItem with
    | kept _ => exact items item' inRest
    | literal bytes _ => exact Tree.obeys_atom.mpr (accepts _ (.data bytes)).1

theorem obeys_raised (accepts : ∀ text, Pass.Inserts .sizeMemories text → law.Accepts text)
    {pages : Int} {form form' : Tree} (raised : Memory.Raised pages form form')
    (obeys : form.Obeys law) : form'.Obeys law := by
  obtain ⟨-, -, -, -⟩ := raised
  obtain ⟨tag, items⟩ := Tree.obeys_tagged.mp obeys
  refine Tree.obeys_tagged.mpr ⟨tag, fun item member => ?_⟩
  simp only [List.mem_append, List.mem_cons] at items member
  rcases member with inFront | rfl | behind
  · exact items item (.inl inFront)
  · exact Tree.obeys_atom.mpr (accepts _ (.pages pages)).1
  · exact items item (.inr (.inr behind))

/-- An item obeys a law if its old form did and its new declaration does. -/
theorem obeys_replaceDeclaration {kind : String} {item form' : Tree} {declaration : Declaration}
    (declares : Module.declaration? kind item = some declaration) (obeys : item.Obeys law)
    (obeysForm : declaration.form.Obeys law → form'.Obeys law) :
    (Module.replaceDeclaration kind form' item).Obeys law := by
  rcases Module.declaration?_cases declares with
    ⟨rest, rfl, -, found⟩ | ⟨notImport, -, rfl⟩
  · rw [Module.replaceDeclaration_import]
    obtain ⟨tag, items⟩ := Tree.obeys_tagged.mp obeys
    have inRest := List.mem_of_find?_eq_some found
    refine Tree.obeys_tagged.mpr ⟨tag, fun other member => ?_⟩
    rcases Module.mem_replaceFirst member with isForm | kept
    · exact isForm ▸ obeysForm (items _ inRest)
    · exact items other kept
  · simpa [Module.replaceDeclaration, notImport] using obeysForm obeys

theorem obeys_folded (accepts : ∀ text, Pass.Inserts .foldConstants text → law.Accepts text)
    {before : List Global} (rewritten : Rewritten (Constant.foldReviser before).Keeps
      (Constant.foldReviser before).Replaces module module') (obeys : module.Obeys law) :
    module'.Obeys law := by
  refine (rewritten.obeys fun item item' replaces _ => ?_).2 obeys
  obtain ⟨type, value, -, rfl⟩ := exists_of_foldReviser_replaces replaces
  refine ⟨Tree.obeys_tagged.mpr ⟨accepts _ (.constantTag type), ?_⟩, by simp [Tree.form, Tree.text?]⟩
  exact List.forall_mem_singleton.mpr (Tree.obeys_atom.mpr (accepts _ (.constant value)).1)

theorem obeys_sized (accepts : ∀ text, Pass.Inserts .sizeMemories text → law.Accepts text)
    (succeeded : (Module.sizeMemories module).failure = none)
    (items : ∀ item ∈ module.items, item.Obeys law) :
    ∀ item' ∈ (Module.sizeMemories module).module.items, item'.Obeys law := by
  obtain ⟨extents, events, grown, -, fitted, module_eq⟩ := Module.sizeMemories_cases succeeded
  rw [module_eq]
  intro item' member
  obtain ⟨item, inModule, changed⟩ :=
    exists_of_mem_forall₂ (Module.mapIndexSpace_forall₂ module) member
  have obeysItem := items item inModule
  rcases changed with ⟨-, rfl⟩ | ⟨index, declaration, declares, found, rfl⟩
  · exact obeysItem
  · refine obeys_replaceDeclaration declares obeysItem fun obeysForm => ?_
    rcases Module.grownForm_cases fitted found with same | ⟨pages, raised⟩
    · rw [same]
      exact obeysForm
    · exact obeys_raised accepts raised obeysForm

theorem obeys_startFunction (accepts : ∀ text, Pass.Inserts .mergeStarts text → law.Accepts text)
    {identifier : String} {targets : List String} (isName : Pass.Inserts .mergeStarts identifier)
    (obeysTargets : ∀ target ∈ targets, law.atom target) :
    (startFunction identifier targets).Obeys law := by
  refine Tree.obeys_tagged.mpr ⟨accepts _ (.keyword (by simp)), List.forall_mem_cons.mpr ⟨?_, ?_⟩⟩
  · exact Tree.obeys_atom.mpr (accepts _ isName).1
  · intro call member
    obtain ⟨target, isTarget, rfl⟩ := List.mem_map.mp member
    refine Tree.obeys_tagged.mpr ⟨accepts _ (.keyword (by simp)), ?_⟩
    simpa using Tree.obeys_atom.mpr (obeysTargets target isTarget)

theorem obeys_startsMerged (accepts : ∀ text, Pass.Inserts .mergeStarts text → law.Accepts text)
    (merges : Module.StartsMerged module module') (items : ∀ item ∈ module.items, item.Obeys law) :
    ∀ item ∈ module'.items, item.Obeys law := by
  cases merges with
  | same _ => exact items
  | @merged identifier targets found free =>
      have isName : Pass.Inserts .mergeStarts identifier := inserts_of_freshIdentifier free
      have obeysTargets : ∀ target ∈ targets, law.atom target := by
        intro target member
        obtain ⟨form, isStart, inForm⟩ := Module.exists_start_of_mem found member
        exact Tree.obeys_atom.mp ((items form (List.mem_of_mem_filter isStart)).items _ inForm)
      refine List.forall_mem_append.mpr ⟨fun item member => ?_, ?_⟩
      · exact items item (List.mem_of_mem_filter member)
      · refine List.forall_mem_cons.mpr ⟨obeys_startFunction accepts isName obeysTargets, ?_⟩
        refine List.forall_mem_singleton.mpr (Tree.obeys_tagged.mpr ⟨?_, ?_⟩)
        · exact accepts _ (.keyword (by simp))
        · exact List.forall_mem_singleton.mpr (Tree.obeys_atom.mpr (accepts _ isName).1)

/-- A pass keeps a law that accepts all it inserts. -/
theorem obeys (effect : pass.Effect loads module module') (isModule : module.isModule = true)
    (accepts : ∀ text, pass.Inserts text → law.Accepts text)
    (loaded : pass = .expandImports → ∀ file, loads file → file.Obeys law)
    (obeys : module.Obeys law) : module'.Obeys law := by
  have isModule' := effect.isModule isModule
  cases effect with
  | expandImports expanded =>
      refine obeys_of_items isModule isModule' obeys fun item member => ?_
      rcases expanded.sources item member with own | ⟨file, isLoaded, inFile⟩
      · exact obeys.items item own
      · exact (loaded rfl file isLoaded).items item inFile
  | inlineData inlined =>
      refine obeys_of_items isModule isModule' obeys fun item' member => ?_
      obtain ⟨item, inModule, inlinedForm⟩ := exists_of_mem_forall₂ inlined member
      exact obeys_inlinedForm accepts inlinedForm (obeys.items item inModule)
  | decimalNumerals rewritten =>
      refine (rewritten.obeys fun item item' replaces _ => ?_).2 obeys
      obtain ⟨text, inserted, -, -, rfl, isInserted⟩ := exists_of_decimalReviser_replaces replaces
      have accepted := accepts _ isInserted
      exact ⟨Tree.obeys_atom.mpr accepted.1, by simpa [Tree.text?] using accepted.2⟩
  | foldConstants rewritten => exact obeys_folded accepts rewritten obeys
  | sizeMemories succeeded =>
      exact obeys_of_items isModule isModule' obeys (obeys_sized accepts succeeded obeys.items)
  | mergeStarts merges =>
      exact obeys_of_items isModule isModule' obeys (obeys_startsMerged accepts merges obeys.items)
  | sortForms =>
      refine obeys_of_items isModule isModule' obeys fun item member => ?_
      exact obeys.items item (Module.mem_sortForms_iff.mp member)

end Pass.Effect

end WatLink
