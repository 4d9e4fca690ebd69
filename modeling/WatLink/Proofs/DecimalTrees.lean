import WatLink.Proofs.DecimalTexts

/-!
# Passes over trees in decimal

A tree in decimal has the shape of the tree, so it declares the same things, each in
decimal.  Where rewriting numerals succeeds, its result is the tree in decimal, and
it succeeds on every list whose numerals can all be written.

Two revisers that decide alike about a tree and the tree in decimal make revisions
that go in lockstep.
-/

namespace WatLink

namespace Tree

mutual

/-- A tree with all its texts in decimal. -/
def inDecimal : Tree → Tree
  | .atom text => .atom (decimalText text)
  | .list items => .list (inDecimalItems items)

/-- Trees with all their texts in decimal. -/
def inDecimalItems : List Tree → List Tree
  | [] => []
  | item :: rest => item.inDecimal :: inDecimalItems rest

end

theorem inDecimalItems_eq_map (items : List Tree) : inDecimalItems items = items.map inDecimal := by
  induction items with
  | nil => rfl
  | cons item rest ih => rw [inDecimalItems, ih, List.map_cons]

@[simp] theorem inDecimal_atom (text : String) :
    (Tree.atom text).inDecimal = .atom (decimalText text) := by
  rw [inDecimal]

@[simp] theorem inDecimal_list (items : List Tree) :
    (Tree.list items).inDecimal = .list (items.map inDecimal) := by
  rw [inDecimal, inDecimalItems_eq_map]

@[simp] theorem items_inDecimal (tree : Tree) :
    tree.inDecimal.items = tree.items.map inDecimal := by
  cases tree <;> simp [items]

@[simp] theorem isList_inDecimal (tree : Tree) : tree.inDecimal.isList = tree.isList := by
  cases tree <;> simp [isList]

theorem text?_inDecimal (tree : Tree) : tree.inDecimal.text? = tree.text?.map decimalText := by
  cases tree <;> simp [text?]

theorem tag?_inDecimal (tree : Tree) : tree.inDecimal.tag? = tree.tag?.map decimalText := by
  cases tree with
  | atom text => simp [tag?]
  | list items =>
      cases items with
      | nil => simp [tag?]
      | cons item rest => cases item <;> simp [tag?]

theorem hasTag_inDecimal {word : String} (other : ¬ IsNumeral word) (tree : Tree) :
    tree.inDecimal.hasTag word = tree.hasTag word := by
  rw [hasTag, hasTag, tag?_inDecimal]
  cases tree.tag? with
  | none => rfl
  | some tag =>
      rw [Bool.eq_iff_iff]
      simp [decimalText_eq_iff other]

theorem hasTagIn_inDecimal {words : List String} (others : ∀ word ∈ words, ¬ IsNumeral word)
    (tree : Tree) : tree.inDecimal.hasTagIn words = tree.hasTagIn words := by
  rw [hasTagIn, hasTagIn, tag?_inDecimal]
  cases tree.tag? with
  | none => rfl
  | some tag =>
      rw [Option.map_some, Bool.eq_iff_iff, List.contains_iff_mem, List.contains_iff_mem]
      constructor
      · intro member
        rwa [(decimalText_eq_iff (others _ member)).mp rfl]
      · intro member
        rwa [decimalText_of_not_isNumeral (others _ member)]

theorem forms_inDecimal (tree : Tree) : tree.inDecimal.forms = tree.forms.map inDecimal := by
  have sameLists : isList ∘ inDecimal = isList := funext isList_inDecimal
  rw [forms, items_inDecimal, List.filter_map, sameLists, forms]

theorem find?_inDecimal {words : List String} (others : ∀ word ∈ words, ¬ IsNumeral word)
    (tree : Tree) : tree.inDecimal.find? words = (tree.find? words).map inDecimal := by
  have sameTags : (·.hasTagIn words) ∘ inDecimal = (·.hasTagIn words) :=
    funext (hasTagIn_inDecimal others)
  rw [find?, forms_inDecimal, List.find?_map, sameTags, find?]

theorem atoms_inDecimal (tree : Tree) : tree.inDecimal.atoms = tree.atoms.map decimalText := by
  have sameTexts : text? ∘ inDecimal = fun item => item.text?.map decimalText :=
    funext text?_inDecimal
  have mapped : ∀ items : List Tree,
      (items.map inDecimal).filterMap text? = (items.filterMap text?).map decimalText := by
    intro items
    rw [List.filterMap_map, sameTexts, List.map_filterMap]
  rw [atoms, atoms, tag?_inDecimal, items_inDecimal, ← List.map_tail, Option.isSome_map]
  split
  · exact mapped _
  · exact mapped _

theorem identifier?_inDecimal (tree : Tree) : tree.inDecimal.identifier? = tree.identifier? := by
  rw [identifier?, items_inDecimal, identifier?]
  rcases tree.items with _ | ⟨tag, _ | ⟨item, rest⟩⟩
  · rfl
  · rfl
  · cases item with
    | list inner => simp
    | atom text =>
        simp only [List.map_cons, inDecimal_atom, isIdentifier_decimalText]
        split
        · rename_i isName
          rw [decimalText_of_isIdentifier isName]
        · rfl

end Tree

/-! ## Declarations -/

/-- A declaration with its form in decimal. -/
def Declaration.inDecimal (declaration : Declaration) : Declaration :=
  ⟨declaration.form.inDecimal, declaration.imported⟩

namespace Module

variable {kind : String}

theorem hasInlineImport_inDecimal (form : Tree) :
    hasInlineImport form.inDecimal = hasInlineImport form := by
  rw [hasInlineImport, hasInlineImport, Tree.hasTagIn_inDecimal (by decide),
    Tree.find?_inDecimal (by decide), Option.isSome_map]

theorem declaration?_inDecimal (other : ¬ IsNumeral kind) (item : Tree) :
    declaration? kind item.inDecimal = (declaration? kind item).map Declaration.inDecimal := by
  rw [declaration?, declaration?, Tree.hasTag_inDecimal (by decide), Tree.hasTag_inDecimal other,
    Tree.find?_inDecimal (by simpa using other), hasInlineImport_inDecimal]
  split
  · rw [Option.map_map, Option.map_map]
    rfl
  · split <;> rfl

theorem declarations_inDecimal (other : ¬ IsNumeral kind) (module : Tree) :
    declarations module.inDecimal kind = (declarations module kind).map Declaration.inDecimal := by
  have sameDeclarations : declaration? kind ∘ Tree.inDecimal =
      fun item => (declaration? kind item).map Declaration.inDecimal :=
    funext (declaration?_inDecimal other)
  rw [declarations, Tree.items_inDecimal, List.filterMap_map, sameDeclarations, declarations,
    List.map_filterMap]

theorem indexSpace_inDecimal (other : ¬ IsNumeral kind) (module : Tree) :
    indexSpace module.inDecimal kind = (indexSpace module kind).map Declaration.inDecimal := by
  simp only [indexSpace, declarations_inDecimal other, List.filter_map, List.map_append]
  rfl

theorem replaceFirst_inDecimal (other : ¬ IsNumeral kind) (replacement : Tree) (items : List Tree) :
    replaceFirst kind replacement.inDecimal (items.map Tree.inDecimal) =
      (replaceFirst kind replacement items).map Tree.inDecimal := by
  induction items with
  | nil => rfl
  | cons item rest ih =>
      rw [List.map_cons, replaceFirst, replaceFirst, Tree.hasTag_inDecimal other]
      split
      · rfl
      · rw [ih, List.map_cons]

theorem replaceDeclaration_inDecimal (other : ¬ IsNumeral kind) (replacement item : Tree) :
    replaceDeclaration kind replacement.inDecimal item.inDecimal =
      (replaceDeclaration kind replacement item).inDecimal := by
  rw [replaceDeclaration, replaceDeclaration, Tree.hasTag_inDecimal (by decide)]
  split
  · rw [Tree.items_inDecimal, replaceFirst_inDecimal other, Tree.inDecimal_list]
  · rfl

section Changes

variable {change change' : Nat → Tree → Tree}

theorem mapDeclarations_inDecimal (other : ¬ IsNumeral kind)
    (alike : ∀ index form, change' index form.inDecimal = (change index form).inDecimal)
    (nextImported nextDefined : Nat) (items : List Tree) :
    mapDeclarations kind change' nextImported nextDefined (items.map Tree.inDecimal) =
      (mapDeclarations kind change nextImported nextDefined items).map Tree.inDecimal := by
  induction items generalizing nextImported nextDefined with
  | nil => rfl
  | cons item rest ih =>
      rw [List.map_cons, mapDeclarations, mapDeclarations, declaration?_inDecimal other]
      cases declaration? kind item with
      | none => simp [ih]
      | some declaration =>
          obtain ⟨form, imported⟩ := declaration
          cases imported <;>
            simp [Declaration.inDecimal, ih, alike, replaceDeclaration_inDecimal other]

theorem mapIndexSpace_inDecimal (other : ¬ IsNumeral kind)
    (alike : ∀ index form, change' index form.inDecimal = (change index form).inDecimal)
    (module : Tree) :
    mapIndexSpace module.inDecimal kind change' = (mapIndexSpace module kind change).inDecimal := by
  have sameCount : ((declarations module.inDecimal kind).filter (·.imported)).length =
      ((declarations module kind).filter (·.imported)).length := by
    rw [declarations_inDecimal other, List.filter_map, List.length_map]
    rfl
  simp only [mapIndexSpace, sameCount, Tree.items_inDecimal, Tree.inDecimal_list,
    mapDeclarations_inDecimal other alike]

end Changes

end Module

/-! ## Rewriting numerals -/

/-- The law that all numerals can be written in decimal. -/
def writableLaw : NodeLaw where
  atom text := ∀ fault, decimalSpelling? text ≠ some (.error fault)
  tag _ := True

theorem writableLaw_of_isBare {text : String} (bare : IsBare text) : writableLaw.Accepts text :=
  ⟨fun _ => by simp [bare.decimalSpelling?], trivial⟩

theorem keepsNumeral_atom_iff {text : String} :
    KeepsNumeral (.atom text) ↔ decimalSpelling? text = none := by
  constructor
  · intro keeps
    rcases keeps text rfl with isString | unspelled
    · by_contra spelled
      obtain ⟨keys, literal, keyed, -⟩ :=
        isSome_decimalSpelling?_iff.mp (Option.isSome_iff_ne_none.mpr spelled)
      simp [isStringLiteral_of_isNumeral ⟨keys, literal, keyed⟩] at isString
    · exact unspelled
  · rintro unspelled _ ⟨rfl⟩
    exact .inr unspelled

theorem replacesNumeral_of_spelling {text decimal : String}
    (spelled : decimalSpelling? text = some (.ok decimal)) :
    ReplacesNumeral (.atom text) (.atom decimal) := by
  obtain ⟨keys, literal, keyed, -⟩ := exists_of_spelling spelled
  exact ⟨text, decimal, rfl, isStringLiteral_of_isNumeral ⟨keys, literal, keyed⟩, spelled, rfl⟩

theorem eq_inDecimal_of_rewritten {tree result : Tree}
    (rewritten : Rewritten KeepsNumeral ReplacesNumeral tree result) (keeps : KeepsNumeral tree) :
    tree.Obeys writableLaw ∧ result = tree.inDecimal := by
  induction rewritten with
  | atom =>
      have unspelled := keepsNumeral_atom_iff.mp keeps
      rw [Tree.inDecimal_atom, decimalText_of_eq_none unspelled]
      exact ⟨Tree.obeys_atom.mpr fun _ => by simp [unspelled], rfl⟩
  | nil => exact ⟨Tree.obeys_list.mpr (by simp [writableLaw]), by simp⟩
  | kept keepsItem _ _ ihItem ihRest =>
      obtain ⟨obeysItem, rfl⟩ := ihItem keepsItem
      obtain ⟨obeysRest, rest_eq⟩ := ihRest fun _ => nofun
      refine ⟨Tree.obeys_list.mpr ⟨fun _ _ => trivial, ?_⟩, by simpa using rest_eq⟩
      exact List.forall_mem_cons.mpr ⟨obeysItem, obeysRest.items⟩
  | replaced replaces _ ihRest =>
      obtain ⟨text, decimal, rfl, -, spelled, rfl⟩ := replaces
      obtain ⟨obeysRest, rest_eq⟩ := ihRest fun _ => nofun
      refine ⟨Tree.obeys_list.mpr ⟨fun _ _ => trivial, ?_⟩, ?_⟩
      · exact List.forall_mem_cons.mpr
          ⟨Tree.obeys_atom.mpr fun _ => by simp [spelled], obeysRest.items⟩
      · simpa [decimalText_of_spelling spelled] using rest_eq

theorem rewritten_inDecimal {items : List Tree} (obeys : (Tree.list items).Obeys writableLaw) :
    Rewritten KeepsNumeral ReplacesNumeral (.list items) (Tree.list items).inDecimal := by
  -- Only the items of a list are rewritten, so the induction is on lists inside lists.
  suffices isRewritten : ∀ tree : Tree, tree.Obeys writableLaw → tree.isList = true →
      Rewritten KeepsNumeral ReplacesNumeral tree tree.inDecimal from isRewritten _ obeys rfl
  intro tree
  induction tree with
  | atom text => exact fun _ isList => by cases isList
  | list items ih =>
      intro obeys isList
      have obeysItems : ∀ item ∈ items, item.Obeys writableLaw := obeys.items
      rw [Tree.inDecimal_list]
      clear obeys isList
      induction items with
      | nil => exact .nil
      | cons item rest ihRest =>
          obtain ⟨obeysItem, obeysRest⟩ := List.forall_mem_cons.mp obeysItems
          have restRewritten := ihRest (fun other member => ih other (.tail _ member)) obeysRest
          cases item with
          | list inner => exact .kept (fun _ => nofun) (ih _ (by simp) obeysItem rfl) restRewritten
          | atom text =>
              rw [List.map_cons, Tree.inDecimal_atom]
              cases spelled : decimalSpelling? text with
              | none =>
                  rw [decimalText_of_eq_none spelled]
                  exact .kept (keepsNumeral_atom_iff.mpr spelled) .atom restRewritten
              | some spelling =>
                  cases spelling with
                  | error fault => exact absurd spelled (Tree.obeys_atom.mp obeysItem fault)
                  | ok decimal =>
                      rw [decimalText_of_spelling spelled]
                      exact .replaced (replacesNumeral_of_spelling spelled) restRewritten

/-- Rewriting the numerals of a list succeeds exactly if all of them can be
written, and then gives the list in decimal. -/
theorem decimalNumerals_list_iff {items : List Tree} :
    (Tree.list items).decimalNumerals.failure = none ↔ (Tree.list items).Obeys writableLaw := by
  constructor
  · intro succeeded
    exact (eq_inDecimal_of_rewritten (decimalNumerals_iff.mp ⟨succeeded, rfl⟩) fun _ => nofun).1
  · intro obeys
    exact (decimalNumerals_iff.mpr (rewritten_inDecimal obeys)).1

theorem decimalNumerals_list_tree {items : List Tree}
    (succeeded : (Tree.list items).decimalNumerals.failure = none) :
    (Tree.list items).decimalNumerals.tree = (Tree.list items).inDecimal :=
  (eq_inDecimal_of_rewritten (decimalNumerals_iff.mp ⟨succeeded, rfl⟩) fun _ => nofun).2

/-! ## Outcomes -/

section Outcomes

variable {ε ε' α β γ : Type}

theorem toOption_map (result : Except ε α) (change : α → β) :
    (result.map change).toOption = result.toOption.map change := by
  cases result <;> rfl

theorem toOption_mapError (result : Except ε α) (change : ε → ε') :
    (result.mapError change).toOption = result.toOption := by
  cases result <;> rfl

theorem toOption_bind (result : Except ε α) (next : α → Except ε β) :
    (result >>= next).toOption = result.toOption.bind fun value => (next value).toOption := by
  cases result <;> rfl

/-- Two outcomes that agree up to a change of the value are both values or both
errors. -/
theorem toOption_cases {result : Except ε α} {result' : Except ε' β} {change : α → β}
    (alike : result'.toOption = result.toOption.map change) :
    (∃ value, result = .ok value ∧ result' = .ok (change value)) ∨
      ∃ fault fault', result = .error fault ∧ result' = .error fault' := by
  cases result with
  | ok value =>
      cases result' with
      | ok value' => exact .inl ⟨value, rfl, by simpa [Except.toOption] using alike⟩
      | error fault' => simp [Except.toOption] at alike
  | error fault =>
      cases result' with
      | ok value' => simp [Except.toOption] at alike
      | error fault' => exact .inr ⟨fault, fault', rfl, rfl⟩

theorem toOption_eq_cases {result : Except ε α} {result' : Except ε' α}
    (alike : result'.toOption = result.toOption) :
    (∃ value, result = .ok value ∧ result' = .ok value) ∨
      ∃ fault fault', result = .error fault ∧ result' = .error fault' :=
  toOption_cases (alike.trans Option.map_id'.symm)

end Outcomes

/-! ## Revisions in lockstep -/

/-- Whether a reviser decides about an item in decimal as another one does about the
item: it keeps both, replaces them by a tree and that tree in decimal, or fails at
both. -/
def Reviser.Follows {ε : Type} (revise' revise : Reviser ε) : Prop :=
  ∀ (whole whole' : Tree → Tree) (item : Tree), whole' item.inDecimal = (whole item).inDecimal →
    (revise' whole' item.inDecimal).map Except.toOption =
      (revise whole item).map fun outcome => outcome.toOption.map Tree.inDecimal

theorem Reviser.Follows.cases {ε : Type} {revise revise' : Reviser ε}
    (follows : revise'.Follows revise) {whole whole' : Tree → Tree} {item : Tree}
    (alike : whole' item.inDecimal = (whole item).inDecimal) :
    (revise whole item = none ∧ revise' whole' item.inDecimal = none) ∨
      (∃ replacement, revise whole item = some (.ok replacement) ∧
        revise' whole' item.inDecimal = some (.ok replacement.inDecimal)) ∨
      ∃ fault fault', revise whole item = some (.error fault) ∧
        revise' whole' item.inDecimal = some (.error fault') := by
  have decided := follows whole whole' item alike
  generalize revise whole item = outcome at decided ⊢
  generalize revise' whole' item.inDecimal = outcome' at decided ⊢
  cases outcome with
  | none =>
      cases outcome' with
      | none => exact .inl ⟨rfl, rfl⟩
      | some result' => simp at decided
  | some result =>
      cases outcome' with
      | none => simp at decided
      | some result' =>
          right
          rcases toOption_cases (Option.some.inj decided) with
            ⟨replacement, rfl, rfl⟩ | ⟨fault, fault', rfl, rfl⟩
          · exact .inl ⟨replacement, rfl, rfl⟩
          · exact .inr ⟨fault, fault', rfl, rfl⟩

/-- Two revisions that fail alike both finish or both stop. -/
theorem failure_cases {ε : Type} {failure failure' : Option ε}
    (alike : failure'.isSome = failure.isSome) :
    (failure = none ∧ failure' = none) ∨
      ∃ fault fault', failure = some fault ∧ failure' = some fault' := by
  cases failure <;> cases failure' <;> simp at alike ⊢

namespace Tree

variable {ε : Type} {revise revise' : Reviser ε} {whole whole' : List Tree → Tree}

theorem reviseItems_inDecimal (follows : revise'.Follows revise)
    (alike : ∀ items, whole' (items.map inDecimal) = (whole items).inDecimal)
    (done items : List Tree) :
    (reviseItems revise' whole' (done.map inDecimal) (items.map inDecimal)).1 =
        (reviseItems revise whole done items).1.map (Option.map inDecimal) ∧
      (reviseItems revise' whole' (done.map inDecimal) (items.map inDecimal)).2.isSome =
        (reviseItems revise whole done items).2.isSome := by
  induction items generalizing done with
  | nil => exact ⟨rfl, rfl⟩
  | cons item rest ih =>
      have alikeItem : whole' ((done.map inDecimal).reverse ++ item.inDecimal :: rest.map inDecimal) =
          (whole (done.reverse ++ item :: rest)).inDecimal := by
        simpa using alike (done.reverse ++ item :: rest)
      rw [List.map_cons, reviseItems, reviseItems]
      rcases @Reviser.Follows.cases _ _ _ follows
          (fun item' => whole (done.reverse ++ item' :: rest))
          (fun item' => whole' ((done.map inDecimal).reverse ++ item' :: rest.map inDecimal))
          item alikeItem with
        ⟨kept, kept'⟩ | ⟨replacement, replaced, replaced'⟩ | ⟨_, _, failed, failed'⟩
      · simpa [kept, kept'] using ih (item :: done)
      · simpa [replaced, replaced'] using ih (replacement :: done)
      · simp [failed, failed', Function.comp_def]

theorem withReplacements_inDecimal (items : List Tree) (replacements : List (Option Tree)) :
    withReplacements (items.map inDecimal) (replacements.map (Option.map inDecimal)) =
      (withReplacements items replacements).map inDecimal := by
  induction items generalizing replacements with
  | nil => rfl
  | cons item rest ih =>
      cases replacements with
      | nil => rfl
      | cons replacement? replacements =>
          cases replacement? <;> simp [withReplacements, ih]

theorem reviseNested_inDecimal {items : List Tree} {replacements : List (Option Tree)}
    (inside : ∀ item ∈ items, ∀ whole whole' : Tree → Tree,
      (∀ tree, whole' tree.inDecimal = (whole tree).inDecimal) →
        (reviseWithin revise' whole' item.inDecimal).tree =
            (reviseWithin revise whole item).tree.inDecimal ∧
          (reviseWithin revise' whole' item.inDecimal).failure.isSome =
            (reviseWithin revise whole item).failure.isSome)
    (alike : ∀ items, whole' (items.map inDecimal) = (whole items).inDecimal) (done : List Tree) :
    (reviseNested revise' whole' (done.map inDecimal) (items.map inDecimal)
          (replacements.map (Option.map inDecimal))).1 =
        (reviseNested revise whole done items replacements).1.map inDecimal ∧
      (reviseNested revise' whole' (done.map inDecimal) (items.map inDecimal)
          (replacements.map (Option.map inDecimal))).2.2.isSome =
        (reviseNested revise whole done items replacements).2.2.isSome := by
  induction items generalizing done replacements with
  | nil => simp [reviseNested]
  | cons item rest ih =>
      have insideRest := fun other member => inside other (List.mem_cons_of_mem item member)
      rcases replacements with _ | ⟨_ | replacement, replacements⟩
      · simp [reviseNested]
      · obtain ⟨sameTree, sameFailure⟩ := inside item (by simp)
          (fun item' => whole (done.reverse ++ item' :: withReplacements rest replacements))
          (fun item' => whole' ((done.map inDecimal).reverse ++ item' ::
            withReplacements (rest.map inDecimal) (replacements.map (Option.map inDecimal))))
          (fun tree => by
            simpa [withReplacements_inDecimal] using
              alike (done.reverse ++ tree :: withReplacements rest replacements))
        rw [List.map_cons, List.map_cons, Option.map_none, reviseNested, reviseNested]
        rcases failure_cases sameFailure with ⟨ended, ended'⟩ | ⟨_, _, failed, failed'⟩
        · simpa only [ended, ended', sameTree, List.map_cons, List.cons.injEq, true_and] using
            @ih replacements insideRest (_ :: done)
        · simp only [failed, failed', sameTree]
          simp [withReplacements_inDecimal]
      · simpa [reviseNested] using @ih replacements insideRest (replacement :: done)

theorem reviseWithin_inDecimal (follows : revise'.Follows revise) (tree : Tree)
    {whole whole' : Tree → Tree} (alike : ∀ tree, whole' tree.inDecimal = (whole tree).inDecimal) :
    (reviseWithin revise' whole' tree.inDecimal).tree =
        (reviseWithin revise whole tree).tree.inDecimal ∧
      (reviseWithin revise' whole' tree.inDecimal).failure.isSome =
        (reviseWithin revise whole tree).failure.isSome := by
  induction tree generalizing whole whole' with
  | atom text => simp [reviseWithin]
  | list items ih =>
      have alikeItems : ∀ items : List Tree,
          whole' (.list (items.map inDecimal)) = (whole (.list items)).inDecimal := by
        intro items
        rw [← alike, inDecimal_list]
      obtain ⟨sameItems, sameFailure⟩ := @reviseItems_inDecimal _ _ _
        (fun items => whole (.list items)) (fun items => whole' (.list items)) follows alikeItems
        [] items
      have nested := @reviseNested_inDecimal _ revise revise'
        (fun items => whole (.list items)) (fun items => whole' (.list items)) items
        (reviseItems revise (fun items => whole (.list items)) [] items).1
        (fun item member _ _ => ih item member) alikeItems []
      rw [inDecimal_list, reviseWithin, reviseWithin]
      rw [List.map_nil] at sameItems sameFailure nested
      simp only [sameItems]
      rcases failure_cases sameFailure with ⟨ended, ended'⟩ | ⟨_, _, failed, failed'⟩
      · simpa [ended, ended'] using nested
      · simp [failed, failed', withReplacements_inDecimal]

theorem revise_inDecimal (follows : revise'.Follows revise) (tree : Tree) :
    (tree.inDecimal.revise revise').tree = (tree.revise revise).tree.inDecimal ∧
      (tree.inDecimal.revise revise').failure.isSome = (tree.revise revise).failure.isSome :=
  reviseWithin_inDecimal follows tree fun _ => rfl

end Tree

end WatLink
