import WatLink.Proofs.RevisionOrder
import WatLink.Proofs.TreeTraversals

/-!
# Stages of a revision

A revision makes one replacement after the other, and its reviser is shown the whole
tree as it stands.  The trees that it goes through are its stages.

Replacements are told apart by their addresses.  A revision that does not stop early
replaces the outermost nodes that its reviser does not keep, list by list, so the
stage of a replacement is the tree in which exactly those before it have been made.
-/

namespace WatLink

namespace Tree

/-! ## Replacing a node -/

/-- The tree with another node at an address. -/
def replaceAt (tree : Tree) : List Nat → Tree → Tree
  | [], node => node
  | position :: address, node =>
      if tree.isList then .list (tree.items.modify position (·.replaceAt address node)) else tree

variable {tree node : Tree} {address other : List Nat}

theorem replaceAt_append (before after : List Tree) (item : Tree) (address : List Nat)
    (node : Tree) :
    (list (before ++ item :: after)).replaceAt (before.length :: address) node =
      .list (before ++ item.replaceAt address node :: after) := by
  simp [replaceAt, isList, Tree.items, List.modify_eq_take_drop]

theorem nodeAt?_append (before after : List Tree) (item : Tree) (address : List Nat) :
    (list (before ++ item :: after)).nodeAt? (before.length :: address) = item.nodeAt? address := by
  simp [nodeAt?, Tree.items]

theorem nodeAt?_replaceAt_self {item : Tree} (found : tree.nodeAt? address = some item) :
    (tree.replaceAt address node).nodeAt? address = some node := by
  induction address generalizing tree with
  | nil => rfl
  | cons position address ih =>
      cases tree with
      | atom text => cases found
      | list items =>
          obtain ⟨inner, isItem, found⟩ := Option.bind_eq_some_iff.mp found
          rw [Tree.items] at isItem
          simpa [replaceAt, nodeAt?, isList, Tree.items, isItem] using ih found

theorem replaceAt_self {item : Tree} (found : tree.nodeAt? address = some item) :
    tree.replaceAt address item = tree := by
  induction address generalizing tree with
  | nil => exact (Option.some.inj found).symm
  | cons position address ih =>
      cases tree with
      | atom text => cases found
      | list items =>
          obtain ⟨inner, isItem, found⟩ := Option.bind_eq_some_iff.mp found
          rw [Tree.items] at isItem
          refine congrArg Tree.list (List.ext_getElem? fun index => ?_)
          rw [Tree.items, List.getElem?_modify]
          by_cases same : position = index
          · subst same
            simp [isItem, ih found]
          · simp [same]

/-- Replacing a node changes nothing at an address that neither leads to the node nor
into it. -/
theorem nodeAt?_replaceAt_of_apart (notAbove : ¬ other <+: address)
    (notBelow : ¬ address <+: other) :
    (tree.replaceAt address node).nodeAt? other = tree.nodeAt? other := by
  induction address generalizing tree other with
  | nil => exact absurd List.nil_prefix notBelow
  | cons position address ih =>
      cases other with
      | nil => exact absurd List.nil_prefix notAbove
      | cons position' other =>
          cases tree with
          | atom text => rfl
          | list items =>
              simp only [replaceAt, nodeAt?, isList, Tree.items, if_true, List.getElem?_modify]
              by_cases same : position = position'
              · subst same
                rw [List.cons_prefix_cons] at notAbove notBelow
                have inside : ∀ item : Tree,
                    (item.replaceAt address node).nodeAt? other = item.nodeAt? other :=
                  fun item => ih (fun leads => notAbove ⟨rfl, leads⟩)
                    fun leads => notBelow ⟨rfl, leads⟩
                cases items[position]? with
                | none => rfl
                | some item => simpa using inside item
              · simp [same]

end Tree

/-! ## Steps -/

/-- A replacement of the node at an address. -/
structure Replacement where
  address : List Nat
  item : Tree
  replacement : Tree

/-- A replacement inside an item, seen from the list in which the item has a
position. -/
def Replacement.below (position : Nat) (step : Replacement) : Replacement :=
  { step with address := position :: step.address }

namespace Reviser

variable {ε : Type} {revise : Reviser ε} {whole : Tree → Tree} {tree tree' result : Tree}
  {steps rest : List Replacement}

/-- Replacements that are made one after the other, each decided in the whole tree as it
stands. -/
inductive Steps (revise : Reviser ε) (whole : Tree → Tree) :
    Tree → List Replacement → Tree → Prop
  | nil {tree : Tree} : Steps revise whole tree [] tree
  | cons {tree result : Tree} {step : Replacement} {rest : List Replacement} :
      tree.nodeAt? step.address = some step.item →
        revise (fun node => whole (tree.replaceAt step.address node)) step.item =
            some (.ok step.replacement) →
          Steps revise whole (tree.replaceAt step.address step.replacement) rest result →
            Steps revise whole tree (step :: rest) result

theorem Steps.append (first : Steps revise whole tree steps tree')
    (second : Steps revise whole tree' rest result) :
    Steps revise whole tree (steps ++ rest) result := by
  induction first with
  | nil => exact second
  | cons found decided _ ih => exact .cons found decided (ih second)

/-- Steps inside an item are steps of the list. -/
theorem Steps.inItem {before after : List Tree} {item item' : Tree}
    (inside : Steps revise (fun item => whole (.list (before ++ item :: after))) item steps item') :
    Steps revise whole (.list (before ++ item :: after)) (steps.map (.below before.length))
      (.list (before ++ item' :: after)) := by
  induction inside with
  | nil => exact .nil
  | @cons item result step rest found decided _ ih =>
      have replaced : ∀ node, (Tree.list (before ++ item :: after)).replaceAt
          (before.length :: step.address) node =
            .list (before ++ item.replaceAt step.address node :: after) :=
        Tree.replaceAt_append before after item step.address
      refine .cons ?_ ?_ ?_
      · exact (Tree.nodeAt?_append before after item step.address).trans found
      · simp only [Replacement.below, replaced]
        exact decided
      · simp only [Replacement.below, replaced]
        exact ih

/-- The item of a list is replaced in one step. -/
theorem Steps.item {before after : List Tree} {item replacement : Tree}
    (decided : revise (fun node => whole (.list (before ++ node :: after))) item =
      some (.ok replacement)) :
    Steps revise whole (.list (before ++ item :: after)) [⟨[before.length], item, replacement⟩]
      (.list (before ++ replacement :: after)) :=
  @Steps.inItem _ _ _ [⟨[], item, replacement⟩] _ _ _ _ (.cons rfl decided .nil)

end Reviser

namespace Tree

/-! ## Outermost nodes -/

/-- The addresses of the items of a kind, of which the first has the given position. -/
def itemAddresses (kind : Tree → Bool) (position : Nat) : List Tree → List (List Nat)
  | [] => []
  | item :: rest =>
      (if kind item then [[position]] else []) ++ itemAddresses kind (position + 1) rest

mutual

/-- The addresses of the outermost nodes below the root that are of a kind, list by
list. -/
def outermostAddresses (kind : Tree → Bool) : Tree → List (List Nat)
  | .atom _ => []
  | .list items => itemAddresses kind 0 items ++ innerAddresses kind 0 items

/-- The addresses of the outermost nodes of a kind inside the items of other kinds. -/
def innerAddresses (kind : Tree → Bool) (position : Nat) : List Tree → List (List Nat)
  | [] => []
  | item :: rest =>
      (if kind item then [] else (outermostAddresses kind item).map (position :: ·)) ++
        innerAddresses kind (position + 1) rest

end

/-- Whether an address is that of an outermost node of a kind below the root. -/
def OutermostAt (kind : Tree → Bool) (tree : Tree) (address : List Nat) : Prop :=
  address ≠ [] ∧ (∃ node ∈ tree.nodeAt? address, kind node = true) ∧
    ∀ above node, above ≠ [] → above <+: address → above ≠ address →
      tree.nodeAt? above = some node → kind node = false

section Outermost

variable {kind : Tree → Bool} {position : Nat} {items : List Tree} {address : List Nat}

theorem nodeAt?_cons {item : Tree} (isItem : items[position]? = some item) :
    (list items).nodeAt? (position :: address) = item.nodeAt? address := by
  rw [nodeAt?, Tree.items, isItem, Option.bind_some]

theorem outermostAt_cons_iff :
    OutermostAt kind (.list items) (position :: address) ↔
      ∃ item, items[position]? = some item ∧
        (address = [] ∧ kind item = true ∨ kind item = false ∧ OutermostAt kind item address) := by
  constructor
  · rintro ⟨-, ⟨node, found, isKind⟩, outermost⟩
    obtain ⟨item, isItem, found⟩ := Option.bind_eq_some_iff.mp found
    refine ⟨item, isItem, ?_⟩
    by_cases isLast : address = []
    · subst isLast
      cases found
      exact .inl ⟨rfl, isKind⟩
    · refine .inr ⟨?_, isLast, ⟨node, found, isKind⟩, ?_⟩
      · refine outermost [position] item (List.cons_ne_nil _ _) ?_ ?_ (nodeAt?_cons isItem)
        · exact List.cons_prefix_cons.mpr ⟨rfl, List.nil_prefix⟩
        · simpa using Ne.symm isLast
      · intro above node' nonempty leads other found'
        refine outermost (position :: above) node' (List.cons_ne_nil _ _) ?_ ?_ ?_
        · exact List.cons_prefix_cons.mpr ⟨rfl, leads⟩
        · simpa using other
        · exact (nodeAt?_cons isItem).trans found'
  · rintro ⟨item, isItem, (⟨rfl, isKind⟩ | ⟨notKind, nonempty, ⟨node, found, isKind⟩, outermost⟩)⟩
    · refine ⟨List.cons_ne_nil _ _, ⟨item, nodeAt?_cons isItem, isKind⟩, ?_⟩
      intro above node nonempty leads other
      obtain ⟨first, above, rfl⟩ := List.exists_cons_of_ne_nil nonempty
      obtain ⟨rfl, leadsInside⟩ := List.cons_prefix_cons.mp leads
      cases List.prefix_nil.mp leadsInside
      exact absurd rfl other
    · refine ⟨List.cons_ne_nil _ _, ⟨node, (nodeAt?_cons isItem).trans found, isKind⟩, ?_⟩
      intro above node' nonempty' leads other found'
      obtain ⟨first, above, rfl⟩ := List.exists_cons_of_ne_nil nonempty'
      obtain ⟨rfl, leadsInside⟩ := List.cons_prefix_cons.mp leads
      rw [nodeAt?_cons isItem] at found'
      by_cases isItself : above = []
      · subst isItself
        cases found'
        exact notKind
      · exact outermost above node' isItself leadsInside (by simpa using other) found'

theorem mem_itemAddresses :
    address ∈ itemAddresses kind position items ↔
      ∃ index item, items[index]? = some item ∧ kind item = true ∧
        address = [position + index] := by
  induction items generalizing position with
  | nil => simp [itemAddresses]
  | cons first rest ih =>
      rw [itemAddresses, List.mem_append, ih]
      constructor
      · rintro (isFirst | ⟨index, item, isItem, isKind, rfl⟩)
        · split at isFirst
          · exact ⟨0, first, rfl, ‹_›, List.mem_singleton.mp isFirst⟩
          · cases isFirst
        · refine ⟨index + 1, item, isItem, isKind, ?_⟩
          rw [Nat.add_right_comm, Nat.add_assoc]
      · rintro ⟨index, item, isItem, isKind, rfl⟩
        cases index with
        | zero =>
            cases isItem
            exact .inl (by simp [isKind])
        | succ index =>
            refine .inr ⟨index, item, isItem, isKind, ?_⟩
            rw [Nat.add_right_comm, Nat.add_assoc]

theorem mem_innerAddresses :
    address ∈ innerAddresses kind position items ↔
      ∃ index item inner, items[index]? = some item ∧ kind item = false ∧
        inner ∈ item.outermostAddresses kind ∧ address = (position + index) :: inner := by
  induction items generalizing position with
  | nil => simp [innerAddresses]
  | cons first rest ih =>
      rw [innerAddresses, List.mem_append, ih]
      constructor
      · rintro (inFirst | ⟨index, item, inner, isItem, notKind, member, rfl⟩)
        · split at inFirst
          · cases inFirst
          · obtain ⟨inner, member, rfl⟩ := List.mem_map.mp inFirst
            exact ⟨0, first, inner, rfl, Bool.eq_false_iff.mpr ‹_›, member, rfl⟩
        · refine ⟨index + 1, item, inner, isItem, notKind, member, ?_⟩
          rw [Nat.add_right_comm, Nat.add_assoc]
      · rintro ⟨index, item, inner, isItem, notKind, member, rfl⟩
        cases index with
        | zero =>
            cases isItem
            exact .inl (by simpa [notKind] using member)
        | succ index =>
            refine .inr ⟨index, item, inner, isItem, notKind, member, ?_⟩
            rw [Nat.add_right_comm, Nat.add_assoc]

theorem mem_outermostAddresses {tree : Tree} :
    address ∈ tree.outermostAddresses kind ↔ tree.OutermostAt kind address := by
  induction tree generalizing address with
  | atom text =>
      refine ⟨fun member => (List.not_mem_nil member).elim, ?_⟩
      rintro ⟨nonempty, ⟨node, found, -⟩, -⟩
      obtain ⟨position, address, rfl⟩ := List.exists_cons_of_ne_nil nonempty
      cases found
  | list items ih =>
      rw [outermostAddresses, List.mem_append, mem_itemAddresses, mem_innerAddresses]
      cases address with
      | nil => simp [OutermostAt]
      | cons position address =>
          rw [outermostAt_cons_iff]
          constructor
          · rintro (⟨index, item, isItem, isKind, same⟩ |
              ⟨index, item, inner, isItem, notKind, member, same⟩)
            · cases same
              exact ⟨item, by simpa using isItem, .inl ⟨rfl, isKind⟩⟩
            · cases same
              exact ⟨item, by simpa using isItem,
                .inr ⟨notKind, (ih item (List.mem_of_getElem? isItem)).mp member⟩⟩
          · rintro ⟨item, isItem, (⟨rfl, isKind⟩ | ⟨notKind, outermost⟩)⟩
            · exact .inl ⟨position, item, isItem, isKind, by simp⟩
            · exact .inr ⟨position, item, address, isItem, notKind,
                (ih item (List.mem_of_getElem? isItem)).mpr outermost, by simp⟩

theorem pairwise_itemAddresses : (itemAddresses kind position items).Pairwise ListByList := by
  induction items generalizing position with
  | nil => exact .nil
  | cons item rest ih =>
      refine List.pairwise_append.mpr ⟨?_, ih, ?_⟩
      · split <;> simp
      · intro first isFirst second member
        split at isFirst
        · obtain rfl := List.mem_singleton.mp isFirst
          obtain ⟨index, item, -, -, rfl⟩ := mem_itemAddresses.mp member
          exact .inr ⟨rfl, List.cons_lt_cons_iff.mpr (.inl (by omega))⟩
        · cases isFirst

theorem ListByList.cons {first second : List Nat} (before : ListByList first second)
    (nonempty : first ≠ []) (nonempty' : second ≠ []) (position : Nat) :
    ListByList (position :: first) (position :: second) := by
  rw [ListByList, List.dropLast_cons_of_ne_nil nonempty, List.dropLast_cons_of_ne_nil nonempty']
  rcases before with earlier | ⟨same, earlier⟩
  · exact .inl (List.cons_lt_cons_iff.mpr (.inr ⟨rfl, earlier⟩))
  · exact .inr ⟨by rw [same], List.cons_lt_cons_iff.mpr (.inr ⟨rfl, earlier⟩)⟩

theorem ne_nil_of_mem_outermostAddresses {tree : Tree}
    (member : address ∈ tree.outermostAddresses kind) : address ≠ [] :=
  (mem_outermostAddresses.mp member).1

theorem pairwise_innerAddresses
    (inside : ∀ item ∈ items, (item.outermostAddresses kind).Pairwise ListByList) :
    (innerAddresses kind position items).Pairwise ListByList := by
  induction items generalizing position with
  | nil => exact .nil
  | cons item rest ih =>
      obtain ⟨insideItem, insideRest⟩ := List.forall_mem_cons.mp inside
      refine List.pairwise_append.mpr ⟨?_, ih insideRest, ?_⟩
      · split
        · exact .nil
        · refine List.pairwise_map.mpr (insideItem.imp_of_mem fun member member' before => ?_)
          exact before.cons (ne_nil_of_mem_outermostAddresses member)
            (ne_nil_of_mem_outermostAddresses member') position
      · intro first inItem second inRest
        split at inItem
        · cases inItem
        · obtain ⟨inner, member, rfl⟩ := List.mem_map.mp inItem
          obtain ⟨index, other, inner', -, -, member', rfl⟩ := mem_innerAddresses.mp inRest
          rw [ListByList, List.dropLast_cons_of_ne_nil (ne_nil_of_mem_outermostAddresses member),
            List.dropLast_cons_of_ne_nil (ne_nil_of_mem_outermostAddresses member')]
          exact .inl (List.cons_lt_cons_iff.mpr (.inl (by omega)))

/-- Outermost nodes are found list by list. -/
theorem pairwise_outermostAddresses (tree : Tree) :
    (tree.outermostAddresses kind).Pairwise ListByList := by
  induction tree with
  | atom text => exact .nil
  | list items ih =>
      refine List.pairwise_append.mpr ⟨pairwise_itemAddresses, pairwise_innerAddresses ih, ?_⟩
      intro first isItem second inside
      obtain ⟨index, item, -, -, rfl⟩ := mem_itemAddresses.mp isItem
      obtain ⟨index', item', inner, -, -, member, rfl⟩ := mem_innerAddresses.mp inside
      rw [ListByList, List.dropLast_cons_of_ne_nil (ne_nil_of_mem_outermostAddresses member)]
      exact .inl (List.nil_lt_cons _ _)

theorem forall₂_modify {related : Tree → Tree → Prop} {items' : List Tree} {item : Tree}
    {change : Tree → Tree} (pairs : List.Forall₂ related items items')
    (isItem : items[position]? = some item)
    (changes : ∀ item', related item item' → related item (change item')) :
    List.Forall₂ related items (items'.modify position change) := by
  induction pairs generalizing position with
  | nil => cases isItem
  | cons pair pairs ih =>
      cases position with
      | zero =>
          cases isItem
          exact .cons (changes _ pair) pairs
      | succ position => exact .cons pair (ih isItem)

/-- Replacing an outermost node leads from a partly rewritten tree to another one. -/
theorem partlyRewritten_replaceAt {replaces : Tree → Tree → Prop}
    {tree stage item node : Tree} (rewritten : PartlyRewritten replaces tree stage)
    (replacesKind : ∀ item item', replaces item item' → kind item = true)
    (outermost : tree.OutermostAt kind address) (found : tree.nodeAt? address = some item)
    (replaced : PartlyReplaced replaces item node) :
    PartlyRewritten replaces tree (stage.replaceAt address node) := by
  induction address generalizing tree stage with
  | nil => exact absurd rfl outermost.1
  | cons position address ih =>
      cases tree with
      | atom text => cases found
      | list items =>
          obtain ⟨items', rfl, pairs⟩ := rewritten.exists_items
          obtain ⟨inner, isItem, isLast | ⟨notKind, inside⟩⟩ := outermostAt_cons_iff.mp outermost
          · obtain ⟨rfl, -⟩ := isLast
            cases (nodeAt?_cons isItem).symm.trans found
            exact partlyRewritten_list_iff.mpr (forall₂_modify pairs isItem fun _ _ => replaced)
          · rw [nodeAt?_cons isItem] at found
            refine partlyRewritten_list_iff.mpr (forall₂_modify pairs isItem fun item' pair => ?_)
            rcases pair with changed | replacedInner
            · exact .inl (ih changed inside found)
            · cases notKind.symm.trans (replacesKind _ _ replacedInner)

end Outermost

/-! ## The steps of a revision -/

section Run

variable {ε : Type} {revise : Reviser ε} {kind : Tree → Bool} {whole : Tree → Tree}
  {done items : List Tree} {decisions : List (Option Tree)}

/-- The items of a list are decided about one after the other. -/
theorem steps_of_reviseItems (decides : ∀ whole item, (revise whole item).isSome = kind item)
    (decided : reviseItems revise (fun items' => whole (.list items')) done items =
      (decisions, none)) :
    ∃ steps, steps.map Replacement.address = itemAddresses kind done.length items ∧
      revise.Steps whole (.list (done.reverse ++ items)) steps
        (.list (done.reverse ++ withReplacements items decisions)) ∧
      List.Forall₂ (fun item decision => Option.isSome decision = kind item) items decisions := by
  induction items generalizing done decisions with
  | nil =>
      cases decided
      exact ⟨[], rfl, .nil, .nil⟩
  | cons item rest ih =>
      have isKind := decides (fun item' => whole (.list (done.reverse ++ item' :: rest))) item
      rw [reviseItems] at decided
      cases decision : revise (fun item' => whole (.list (done.reverse ++ item' :: rest))) item with
      | none =>
          rw [decision] at isKind
          simp only [decision, Prod.mk.injEq] at decided
          obtain ⟨rfl, succeeded⟩ := decided
          obtain ⟨steps, addresses, taken, others⟩ := ih (Prod.ext rfl succeeded)
          refine ⟨steps, ?_, by simpa [withReplacements] using taken, .cons isKind others⟩
          simpa [itemAddresses, ← isKind] using addresses
      | some outcome =>
          rw [decision] at isKind
          cases outcome with
          | error fault => simp [decision] at decided
          | ok replacement =>
              simp only [decision, Prod.mk.injEq] at decided
              obtain ⟨rfl, succeeded⟩ := decided
              obtain ⟨steps, addresses, taken, others⟩ := ih (Prod.ext rfl succeeded)
              -- the items behind are shown the tree with the replacement in it
              have first := Reviser.Steps.item decision
              refine ⟨_ :: steps, ?_, first.append (by simpa [withReplacements] using taken),
                .cons isKind others⟩
              simpa [itemAddresses, ← isKind] using addresses

/-- Whether a revision takes steps at the outermost nodes of a tree, wherever the tree
stands. -/
def StepsInside (revise : Reviser ε) (kind : Tree → Bool) (tree : Tree) : Prop :=
  ∀ whole, (reviseWithin revise whole tree).failure = none →
    ∃ steps, steps.map Replacement.address = tree.outermostAddresses kind ∧
      revise.Steps whole tree steps (reviseWithin revise whole tree).tree

/-- The items that are kept are revised one after the other. -/
theorem steps_of_reviseNested (inside : ∀ item ∈ items, StepsInside revise kind item)
    (decided : List.Forall₂ (fun item decision => Option.isSome decision = kind item) items
      decisions)
    (succeeded :
      (reviseNested revise (fun items' => whole (.list items')) done items decisions).2.2 = none) :
    ∃ steps, steps.map Replacement.address = innerAddresses kind done.length items ∧
      revise.Steps whole (.list (done.reverse ++ withReplacements items decisions)) steps
        (.list (done.reverse ++
          (reviseNested revise (fun items' => whole (.list items')) done items decisions).1)) := by
  induction decided generalizing done with
  | nil => exact ⟨[], rfl, .nil⟩
  | @cons item decision rest decisions isKind _ ih =>
      obtain ⟨insideItem, insideRest⟩ := List.forall_mem_cons.mp inside
      cases decision with
      | some replacement =>
          rw [reviseNested] at succeeded ⊢
          obtain ⟨steps, addresses, taken⟩ := ih insideRest succeeded
          refine ⟨steps, ?_, by simpa [withReplacements] using taken⟩
          simpa [innerAddresses, ← isKind] using addresses
      | none =>
          rw [reviseNested] at succeeded ⊢
          cases ended : (reviseWithin revise (fun item' => whole
              (.list (done.reverse ++ item' :: withReplacements rest decisions))) item).failure with
          | some fault => simp [ended] at succeeded
          | none =>
              simp only [ended] at succeeded ⊢
              obtain ⟨steps, addresses, taken⟩ := insideItem _ ended
              obtain ⟨steps', addresses', taken'⟩ := ih insideRest succeeded
              have first := taken.inItem
              rw [List.length_reverse] at first
              refine ⟨steps.map (Replacement.below done.length) ++ steps', ?_, ?_⟩
              · have lifted : (steps.map (Replacement.below done.length)).map Replacement.address =
                    (item.outermostAddresses kind).map (done.length :: ·) := by
                  rw [← addresses, List.map_map, List.map_map]
                  rfl
                rw [List.map_append, lifted, addresses']
                simp [innerAddresses, ← isKind]
              · exact first.append (by simpa using taken')

theorem stepsInside (decides : ∀ whole item, (revise whole item).isSome = kind item)
    (tree : Tree) : StepsInside revise kind tree := by
  induction tree with
  | atom text => exact fun whole _ => ⟨[], rfl, .nil⟩
  | list items ih =>
      intro whole succeeded
      rw [reviseWithin] at succeeded ⊢
      cases decided : reviseItems revise (fun items' => whole (.list items')) [] items with
      | mk decisions failure =>
          cases failure with
          | some fault => simp [decided] at succeeded
          | none =>
              simp only [decided] at succeeded ⊢
              obtain ⟨steps, addresses, taken, isKind⟩ := steps_of_reviseItems decides decided
              obtain ⟨steps', addresses', taken'⟩ := steps_of_reviseNested ih isKind succeeded
              refine ⟨steps ++ steps', ?_, taken.append taken'⟩
              rw [List.map_append, addresses, addresses']
              rfl

end Run

end Tree

namespace Reviser

variable {ε : Type} {revise : Reviser ε} {kind : Tree → Bool} {tree result : Tree}
  {steps : List Replacement}

/-- What a revision does that does not stop early: it replaces the outermost nodes of a
kind, list by list. -/
structure Course (revise : Reviser ε) (kind : Tree → Bool) (tree : Tree)
    (steps : List Replacement) (result : Tree) : Prop where
  taken : revise.Steps id tree steps result
  inOrder : (steps.map Replacement.address).Pairwise Tree.ListByList
  complete : ∀ address, address ∈ steps.map Replacement.address ↔ tree.OutermostAt kind address

theorem exists_course (decides : ∀ whole item, (revise whole item).isSome = kind item)
    (succeeded : (tree.revise revise).failure = none) :
    ∃ steps, revise.Course kind tree steps (tree.revise revise).tree := by
  obtain ⟨steps, addresses, taken⟩ := Tree.stepsInside decides tree id succeeded
  refine ⟨steps, taken, ?_, fun address => ?_⟩
  · rw [addresses]
    exact Tree.pairwise_outermostAddresses tree
  · rw [addresses]
    exact Tree.mem_outermostAddresses

theorem Steps.exists_stage {whole : Tree → Tree} {rest : List Replacement}
    (taken : revise.Steps whole tree (steps ++ rest) result) :
    ∃ stage, revise.Steps whole tree steps stage ∧ revise.Steps whole stage rest result := by
  induction steps generalizing tree with
  | nil => exact ⟨tree, .nil, taken⟩
  | cons step steps ih =>
      cases taken with
      | cons found decided taken =>
          obtain ⟨stage, takenBefore, takenBehind⟩ := ih taken
          exact ⟨stage, .cons found decided takenBefore, takenBehind⟩

/-- Steps elsewhere leave a node alone. -/
theorem Steps.nodeAt?_eq {whole : Tree → Tree} {address : List Nat}
    (taken : revise.Steps whole tree steps result)
    (apart : ∀ step ∈ steps, ¬ address <+: step.address ∧ ¬ step.address <+: address) :
    result.nodeAt? address = tree.nodeAt? address := by
  induction taken with
  | nil => rfl
  | @cons tree result step rest _ _ _ ih =>
      obtain ⟨apartStep, apartRest⟩ := List.forall_mem_cons.mp apart
      rw [ih apartRest, Tree.nodeAt?_replaceAt_of_apart apartStep.1 apartStep.2]

theorem eq_of_outermostAt {address other : List Nat} (first : tree.OutermostAt kind address)
    (second : tree.OutermostAt kind other) (leads : address <+: other) : address = other := by
  obtain ⟨nonempty, ⟨node, found, isKind⟩, -⟩ := first
  by_contra different
  have notKind := second.2.2 address node nonempty leads different found
  rw [isKind] at notKind
  cases notKind

section Course

variable {before after : List Replacement} {step : Replacement}

theorem Course.apart (course : revise.Course kind tree (before ++ step :: after) result) :
    ∀ other ∈ before ++ after,
      ¬ step.address <+: other.address ∧ ¬ other.address <+: step.address := by
  have ordered := course.inOrder
  rw [List.map_append, List.map_cons, List.pairwise_append, List.pairwise_cons] at ordered
  obtain ⟨-, ⟨behind, -⟩, inFront⟩ := ordered
  have outermost : ∀ other ∈ before ++ step :: after, tree.OutermostAt kind other.address :=
    fun other member => (course.complete _).mp (List.mem_map_of_mem member)
  have atStep := outermost step (by simp)
  intro other member
  have atOther := outermost other (by
    rcases List.mem_append.mp member with inBefore | inAfter
    · exact List.mem_append_left _ inBefore
    · exact List.mem_append_right _ (List.mem_cons_of_mem _ inAfter))
  have different : step.address ≠ other.address := by
    rcases List.mem_append.mp member with inBefore | inAfter
    · exact (inFront _ (List.mem_map_of_mem inBefore) _ (by simp)).ne.symm
    · exact (behind _ (List.mem_map_of_mem inAfter)).ne
  exact ⟨fun leads => different (eq_of_outermostAt atStep atOther leads),
    fun leads => different (eq_of_outermostAt atOther atStep leads).symm⟩

/-- A step replaces a node of the tree as it was, and what takes its place stays. -/
theorem Course.nodes (course : revise.Course kind tree (before ++ step :: after) result) :
    tree.nodeAt? step.address = some step.item ∧
      result.nodeAt? step.address = some step.replacement := by
  have apart := course.apart
  obtain ⟨stage, takenBefore, taken⟩ := course.taken.exists_stage
  cases taken with
  | cons found _ takenAfter =>
      constructor
      · rw [← found, takenBefore.nodeAt?_eq fun other member =>
          apart other (List.mem_append_left _ member)]
      · rw [takenAfter.nodeAt?_eq fun other member =>
          apart other (List.mem_append_right _ member)]
        exact Tree.nodeAt?_replaceAt_self found

end Course

theorem Steps.unique {whole : Tree → Tree} {steps' : List Replacement} {result' : Tree}
    (taken : revise.Steps whole tree steps result) (taken' : revise.Steps whole tree steps' result')
    (same : steps.map Replacement.address = steps'.map Replacement.address) :
    steps = steps' ∧ result = result' := by
  induction taken generalizing steps' with
  | nil =>
      obtain rfl := List.map_eq_nil_iff.mp same.symm
      cases taken'
      exact ⟨rfl, rfl⟩
  | @cons tree result step rest found decided _ ih =>
      cases taken' with
      | nil => cases same
      | @cons _ _ step' rest' found' decided' taken' =>
          obtain ⟨sameAddress, sameRest⟩ := List.cons.inj same
          obtain ⟨address, item, replacement⟩ := step
          obtain ⟨address', item', replacement'⟩ := step'
          cases sameAddress
          cases found.symm.trans found'
          cases decided.symm.trans decided'
          obtain ⟨rfl, rfl⟩ := ih taken' sameRest
          exact ⟨rfl, rfl⟩

theorem listByList_asymm {first second : List Nat} (before : Tree.ListByList first second) :
    ¬ Tree.ListByList second first := by
  intro behind
  rcases before with earlier | ⟨same, earlier⟩
  · rcases behind with later | ⟨same, -⟩
    · exact lt_asymm earlier later
    · exact earlier.ne same.symm
  · rcases behind with later | ⟨-, later⟩
    · exact later.ne same.symm
    · exact lt_asymm earlier later

/-- There is one course from a tree: its order and its completeness leave no choice. -/
theorem Course.unique {steps' : List Replacement} {result' : Tree}
    (course : revise.Course kind tree steps result)
    (course' : revise.Course kind tree steps' result') : steps = steps' ∧ result = result' := by
  have irreflexive : Std.Irrefl Tree.ListByList := ⟨fun address before => before.ne rfl⟩
  have antisymmetric : Std.Antisymm Tree.ListByList :=
    ⟨fun first second before behind => absurd behind (listByList_asymm before)⟩
  have sameMembers : ∀ address, address ∈ steps.map Replacement.address ↔
      address ∈ steps'.map Replacement.address := by
    intro address
    rw [course.complete, course'.complete]
  exact course.taken.unique course'.taken (course.inOrder.eq_of_mem_iff course'.inOrder sameMembers)

end Reviser

end WatLink
