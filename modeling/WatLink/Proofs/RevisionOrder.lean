import WatLink.Proofs.PassFailures
import WatLink.Proofs.StringAtoms

/-!
# Revisions that do not depend on their order

A reviser is shown the whole tree as it stands when it decides about an item.  It
is steady if its decisions are the same in every tree that some replacements have
led to.  What a steady reviser makes of a tree is then what the decisions say
about the items of the tree as it was, in whatever order they are made.

A revision that stops early, by any reviser, leaves a partly rewritten tree.
-/

namespace WatLink

/-- A tree in which some of the possible replacements have been made. -/
def PartlyRewritten (replaces : Tree → Tree → Prop) : Tree → Tree → Prop :=
  Rewritten (fun _ => True) replaces

/-- An item of a partly rewritten list. -/
def PartlyReplaced (replaces : Tree → Tree → Prop) (item item' : Tree) : Prop :=
  PartlyRewritten replaces item item' ∨ replaces item item'

section PartlyRewritten

variable {keeps : Tree → Prop} {replaces : Tree → Tree → Prop}

theorem partlyRewritten_list_iff {items items' : List Tree} :
    PartlyRewritten replaces (.list items) (.list items') ↔
      List.Forall₂ (PartlyReplaced replaces) items items' := by
  constructor
  · intro rewritten
    exact rewritten.items_forall₂
  · intro pairs
    induction pairs with
    | nil => exact .nil
    | cons pair _ ih =>
        rcases pair with changed | replaced
        · exact .kept trivial changed ih
        · exact .replaced replaced ih

/-- A partly rewritten list is a list. -/
theorem PartlyRewritten.exists_items {items : List Tree} {tree' : Tree}
    (rewritten : PartlyRewritten replaces (.list items) tree') :
    ∃ items', tree' = .list items' ∧ List.Forall₂ (PartlyReplaced replaces) items items' := by
  cases tree' with
  | atom text => cases rewritten
  | list items' => exact ⟨items', rfl, partlyRewritten_list_iff.mp rewritten⟩

theorem PartlyRewritten.refl (tree : Tree) : PartlyRewritten replaces tree tree := by
  induction tree with
  | atom text => exact .atom
  | list items ih =>
      exact partlyRewritten_list_iff.mpr (List.forall₂_same.mpr fun item member =>
        .inl (ih item member))

theorem PartlyReplaced.refl (item : Tree) : PartlyReplaced replaces item item :=
  .inl (PartlyRewritten.refl item)

/-- What is kept and replaced by some rules is kept and replaced by weaker ones. -/
theorem Rewritten.mono {keeps' : Tree → Prop} {replaces' : Tree → Tree → Prop} {tree tree' : Tree}
    (rewritten : Rewritten keeps replaces tree tree')
    (keepsMore : ∀ {item}, keeps item → keeps' item)
    (replacesMore : ∀ {item item'}, replaces item item' → replaces' item item') :
    Rewritten keeps' replaces' tree tree' := by
  induction rewritten with
  | atom => exact .atom
  | nil => exact .nil
  | kept keepsItem _ _ ihItem ihRest => exact .kept (keepsMore keepsItem) ihItem ihRest
  | replaced replacesItem _ ihRest => exact .replaced (replacesMore replacesItem) ihRest

theorem Rewritten.partly {tree tree' : Tree} (rewritten : Rewritten keeps replaces tree tree') :
    PartlyRewritten replaces tree tree' :=
  rewritten.mono (fun _ => trivial) id

theorem PartlyReplaced.mono {replaces' : Tree → Tree → Prop} {item item' : Tree}
    (stage : PartlyReplaced replaces item item')
    (replacesMore : ∀ {item item'}, replaces item item' → replaces' item item') :
    PartlyReplaced replaces' item item' :=
  stage.imp (fun changed => Rewritten.mono changed id replacesMore) replacesMore

/-- What holds of a tree and below its root holds of all its parts. -/
theorem Tree.forall_mem_subtrees {property : Tree → Prop} {tree : Tree} (root : property tree)
    (below : ∀ item ∈ tree.items, ∀ part ∈ item.subtrees, property part) :
    ∀ part ∈ tree.subtrees, property part := by
  cases tree with
  | atom text => simpa [Tree.subtrees] using root
  | list items => exact Tree.forall_mem_subtrees_list.mpr ⟨root, below⟩

/-- What holds of kept items and of all parts of replacements holds of everything
below the root of a rewritten tree. -/
theorem Rewritten.forall_below {property : Tree → Prop} {tree tree' : Tree}
    (rewritten : Rewritten keeps replaces tree tree')
    (kept : ∀ item item', keeps item → Rewritten keeps replaces item item' → property item')
    (replaced : ∀ item item', replaces item item' → ∀ part ∈ item'.subtrees, property part) :
    ∀ item ∈ tree'.items, ∀ part ∈ item.subtrees, property part := by
  induction rewritten with
  | atom => simp [Tree.items]
  | nil => simp [Tree.items]
  | @kept item item' rest rest' keepsItem changed _ ih ihRest =>
      have inItem := Tree.forall_mem_subtrees (kept item item' keepsItem changed) ih
      exact List.forall_mem_cons.mpr ⟨inItem, ihRest⟩
  | replaced replacesItem _ ihRest =>
      exact List.forall_mem_cons.mpr ⟨replaced _ _ replacesItem, ihRest⟩

end PartlyRewritten

/-! ## Steady revisers -/

namespace Reviser

variable {ε : Type}

/-- What is decided about an item: `none` keeps it. -/
def Decision (keeps : Tree → Prop) (replaces : Tree → Tree → Prop) (item : Tree) :
    Option Tree → Prop
  | none => keeps item
  | some replacement => replaces item replacement

/-- A reviser whose decisions about the parts of a tree are the same in all trees
that some of the replacements lead to. -/
structure Steady (revise : Reviser ε) (module : Tree) (keeps : Tree → Prop)
    (replaces : Tree → Tree → Prop) : Prop where
  keeps_iff : ∀ (whole : Tree → Tree) {item : Tree}, item ∈ module.subtrees →
    PartlyRewritten replaces module (whole item) → (revise whole item = none ↔ keeps item)
  replaces_iff : ∀ (whole : Tree → Tree) {item replacement : Tree}, item ∈ module.subtrees →
    PartlyRewritten replaces module (whole item) →
      (revise whole item = some (.ok replacement) ↔ replaces item replacement)

namespace Steady

variable {revise : Reviser ε} {module : Tree} {keeps : Tree → Prop}
  {replaces : Tree → Tree → Prop}

theorem not_replaces (steady : revise.Steady module keeps replaces) {item item' : Tree}
    (inside : item ∈ module.subtrees) (keepsItem : keeps item) : ¬ replaces item item' := by
  intro replacesItem
  have shown : PartlyRewritten replaces module module := .refl module
  have kept := (steady.keeps_iff (fun _ => module) inside shown).mpr keepsItem
  rw [(steady.replaces_iff (fun _ => module) inside shown).mpr replacesItem] at kept
  cases kept

theorem replacement_eq (steady : revise.Steady module keeps replaces) {item first second : Tree}
    (inside : item ∈ module.subtrees) (replacesFirst : replaces item first)
    (replacesSecond : replaces item second) : first = second := by
  have shown : PartlyRewritten replaces module module := .refl module
  have replaced := (steady.replaces_iff (fun _ => module) inside shown).mpr replacesFirst
  rw [(steady.replaces_iff (fun _ => module) inside shown).mpr replacesSecond] at replaced
  cases replaced
  rfl

theorem rewritten_cons_of_replaces (steady : revise.Steady module keeps replaces)
    {item item' : Tree} {rest result : List Tree} (inside : item ∈ module.subtrees)
    (replacesItem : replaces item item') :
    Rewritten keeps replaces (.list (item :: rest)) (.list result) ↔
      ∃ rest', Rewritten keeps replaces (.list rest) (.list rest') ∧ result = item' :: rest' := by
  constructor
  · intro rewritten
    cases rewritten with
    | kept keepsItem _ _ => exact absurd replacesItem (steady.not_replaces inside keepsItem)
    | replaced replacesOther changed =>
        obtain rfl := steady.replacement_eq inside replacesItem replacesOther
        exact ⟨_, changed, rfl⟩
  · rintro ⟨rest', changed, rfl⟩
    exact .replaced replacesItem changed

theorem rewritten_cons_of_keeps (steady : revise.Steady module keeps replaces)
    {item : Tree} {rest result : List Tree} (inside : item ∈ module.subtrees)
    (keepsItem : keeps item) :
    Rewritten keeps replaces (.list (item :: rest)) (.list result) ↔
      ∃ item' rest', Rewritten keeps replaces item item' ∧
        Rewritten keeps replaces (.list rest) (.list rest') ∧ result = item' :: rest' := by
  constructor
  · intro rewritten
    cases rewritten with
    | kept _ changedItem changed => exact ⟨_, _, changedItem, changed, rfl⟩
    | replaced replacesItem _ => exact absurd replacesItem (steady.not_replaces inside keepsItem)
  · rintro ⟨item', rest', changedItem, changed, rfl⟩
    exact .kept keepsItem changedItem changed

end Steady

end Reviser

open Reviser (Decision)

namespace Tree

variable {ε : Type} {revise : Reviser ε} {module : Tree} {keeps : Tree → Prop}
  {replaces : Tree → Tree → Prop}

/-- A decision that a steady reviser has made cannot be another one. -/
theorem decision_eq (steady : revise.Steady module keeps replaces) {whole : Tree → Tree}
    {item : Tree} (inside : item ∈ module.subtrees)
    (reached : PartlyRewritten replaces module (whole item)) {decision : Option Tree}
    (decides : Decision keeps replaces item decision) : revise whole item = decision.map .ok := by
  cases decision with
  | none => exact (steady.keeps_iff _ inside reached).mpr decides
  | some replacement => exact (steady.replaces_iff _ inside reached).mpr decides

/-- The whole tree that a list and its context make, for every stage of the
list. -/
def ReachesFrom (replaces : Tree → Tree → Prop) (module : Tree) (whole : List Tree → Tree)
    (items : List Tree) : Prop :=
  ∀ items', List.Forall₂ (PartlyReplaced replaces) items items' →
    PartlyRewritten replaces module (whole items')

section Items

variable {whole : List Tree → Tree} {before done items : List Tree}

/-- The tree that is shown with an item, when the items before it are settled and
those behind it are at some stage. -/
theorem ReachesFrom.item {item item' : Tree} {rest rest' : List Tree}
    (reaches : ReachesFrom replaces module whole (before ++ item :: rest))
    (settled : List.Forall₂ (PartlyReplaced replaces) before done.reverse)
    (pair : PartlyReplaced replaces item item')
    (stage : List.Forall₂ (PartlyReplaced replaces) rest rest') :
    PartlyRewritten replaces module (whole (done.reverse ++ item' :: rest')) :=
  reaches _ (List.rel_append settled (.cons pair stage))

/-- An item that is settled joins those before it. -/
theorem ReachesFrom.next {item : Tree} {rest : List Tree}
    (reaches : ReachesFrom replaces module whole (before ++ item :: rest)) :
    ReachesFrom replaces module whole ((before ++ [item]) ++ rest) := by
  rwa [List.append_assoc, List.singleton_append]

theorem settled_next {item item' : Tree}
    (settled : List.Forall₂ (PartlyReplaced replaces) before done.reverse)
    (pair : PartlyReplaced replaces item item') :
    List.Forall₂ (PartlyReplaced replaces) (before ++ [item]) (item' :: done).reverse := by
  rw [List.reverse_cons]
  exact List.rel_append settled (.cons pair .nil)

/-- A steady reviser that gets through a list has decided about each item. -/
theorem decisions_of_reviseItems (steady : revise.Steady module keeps replaces)
    (inside : ∀ item ∈ items, item ∈ module.subtrees)
    (settled : List.Forall₂ (PartlyReplaced replaces) before done.reverse)
    (reaches : ReachesFrom replaces module whole (before ++ items))
    (succeeded : (reviseItems revise whole done items).2 = none) :
    List.Forall₂ (Decision keeps replaces) items (reviseItems revise whole done items).1 := by
  induction items generalizing before done with
  | nil => exact .nil
  | cons item rest ih =>
      have insideRest := fun other member => inside other (List.mem_cons_of_mem item member)
      have shown := reaches.item settled (.refl item) (List.forall₂_same.mpr fun other _ => .refl other)
      rw [reviseItems] at succeeded ⊢
      cases decided : revise (fun item' => whole (done.reverse ++ item' :: rest)) item with
      | none =>
          simp only [decided] at succeeded ⊢
          have kept := (steady.keeps_iff _ (inside item (by simp)) shown).mp decided
          have settledItem := settled_next settled (.refl item)
          exact .cons kept (ih insideRest settledItem reaches.next succeeded)
      | some outcome =>
          cases outcome with
          | ok replacement =>
              simp only [decided] at succeeded ⊢
              have replaced := (steady.replaces_iff _ (inside item (by simp)) shown).mp decided
              have settledItem := settled_next settled (.inr replaced)
              exact .cons replaced (ih insideRest settledItem reaches.next succeeded)
          | error fault => simp [decided] at succeeded

/-- A steady reviser makes the decisions that there are. -/
theorem reviseItems_of_decisions (steady : revise.Steady module keeps replaces)
    (inside : ∀ item ∈ items, item ∈ module.subtrees)
    (settled : List.Forall₂ (PartlyReplaced replaces) before done.reverse)
    (reaches : ReachesFrom replaces module whole (before ++ items))
    {decisions : List (Option Tree)}
    (decided : List.Forall₂ (Decision keeps replaces) items decisions) :
    reviseItems revise whole done items = (decisions, none) := by
  induction decided generalizing before done with
  | nil => rfl
  | @cons item decision rest decisions decides _ ih =>
      have insideRest := fun other member => inside other (List.mem_cons_of_mem item member)
      have shown := reaches.item settled (.refl item) (List.forall₂_same.mpr fun other _ => .refl other)
      rw [reviseItems, decision_eq steady (inside item (by simp)) shown decides]
      cases decision with
      | none =>
          have settledItem := settled_next settled (.refl item)
          simp only [Option.map_none, ih insideRest settledItem reaches.next]
      | some replacement =>
          have settledItem := settled_next settled (.inr decides)
          simp only [Option.map_some, ih insideRest settledItem reaches.next]

theorem partlyReplaced_withReplacements {decisions : List (Option Tree)}
    (decided : List.Forall₂ (Decision keeps replaces) items decisions) :
    List.Forall₂ (PartlyReplaced replaces) items (withReplacements items decisions) := by
  induction decided with
  | nil => exact .nil
  | @cons item decision rest decisions decides _ ih =>
      cases decision with
      | none => exact .cons (.refl item) ih
      | some replacement => exact .cons (.inr decides) ih

/-- Whether a reviser makes of a tree what its decisions say, wherever the tree
stands. -/
def Settles (revise : Reviser ε) (module : Tree) (keeps : Tree → Prop)
    (replaces : Tree → Tree → Prop) (tree : Tree) : Prop :=
  ∀ whole : Tree → Tree,
    (∀ tree', PartlyRewritten replaces tree tree' → PartlyRewritten replaces module (whole tree')) →
    ∀ result, (reviseWithin revise whole tree).failure = none ∧
        (reviseWithin revise whole tree).tree = result ↔ Rewritten keeps replaces tree result

/-- The lists among the items that are kept are revised one after the other. -/
theorem reviseNested_iff (steady : revise.Steady module keeps replaces)
    (inside : ∀ item ∈ items, item ∈ module.subtrees)
    (settled : List.Forall₂ (PartlyReplaced replaces) before done.reverse)
    (reaches : ReachesFrom replaces module whole (before ++ items))
    (settles : ∀ item ∈ items, Settles revise module keeps replaces item)
    {decisions : List (Option Tree)}
    (decided : List.Forall₂ (Decision keeps replaces) items decisions) {result : List Tree} :
    (reviseNested revise whole done items decisions).2.2 = none ∧
        (reviseNested revise whole done items decisions).1 = result ↔
      Rewritten keeps replaces (.list items) (.list result) := by
  induction decided generalizing before done result with
  | nil =>
      constructor
      · rintro ⟨-, rfl⟩
        exact .nil
      · rintro ⟨⟩
        exact ⟨rfl, rfl⟩
  | @cons item decision rest decisions decides decidedRest ih =>
      have insideItem := inside item (by simp)
      have insideRest := fun other member => inside other (List.mem_cons_of_mem item member)
      have settlesRest := fun other member => settles other (List.mem_cons_of_mem item member)
      cases decision with
      | some replacement =>
          have ihRest := @ih (before ++ [item]) (replacement :: done) insideRest
            (settled_next settled (.inr decides)) reaches.next settlesRest
          rw [reviseNested, steady.rewritten_cons_of_replaces insideItem decides]
          constructor
          · rintro ⟨succeeded, rfl⟩
            exact ⟨_, ihRest.mp ⟨succeeded, rfl⟩, rfl⟩
          · rintro ⟨rest', changed, rfl⟩
            obtain ⟨succeeded, rfl⟩ := ihRest.mpr changed
            exact ⟨succeeded, rfl⟩
      | none =>
          have settlesItem := settles item (by simp) (fun item' =>
            whole (done.reverse ++ item' :: withReplacements rest decisions)) fun item' changed =>
              reaches.item settled (.inl changed) (partlyReplaced_withReplacements decidedRest)
          rw [reviseNested, steady.rewritten_cons_of_keeps insideItem decides]
          cases ended : (reviseWithin revise (fun item' =>
              whole (done.reverse ++ item' :: withReplacements rest decisions)) item).failure with
          | some fault =>
              dsimp only
              constructor
              · rintro ⟨⟨⟩, -⟩
              · rintro ⟨item', rest', changedItem, -, -⟩
                have succeeded := ((settlesItem _).mpr changedItem).1
                simp [ended] at succeeded
          | none =>
              dsimp only
              have changed := (settlesItem _).mp ⟨ended, rfl⟩
              have ihRest := @ih (before ++ [item]) (_ :: done) insideRest
                (settled_next settled (.inl changed.partly)) reaches.next settlesRest
              constructor
              · rintro ⟨succeeded, rfl⟩
                exact ⟨_, _, changed, ihRest.mp ⟨succeeded, rfl⟩, rfl⟩
              · rintro ⟨item', rest', changedItem, changedRest, rfl⟩
                obtain ⟨-, rfl⟩ := (settlesItem _).mpr changedItem
                obtain ⟨succeeded, rfl⟩ := ihRest.mpr changedRest
                exact ⟨succeeded, rfl⟩

end Items

/-- Where a rewriting leads, there was a decision about every item. -/
theorem exists_decisions {items result : List Tree}
    (rewritten : Rewritten keeps replaces (.list items) (.list result)) :
    ∃ decisions, List.Forall₂ (Decision keeps replaces) items decisions := by
  induction items generalizing result with
  | nil => exact ⟨[], .nil⟩
  | cons item rest ih =>
      cases rewritten with
      | kept keepsItem _ changed =>
          obtain ⟨decisions, decided⟩ := ih changed
          exact ⟨none :: decisions, .cons keepsItem decided⟩
      | replaced replacesItem changed =>
          obtain ⟨decisions, decided⟩ := ih changed
          exact ⟨some _ :: decisions, .cons replacesItem decided⟩

theorem settles (steady : revise.Steady module keeps replaces) {tree : Tree}
    (inside : tree ∈ module.subtrees) :
    Settles revise module keeps replaces tree := by
  induction tree with
  | atom text =>
      intro whole _ result
      constructor
      · rintro ⟨-, rfl⟩
        exact .atom
      · rintro ⟨⟩
        exact ⟨rfl, rfl⟩
  | list items ih =>
      intro whole reaches result
      have reachesItems :
          ReachesFrom replaces module (fun items' => whole (.list items')) ([] ++ items) :=
        fun items' pairs => reaches _ (partlyRewritten_list_iff.mpr pairs)
      have insideItems : ∀ item ∈ items, item ∈ module.subtrees := fun item member =>
        mem_subtrees_trans (mem_subtrees_of_mem member (mem_subtrees_self item)) inside
      have start : List.Forall₂ (PartlyReplaced replaces) [] ([] : List Tree).reverse := .nil
      rw [reviseWithin]
      cases ended : (reviseItems revise (fun items' => whole (.list items')) [] items).2 with
      | some fault =>
          simp only [ended]
          constructor
          · rintro ⟨⟨⟩, -⟩
          · intro rewritten
            obtain ⟨items', rfl, -⟩ := rewritten.partly.exists_items
            obtain ⟨decisions, decided⟩ := exists_decisions rewritten
            simp [reviseItems_of_decisions steady insideItems start reachesItems decided] at ended
      | none =>
          simp only [ended]
          have decided := decisions_of_reviseItems steady insideItems start reachesItems ended
          have nested := @reviseNested_iff _ _ _ _ _ _ _ _ _ steady insideItems start reachesItems
            (fun item member => ih item member (insideItems item member)) _ decided
          constructor
          · rintro ⟨succeeded, rfl⟩
            exact nested.mp ⟨succeeded, rfl⟩
          · intro rewritten
            obtain ⟨items', rfl, -⟩ := rewritten.partly.exists_items
            obtain ⟨succeeded, rfl⟩ := nested.mpr rewritten
            exact ⟨succeeded, rfl⟩

/-- A steady reviser makes of a tree exactly what its decisions about the items of
that tree say, and fails if there is an item without a decision. -/
theorem revise_iff_rewritten (steady : revise.Steady module keeps replaces) {result : Tree} :
    (module.revise revise).failure = none ∧ (module.revise revise).tree = result ↔
      Rewritten keeps replaces module result :=
  settles steady (mem_subtrees_self module) id (fun _ rewritten => rewritten) result

/-! ## Revisions that stop early -/

section Stopped

variable {whole : List Tree → Tree} {done items : List Tree} {decisions : List (Option Tree)}

/-- Whether an item is replaced only by what the reviser has replaced it by. -/
def MadeBy (revise : Reviser ε) (item : Tree) (decision : Option Tree) : Prop :=
  ∀ replacement, decision = some replacement → revise.Replaces item replacement

theorem madeBy_none (item : Tree) : MadeBy revise item none := by
  intro replacement made
  cases made

theorem reviseItems_madeBy :
    List.Forall₂ (MadeBy revise) items (reviseItems revise whole done items).1 := by
  induction items generalizing done with
  | nil => exact .nil
  | cons item rest ih =>
      rw [reviseItems]
      cases decided : revise (fun item' => whole (done.reverse ++ item' :: rest)) item with
      | none => exact .cons (madeBy_none item) ih
      | some outcome =>
          cases outcome with
          | ok replacement =>
              apply List.Forall₂.cons _ ih
              intro other same
              cases same
              exact ⟨_, decided⟩
          | error fault =>
              apply List.Forall₂.cons (madeBy_none item)
              apply List.forall₂_map_right_iff.mpr (List.forall₂_same.mpr ?_)
              exact fun other _ => madeBy_none other

theorem withReplacements_madeBy (made : List.Forall₂ (MadeBy revise) items decisions) :
    List.Forall₂ (PartlyReplaced revise.Replaces) items (withReplacements items decisions) := by
  induction made with
  | nil => exact .nil
  | @cons item decision rest decisions madeItem _ ih =>
      cases decision with
      | none => exact .cons (.refl item) ih
      | some replacement => exact .cons (.inr (madeItem replacement rfl)) ih

theorem reviseNested_madeBy (made : List.Forall₂ (MadeBy revise) items decisions)
    (inside : ∀ item ∈ items, ∀ whole,
      PartlyRewritten revise.Replaces item (reviseWithin revise whole item).tree) :
    List.Forall₂ (PartlyReplaced revise.Replaces) items
      (reviseNested revise whole done items decisions).1 := by
  induction made generalizing done with
  | nil => exact .nil
  | @cons item decision rest decisions madeItem madeRest ih =>
      have insideRest := fun other member => inside other (List.mem_cons_of_mem item member)
      cases decision with
      | some replacement =>
          rw [reviseNested]
          exact .cons (.inr (madeItem replacement rfl)) (ih insideRest)
      | none =>
          rw [reviseNested]
          have changed := inside item (by simp) fun item' =>
            whole (done.reverse ++ item' :: withReplacements rest decisions)
          dsimp only
          split
          · exact .cons (.inl changed) (withReplacements_madeBy madeRest)
          · exact .cons (.inl changed) (ih insideRest)

theorem reviseWithin_partly (tree : Tree) (whole : Tree → Tree) :
    PartlyRewritten revise.Replaces tree (reviseWithin revise whole tree).tree := by
  induction tree generalizing whole with
  | atom text => exact .atom
  | list items ih =>
      rw [reviseWithin]
      dsimp only
      split
      · exact partlyRewritten_list_iff.mpr (withReplacements_madeBy reviseItems_madeBy)
      · exact partlyRewritten_list_iff.mpr (reviseNested_madeBy reviseItems_madeBy ih)

/-- A revision makes replacements of its reviser only, also when it stops early. -/
theorem partlyRewritten_of_revise (tree : Tree) :
    PartlyRewritten revise.Replaces tree (tree.revise revise).tree :=
  reviseWithin_partly tree id

end Stopped

end Tree

end WatLink
