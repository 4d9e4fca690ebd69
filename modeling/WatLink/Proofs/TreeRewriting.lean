import WatLink.Proofs.PrinterLayout
import WatLink.Tree.Revision

/-!
# What a revision does to a tree

A revision that does not stop early has decided about every item of every list
that is not inside a replacement.  `Rewritten` says so without the order of the
decisions and without the trees that the reviser is shown on the way.  A
revision that has nothing to replace leaves the tree as it is.
-/

namespace WatLink

/-- The result of keeping some items of the lists of a tree and replacing
others.  What is kept is rewritten inside. -/
inductive Rewritten (keeps : Tree → Prop) (replaces : Tree → Tree → Prop) : Tree → Tree → Prop
  | atom {text : String} : Rewritten keeps replaces (.atom text) (.atom text)
  | nil : Rewritten keeps replaces (.list []) (.list [])
  | kept {item item' : Tree} {rest rest' : List Tree} :
      keeps item → Rewritten keeps replaces item item' →
        Rewritten keeps replaces (.list rest) (.list rest') →
          Rewritten keeps replaces (.list (item :: rest)) (.list (item' :: rest'))
  | replaced {item item' : Tree} {rest rest' : List Tree} :
      replaces item item' → Rewritten keeps replaces (.list rest) (.list rest') →
        Rewritten keeps replaces (.list (item :: rest)) (.list (item' :: rest'))

namespace Reviser

variable {ε : Type}

/-- The items that a reviser keeps in some tree. -/
def Keeps (revise : Reviser ε) (item : Tree) : Prop :=
  ∃ whole, revise whole item = none

/-- The items that a reviser replaces in some tree, and what by. -/
def Replaces (revise : Reviser ε) (item replacement : Tree) : Prop :=
  ∃ whole, revise whole item = some (.ok replacement)

/-- Whether a reviser may have decided so about an item. -/
def Decides (revise : Reviser ε) (item : Tree) : Option Tree → Prop
  | none => revise.Keeps item
  | some replacement => revise.Replaces item replacement

end Reviser

namespace Tree

variable {ε : Type} {revise : Reviser ε}

theorem mem_subtrees_self (tree : Tree) : tree ∈ tree.subtrees := by
  cases tree <;> simp [subtrees]

theorem mem_subtrees_of_mem {part item : Tree} {items : List Tree} (member : item ∈ items)
    (inside : part ∈ item.subtrees) : part ∈ (Tree.list items).subtrees := by
  rw [subtrees, List.mem_cons, mem_subtreesOfItems]
  exact .inr ⟨item, member, inside⟩

theorem reviseItems_decides {whole : List Tree → Tree} {done items : List Tree}
    (succeeded : (reviseItems revise whole done items).2 = none) :
    List.Forall₂ revise.Decides items (reviseItems revise whole done items).1 := by
  induction items generalizing done with
  | nil => exact .nil
  | cons item rest ih =>
      rw [reviseItems] at succeeded ⊢
      cases decided : revise (fun item' => whole (done.reverse ++ item' :: rest)) item with
      | none =>
          simp only [decided] at succeeded ⊢
          exact .cons ⟨_, decided⟩ (ih succeeded)
      | some outcome =>
          cases outcome with
          | ok replacement =>
              simp only [decided] at succeeded ⊢
              exact .cons ⟨_, decided⟩ (ih succeeded)
          | error fault => simp [decided] at succeeded

/-- A revision of the items that are not replaced rewrites the list that they
stand in, if it rewrites each of them. -/
theorem reviseNested_rewritten {whole : List Tree → Tree} {done items : List Tree}
    {replacements : List (Option Tree)}
    (inside : ∀ item ∈ items, ∀ whole, (reviseWithin revise whole item).failure = none →
      Rewritten revise.Keeps revise.Replaces item (reviseWithin revise whole item).tree)
    (decided : List.Forall₂ revise.Decides items replacements)
    (succeeded : (reviseNested revise whole done items replacements).2.2 = none) :
    Rewritten revise.Keeps revise.Replaces (.list items)
      (.list (reviseNested revise whole done items replacements).1) := by
  induction decided generalizing done with
  | nil => exact .nil
  | @cons item decision rest replacements decides _ ih =>
      have insideRest := fun other member => inside other (List.mem_cons_of_mem item member)
      cases decision with
      | some replacement =>
          rw [reviseNested] at succeeded ⊢
          exact .replaced decides (ih insideRest succeeded)
      | none =>
          rw [reviseNested] at succeeded ⊢
          cases ended : (reviseWithin revise (fun item' =>
              whole (done.reverse ++ item' :: withReplacements rest replacements)) item).failure with
          | some fault => simp [ended] at succeeded
          | none =>
              simp only [ended] at succeeded ⊢
              exact .kept decides (inside item (by simp) _ ended) (ih insideRest succeeded)

theorem reviseWithin_rewritten {tree : Tree} {whole : Tree → Tree}
    (succeeded : (reviseWithin revise whole tree).failure = none) :
    Rewritten revise.Keeps revise.Replaces tree (reviseWithin revise whole tree).tree := by
  induction tree generalizing whole with
  | atom text => exact .atom
  | list items ih =>
      rw [reviseWithin] at succeeded ⊢
      cases decided : (reviseItems revise (fun items' => whole (.list items')) [] items).2 with
      | some fault => simp [decided] at succeeded
      | none =>
          simp only [decided] at succeeded ⊢
          exact reviseNested_rewritten (fun item member _ => ih item member)
            (reviseItems_decides decided) succeeded

/-- What a revision leaves that does not stop early. -/
theorem rewritten_of_revise {tree : Tree} (succeeded : (tree.revise revise).failure = none) :
    Rewritten revise.Keeps revise.Replaces tree (tree.revise revise).tree :=
  reviseWithin_rewritten succeeded

/-! ## Nothing to replace -/

theorem reviseItems_of_kept {whole : List Tree → Tree} {done items : List Tree}
    (kept : ∀ item ∈ items, ∀ whole, revise whole item = none) :
    reviseItems revise whole done items = (items.map fun _ => none, none) := by
  induction items generalizing done with
  | nil => rfl
  | cons item rest ih =>
      have keptRest := fun other member => kept other (List.mem_cons_of_mem item member)
      simp only [reviseItems, kept item (by simp), ih keptRest, List.map_cons]

theorem reviseNested_of_kept {whole : List Tree → Tree} {done items : List Tree}
    (inside : ∀ item ∈ items, ∀ whole, reviseWithin revise whole item = ⟨item, 0, none⟩) :
    reviseNested revise whole done items (items.map fun _ => none) = (items, 0, none) := by
  induction items generalizing done with
  | nil => rfl
  | cons item rest ih =>
      have insideRest := fun other member => inside other (List.mem_cons_of_mem item member)
      simp only [List.map_cons, reviseNested, inside item (by simp), ih insideRest]

theorem reviseWithin_of_kept {tree : Tree} {whole : Tree → Tree}
    (kept : ∀ part ∈ tree.subtrees, ∀ whole, revise whole part = none) :
    reviseWithin revise whole tree = ⟨tree, 0, none⟩ := by
  induction tree generalizing whole with
  | atom text => rfl
  | list items ih =>
      have keptInside := (forall_mem_subtrees_list.mp kept).2
      have keptItems := fun item member => keptInside item member item (mem_subtrees_self item)
      have inside : ∀ item ∈ items, ∀ whole,
          reviseWithin revise whole item = ⟨item, 0, none⟩ :=
        fun item member _ => ih item member (keptInside item member)
      have noneReplaced : (items.map fun _ => (none : Option Tree)).countP Option.isSome = 0 := by
        simp
      rw [reviseWithin]
      simp only [reviseItems_of_kept keptItems, reviseNested_of_kept inside, noneReplaced]

/-- A revision keeps a tree none of whose parts it would replace. -/
theorem revise_of_kept {tree : Tree}
    (kept : ∀ part ∈ tree.subtrees, ∀ whole, revise whole part = none) :
    tree.revise revise = ⟨tree, 0, none⟩ :=
  reviseWithin_of_kept kept

end Tree

end WatLink
