import WatLink.Import.Inlining
import WatLink.Proofs.FileExpansion
import WatLink.Proofs.StoreSnapshots

/-!
# Files that are inlined

Inlining asks the store for one file after the other.  What a store answers for a
path does not depend on the paths that it was asked for before, so every raw import
gets the file that the store serves for its path when inlining begins.
-/

namespace WatLink

/-- An item of a data form that is kept, or a raw import that is replaced by the
literal of the file that a store serves for its path. -/
inductive ServedItem (store : FileStore) (item : Tree) : Tree → Prop
  | kept : rawImport? item = none → ServedItem store item item
  | literal {text path : String} {bytes : Bytes} : rawImport? item = some text →
      unquoted? text = some path → (store.load path).1 = .ok bytes →
        ServedItem store item (.atom (StringLiteral.ofBytes bytes))

/-- A top-level form with the raw imports among its items replaced, if it is a data
form. -/
inductive ServedForm (store : FileStore) : Tree → Tree → Prop
  | other {form : Tree} : form.hasTag "data" = false → ServedForm store form form
  | data {items items' : List Tree} : (Tree.list items).hasTag "data" = true →
      List.Forall₂ (ServedItem store) items items' → ServedForm store (.list items) (.list items')

/-- Whether two stores serve the same files. -/
def ServesSame (store store' : FileStore) : Prop :=
  ∀ path, (store'.load path).1 = (store.load path).1

theorem ServedItem.of_servesSame {store store' : FileStore} (same : ServesSame store store')
    {item item' : Tree} (served : ServedItem store' item item') : ServedItem store item item' := by
  cases served with
  | kept isOther => exact .kept isOther
  | literal isRaw isPath found => exact .literal isRaw isPath ((same _).symm.trans found)

theorem ServedForm.of_servesSame {store store' : FileStore} (same : ServesSame store store')
    {form form' : Tree} (served : ServedForm store' form form') : ServedForm store form form' := by
  cases served with
  | other notData => exact .other notData
  | data isData served => exact .data isData (served.imp fun _ _ => .of_servesSame same)

theorem SessionM.store_of_loadBytes {path : String} {bytes : Bytes} {session session' : Session}
    (loads : SessionM.loadBytes path session = .ok bytes session') :
    (session.store.load path).1 = .ok bytes ∧ session'.store = (session.store.load path).2.1 := by
  cases found : (session.store.load path).1 with
  | error fault => cases (loadBytes_of_error found).symm.trans loads
  | ok found' =>
      cases (loadBytes_of_ok found).symm.trans loads
      exact ⟨rfl, rfl⟩

theorem inlineImport_served {item literal : Tree} {text : String} {session session' : Session}
    (isRaw : rawImport? item = some text)
    (inlines : inlineImport item text session = .ok literal session') :
    ServedItem session.store item literal ∧ ServesSame session.store session'.store := by
  unfold inlineImport at inlines
  cases unquoted : unquoted? text with
  | none => simp [unquoted, throw, throwThe, MonadExceptOf.throw, EStateM.throw] at inlines
  | some path =>
      simp only [unquoted, SessionM.bind_eq_ok_iff, SessionM.pure_eq_ok_iff,
        SessionM.report_eq_ok_iff] at inlines
      obtain ⟨bytes, between, loads, -, _, rfl, rfl, rfl⟩ := inlines
      obtain ⟨found, behind⟩ := SessionM.store_of_loadBytes loads
      refine ⟨.literal isRaw unquoted found, fun other => ?_⟩
      rw [behind]
      exact session.store.load_load path other

theorem inlineItems_served {session : Session} {items : List Tree}
    (succeeded : (inlineItems session items).1.2 = none) :
    List.Forall₂ (ServedItem session.store) items (inlineItems session items).1.1 ∧
      ServesSame session.store (inlineItems session items).2.store := by
  induction items generalizing session with
  | nil => exact ⟨.nil, fun _ => rfl⟩
  | cons item rest ih =>
      rw [inlineItems] at succeeded ⊢
      cases isRaw : rawImport? item with
      | none =>
          simp only [isRaw] at succeeded ⊢
          obtain ⟨served, same⟩ := ih succeeded
          exact ⟨.cons (.kept isRaw) served, same⟩
      | some text =>
          cases inlines : (inlineImport item text).run session with
          | error fault session' => simp [isRaw, inlines] at succeeded
          | ok literal session' =>
              simp only [isRaw, inlines] at succeeded ⊢
              obtain ⟨servedItem, sameItem⟩ := inlineImport_served isRaw inlines
              obtain ⟨served, same⟩ := ih succeeded
              -- the rest was served by the store behind the import, which serves the same files
              refine ⟨.cons servedItem (served.imp fun _ _ => .of_servesSame sameItem), ?_⟩
              exact fun path => (same path).trans (sameItem path)

theorem inlineForms_served {session : Session} {forms : List Tree}
    (succeeded : (inlineForms session forms).1.2 = none) :
    List.Forall₂ (ServedForm session.store) forms (inlineForms session forms).1.1 := by
  induction forms generalizing session with
  | nil => exact .nil
  | cons form rest ih =>
      rw [inlineForms] at succeeded ⊢
      cases isData : form.hasTag "data" with
      | false =>
          simp only [isData, Bool.false_eq_true, if_false] at succeeded ⊢
          exact .cons (.other isData) (ih succeeded)
      | true =>
          obtain ⟨items, rfl⟩ : ∃ items, form = .list items := by
            cases form with
            | atom text => simp [Tree.hasTag, Tree.tag?] at isData
            | list items => exact ⟨items, rfl⟩
          simp only [isData, if_true, Tree.items] at succeeded ⊢
          have inlined := @inlineItems_served session items
          cases ending : inlineItems session items with
          | mk result session' =>
              obtain ⟨items', failure⟩ := result
              rw [ending] at inlined
              cases failure with
              | some fault => simp [ending] at succeeded
              | none =>
                  simp only [ending] at succeeded ⊢
                  obtain ⟨served, same⟩ := inlined rfl
                  exact .cons (.data isData served)
                    ((ih succeeded).imp fun _ _ => .of_servesSame same)

end WatLink
