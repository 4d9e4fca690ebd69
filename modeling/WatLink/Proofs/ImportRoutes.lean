import WatLink.Proofs.FileExpansion

/-!
# Routes of imports

A route follows imports from file to file.  It is given by the positions of the
imports along it, so two imports of one path are two routes.  A full expansion
holds the items of the root that are no imports, and for every route once the
forms of the file that the route ends at; nothing else and nothing twice.
-/

namespace WatLink

/-- A route of imports from some items to a path. -/
inductive Route (files : Files) : List Tree → List Nat → String → Prop
  | last {items : List Tree} {position : Nat} {item : Tree} {path : String} :
      items[position]? = some item → ImportsFile item path →
        Route files items [position] path
  | through {items : List Tree} {position : Nat} {item module : Tree} {path target : String}
      {positions : List Nat} :
      items[position]? = some item → ImportsFile item path →
        moduleAt? files path = some module → Route files module.items positions target →
          Route files items (position :: positions) target

/-- The items that are no file imports. -/
def keptItems (items : List Tree) : List Tree :=
  items.filter fun item => (fileImport? item).isNone

/-- The forms of the file at a path that are no file imports. -/
def ownForms (files : Files) (path : String) : List Tree :=
  match moduleAt? files path with
  | some module => keptItems module.forms
  | none => []

/-- The positions of a route when one more item stands in front. -/
def behindItem : List Nat → List Nat
  | [] => []
  | position :: positions => (position + 1) :: positions

theorem behindItem_injective : Function.Injective behindItem := by
  intro first second same
  cases first <;> cases second <;> simp_all [behindItem]

namespace Route

variable {files : Files} {items rest : List Tree} {item : Tree} {positions : List Nat}
  {path : String}

theorem ne_nil (route : Route files items positions path) : positions ≠ [] := by
  cases route <;> simp

theorem behind (route : Route files rest positions path) :
    Route files (item :: rest) (behindItem positions) path := by
  cases route with
  | last found imports => exact .last (by simpa using found) imports
  | through found imports holds route => exact .through (by simpa using found) imports holds route

theorem cons_cases (route : Route files (item :: rest) positions path) :
    (ImportsFile item path ∧ positions = [0]) ∨
      (∃ through module inner, ImportsFile item through ∧ moduleAt? files through = some module ∧
        Route files module.items inner path ∧ positions = 0 :: inner) ∨
      ∃ inner, Route files rest inner path ∧ positions = behindItem inner := by
  cases route with
  | @last _ position _ _ found imports =>
      cases position with
      | zero =>
          obtain rfl := Option.some.inj found
          exact .inl ⟨imports, rfl⟩
      | succ position =>
          exact .inr (.inr ⟨[position], .last (by simpa using found) imports, rfl⟩)
  | @through _ position _ module through _ inner found imports holds route =>
      cases position with
      | zero =>
          obtain rfl := Option.some.inj found
          exact .inr (.inl ⟨through, module, inner, imports, holds, route, rfl⟩)
      | succ position =>
          exact .inr (.inr ⟨position :: inner,
            .through (by simpa using found) imports holds route, rfl⟩)

theorem cons_kept_iff (isOther : fileImport? item = none) :
    Route files (item :: rest) positions path ↔
      ∃ inner, Route files rest inner path ∧ positions = behindItem inner := by
  constructor
  · intro route
    rcases route.cons_cases with ⟨imports, -⟩ | ⟨_, _, _, imports, -⟩ | behind
    · exact absurd isOther imports.ne_none
    · exact absurd isOther imports.ne_none
    · exact behind
  · rintro ⟨inner, route, rfl⟩
    exact route.behind

theorem cons_import_iff {target : String} {module : Tree} (imports : ImportsFile item path)
    (holds : moduleAt? files path = some module) :
    Route files (item :: rest) positions target ↔
      (target = path ∧ positions = [0]) ∨
        (∃ inner, Route files module.items inner target ∧ positions = 0 :: inner) ∨
          ∃ inner, Route files rest inner target ∧ positions = behindItem inner := by
  constructor
  · intro route
    rcases route.cons_cases with ⟨imports', rfl⟩ | ⟨through, module', inner, imports', holds',
        route', rfl⟩ | behind
    · exact .inl ⟨imports'.unique imports, rfl⟩
    · obtain rfl := imports'.unique imports
      rw [holds, Option.some.injEq] at holds'
      subst holds'
      exact .inr (.inl ⟨inner, route', rfl⟩)
    · exact .inr (.inr behind)
  · rintro (⟨rfl, rfl⟩ | ⟨inner, route, rfl⟩ | ⟨inner, route, rfl⟩)
    · exact .last rfl imports
    · exact .through rfl imports holds route
    · exact route.behind

end Route

/-- All routes from some items, each once. -/
structure RouteList (files : Files) (items : List Tree) (routes : List (List Nat × String)) :
    Prop where
  nodup : routes.Nodup
  mem_iff : ∀ positions path, (positions, path) ∈ routes ↔ Route files items positions path

namespace RouteList

variable {files : Files} {item module : Tree} {rest : List Tree} {path : String}
  {routes inner : List (List Nat × String)}

theorem nil : RouteList files [] [] := by
  refine ⟨List.nodup_nil, fun positions path => ⟨by simp, fun route => ?_⟩⟩
  cases route with
  | last found _ => simp at found
  | through found _ _ _ => simp at found

/-- The routes behind one more item. -/
def behind (routes : List (List Nat × String)) : List (List Nat × String) :=
  routes.map fun route => (behindItem route.1, route.2)

/-- The routes through an import at the front. -/
def through (path : String) (inner : List (List Nat × String)) : List (List Nat × String) :=
  ([0], path) :: inner.map fun route => (0 :: route.1, route.2)

theorem nodup_behind (list : RouteList files rest routes) : (behind routes).Nodup := by
  refine list.nodup.map fun first second same => ?_
  rw [Prod.mk.injEq] at same
  exact Prod.ext (behindItem_injective same.1) same.2

theorem mem_behind {positions : List Nat} {target : String} (list : RouteList files rest routes) :
    (positions, target) ∈ behind routes ↔
      ∃ inner, Route files rest inner target ∧ positions = behindItem inner := by
  simp only [behind, List.mem_map, Prod.mk.injEq, Prod.exists, list.mem_iff]
  constructor
  · rintro ⟨inner, _, route, rfl, rfl⟩
    exact ⟨inner, route, rfl⟩
  · rintro ⟨inner, route, rfl⟩
    exact ⟨inner, target, route, rfl, rfl⟩

theorem mem_through {positions : List Nat} {target : String}
    (list : RouteList files module.items inner) :
    (positions, target) ∈ through path inner ↔
      (target = path ∧ positions = [0]) ∨
        ∃ inner, Route files module.items inner target ∧ positions = 0 :: inner := by
  simp only [through, List.mem_cons, List.mem_map, Prod.mk.injEq, Prod.exists, list.mem_iff]
  constructor
  · rintro (⟨rfl, rfl⟩ | ⟨inner, _, route, rfl, rfl⟩)
    · exact .inl ⟨rfl, rfl⟩
    · exact .inr ⟨inner, route, rfl⟩
  · rintro (⟨rfl, rfl⟩ | ⟨inner, route, rfl⟩)
    · exact .inl ⟨rfl, rfl⟩
    · exact .inr ⟨inner, target, route, rfl, rfl⟩

theorem nodup_through (list : RouteList files module.items inner) :
    (through path inner).Nodup := by
  refine List.nodup_cons.mpr ⟨?_, list.nodup.map fun first second same => ?_⟩
  · simp only [List.mem_map, Prod.mk.injEq, List.cons.injEq, true_and, Prod.exists, list.mem_iff]
    rintro ⟨_, _, route, rfl, -⟩
    exact route.ne_nil rfl
  · simp only [Prod.mk.injEq, List.cons.injEq, true_and] at same
    exact Prod.ext same.1 same.2

theorem keep (list : RouteList files rest routes) (isOther : fileImport? item = none) :
    RouteList files (item :: rest) (behind routes) :=
  ⟨list.nodup_behind, fun _ _ => by rw [list.mem_behind, Route.cons_kept_iff isOther]⟩

theorem splice (innerList : RouteList files module.items inner)
    (list : RouteList files rest routes) (imports : ImportsFile item path)
    (holds : moduleAt? files path = some module) :
    RouteList files (item :: rest) (through path inner ++ behind routes) := by
  refine ⟨innerList.nodup_through.append list.nodup_behind ?_, fun positions target => ?_⟩
  · rintro ⟨positions, target⟩ isThrough isBehind
    obtain ⟨others, -, same⟩ := list.mem_behind.mp isBehind
    rcases innerList.mem_through.mp isThrough with ⟨-, rfl⟩ | ⟨_, -, rfl⟩
    · cases others <;> simp [behindItem] at same
    · cases others <;> simp [behindItem] at same
  · rw [List.mem_append, innerList.mem_through, list.mem_behind,
      Route.cons_import_iff imports holds, or_assoc]

end RouteList

/-- What the files at the ends of routes contribute. -/
def contributed (files : Files) (routes : List (List Nat × String)) : List Tree :=
  routes.flatMap fun route => ownForms files route.2

@[simp]
theorem contributed_behind (files : Files) (routes : List (List Nat × String)) :
    contributed files (RouteList.behind routes) = contributed files routes := by
  simp [contributed, RouteList.behind, List.flatMap_map]

@[simp]
theorem contributed_through (files : Files) (path : String) (inner : List (List Nat × String)) :
    contributed files (RouteList.through path inner) =
      ownForms files path ++ contributed files inner := by
  simp [contributed, RouteList.through, List.flatMap_map]

theorem isList_of_mem_ownForms {files : Files} {path : String} {form : Tree}
    (member : form ∈ ownForms files path) : form.isList = true := by
  unfold ownForms at member
  split at member
  · exact List.of_mem_filter (List.mem_of_mem_filter member)
  · simp at member

theorem filter_isList_contributed (files : Files) (routes : List (List Nat × String)) :
    (contributed files routes).filter Tree.isList = contributed files routes := by
  rw [List.filter_eq_self]
  intro form member
  obtain ⟨route, -, member⟩ := List.mem_flatMap.mp member
  exact isList_of_mem_ownForms member

theorem filter_isList_perm {files : Files} {path : String} {module : Tree}
    (holds : moduleAt? files path = some module) {expanded : List Tree}
    {routes : List (List Nat × String)}
    (perm : expanded.Perm (keptItems module.items ++ contributed files routes)) :
    (expanded.filter Tree.isList).Perm (ownForms files path ++ contributed files routes) := by
  have own : (keptItems module.items).filter Tree.isList = ownForms files path := by
    rw [ownForms, holds]
    simp only [keptItems, Tree.forms, List.filter_filter, Bool.and_comm]
  have filtered := perm.filter Tree.isList
  rwa [List.filter_append, own, filter_isList_contributed] at filtered

/-- A full expansion holds what the root keeps and what each route contributes. -/
theorem FullExpansion.exists_routes {files : Files} {items expanded : List Tree}
    (expands : FullExpansion files items expanded) :
    ∃ routes, RouteList files items routes ∧
      expanded.Perm (keptItems items ++ contributed files routes) := by
  induction expands with
  | nil => exact ⟨[], .nil, .refl []⟩
  | @keep item rest expandedRest isOther _ ih =>
      obtain ⟨routes, list, perm⟩ := ih
      refine ⟨RouteList.behind routes, list.keep isOther, ?_⟩
      have kept : keptItems (item :: rest) = item :: keptItems rest := by
        simp [keptItems, isOther]
      rw [kept, contributed_behind]
      exact perm.cons item
  | @splice item module path rest expanded expandedRest imports holds _ _ innerIH restIH =>
      obtain ⟨inner, innerList, innerPerm⟩ := innerIH
      obtain ⟨routes, list, perm⟩ := restIH
      refine ⟨_, innerList.splice list imports holds, ?_⟩
      have kept : keptItems (item :: rest) = keptItems rest := by
        obtain ⟨text, isImport, -⟩ := imports
        simp [keptItems, isImport]
      -- The import itself is a route too, and it contributes what its file keeps.
      have forms := filter_isList_perm holds innerPerm
      have joined : contributed files (RouteList.through path inner ++ RouteList.behind routes) =
          (ownForms files path ++ contributed files inner) ++ contributed files routes := by
        rw [contributed, List.flatMap_append, ← contributed, ← contributed,
          contributed_through, contributed_behind]
      rw [kept, joined]
      calc
        (expanded.filter Tree.isList ++ expandedRest).Perm
            ((ownForms files path ++ contributed files inner) ++
              (keptItems rest ++ contributed files routes)) := forms.append perm
        List.Perm _ (keptItems rest ++
            ((ownForms files path ++ contributed files inner) ++ contributed files routes)) :=
          List.perm_append_comm_assoc _ _ _

theorem FullExpansion.mem_cases {files : Files} {items expanded : List Tree}
    (expands : FullExpansion files items expanded) {item : Tree} (member : item ∈ expanded) :
    item ∈ items ∨ ∃ positions path module, Route files items positions path ∧
      moduleAt? files path = some module ∧ item ∈ module.items := by
  obtain ⟨routes, list, perm⟩ := expands.exists_routes
  rcases List.mem_append.mp (perm.mem_iff.mp member) with kept | own
  · exact .inl (List.mem_of_mem_filter kept)
  · obtain ⟨⟨positions, path⟩, isRoute, own⟩ := List.mem_flatMap.mp own
    have route := (list.mem_iff positions path).mp isRoute
    unfold ownForms at own
    split at own
    case h_1 module holds =>
      have isForm : item ∈ module.forms := List.mem_of_mem_filter own
      exact .inr ⟨positions, path, module, route, holds, List.mem_of_mem_filter isForm⟩
    case h_2 => simp at own

end WatLink
