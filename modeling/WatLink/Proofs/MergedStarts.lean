import WatLink.Proofs.PassFailures
import WatLink.Proofs.TreeTraversals

/-!
# Merged start entries

Several start entries become one, which names a function that calls their
targets in order.  The name is the first of a fixed sequence that is no atom of
the module, at whatever depth.  The atoms are those that a walk over the module
meets, and the sequence is searched up to a bound.
-/

namespace WatLink

namespace Tree

/-! ## Walks -/

theorem mem_listsOfItems {tree : Tree} {items : List Tree} :
    tree ∈ listsOfItems items ↔ ∃ item ∈ items, tree ∈ item.lists := by
  rw [listsOfItems_eq_flatMap, List.mem_flatMap]

/-- Every atom below the root of a tree is an item of one of its lists. -/
theorem exists_list_iff {tree : Tree} {text : String} :
    (∃ list ∈ tree.lists, .atom text ∈ list.items) ↔
      ∃ item ∈ tree.items, .atom text ∈ item.subtrees := by
  induction tree with
  | atom other => simp [lists, items]
  | list inner ih =>
      have deeper : (∃ list ∈ listsOfItems inner, Tree.atom text ∈ list.items) ↔
          ∃ item ∈ inner, ∃ part ∈ item.items, .atom text ∈ part.subtrees := by
        simp only [mem_listsOfItems]
        constructor
        · rintro ⟨list, ⟨item, member, inside⟩, isItem⟩
          exact ⟨item, member, (ih item member).mp ⟨list, inside, isItem⟩⟩
        · rintro ⟨item, member, below⟩
          obtain ⟨list, inside, isItem⟩ := (ih item member).mpr below
          exact ⟨list, ⟨item, member, inside⟩, isItem⟩
      have root : (∃ list ∈ (Tree.list inner).lists, Tree.atom text ∈ list.items) ↔
          .atom text ∈ inner ∨ ∃ list ∈ listsOfItems inner, .atom text ∈ list.items := by
        simp [lists, items]
      rw [root, deeper]
      constructor
      · rintro (isItem | ⟨item, member, part, isPart, inside⟩)
        · exact ⟨_, isItem, mem_subtrees_self _⟩
        · exact ⟨item, member, mem_subtrees_trans inside (mem_subtrees_of_mem_items isPart)⟩
      · rintro ⟨item, member, inside⟩
        cases item with
        | atom other =>
            obtain rfl : text = other := by simpa [subtrees] using inside
            exact .inl member
        | list others =>
            simp only [subtrees, List.mem_cons, reduceCtorEq, false_or, mem_subtreesOfItems] at inside
            exact .inr ⟨_, member, inside⟩

/-- A walk over a list meets all its atoms. -/
theorem mem_walkAtoms {items : List Tree} {text : String} :
    text ∈ (Tree.list items).walkAtoms ↔ .atom text ∈ (Tree.list items).subtrees := by
  have isAtom : ∀ list : Tree, text ∈ list.items.filterMap text? ↔ .atom text ∈ list.items := by
    intro list
    rw [List.mem_filterMap]
    constructor
    · rintro ⟨item, member, isText⟩
      cases item with
      | atom other => exact Option.some.inj isText ▸ member
      | list others => cases isText
    · intro member
      exact ⟨_, member, rfl⟩
  have inside : Tree.atom text ∈ (Tree.list items).subtrees ↔
      ∃ item ∈ items, .atom text ∈ item.subtrees := by
    simp [subtrees, mem_subtreesOfItems]
  rw [inside, walkAtoms, List.mem_flatMap, walk_eq_lists]
  simp only [isAtom]
  exact exists_list_iff

theorem mem_identifiers {items : List Tree} {text : String} (isName : isIdentifier text = true) :
    text ∈ (Tree.list items).identifiers ↔ .atom text ∈ (Tree.list items).subtrees := by
  rw [identifiers, List.mem_filter, mem_walkAtoms, and_iff_left isName]

end Tree

/-! ## Fresh names -/

/-- The names that are tried one after the other. -/
def candidateName (base : String) : Nat → String
  | 0 => base
  | number + 1 => numberedIdentifier base (number + 1)

theorem toList_candidateName (base : String) (number : Nat) :
    (candidateName base number).toList =
      base.toList ++ if number = 0 then [] else '_' :: Nat.toDigits 10 number := by
  cases number with
  | zero => simp [candidateName]
  | succ number =>
      simp [candidateName, numberedIdentifier, toString, Nat.repr_eq_ofList_toDigits]

theorem candidateName_injective (base : String) : Function.Injective (candidateName base) := by
  intro first second same
  have behind := congrArg String.toList same
  simp only [toList_candidateName, List.append_cancel_left_eq] at behind
  split at behind <;> split at behind
  · omega
  · cases behind
  · cases behind
  · have digits := congrArg (fun digits => Nat.ofDigitChars 10 digits 0) (List.cons.inj behind).2
    simpa using digits

section FreshNames

variable {taken : List String} {base : String}

/-- Searching gives the first name that is not taken. -/
theorem freshIdentifier_eq_ok_iff {identifier : String} :
    freshIdentifier taken base = .ok identifier ↔
      ∃ number ≤ maxProbes, identifier = candidateName base number ∧ identifier ∉ taken ∧
        ∀ smaller < number, candidateName base smaller ∈ taken := by
  have startsAt : ∀ number, (∀ smaller < number + 1, candidateName base smaller ∈ taken) ↔
      base ∈ taken ∧ ∀ probe < number, numberedIdentifier base (probe + 1) ∈ taken := by
    intro number
    constructor
    · intro allTaken
      exact ⟨allTaken 0 (by omega), fun probe isLess => allTaken (probe + 1) (by omega)⟩
    · rintro ⟨baseTaken, othersTaken⟩ smaller isLess
      cases smaller with
      | zero => exact baseTaken
      | succ probe => exact othersTaken probe (by omega)
  unfold freshIdentifier
  constructor
  · intro found
    split at found
    · rename_i baseTaken
      split at found
      · rename_i probe isFirst
        cases found
        simp only [List.find?_range_eq_some, List.mem_range, Bool.not_eq_eq_eq_not, Bool.not_true,
          Bool.not_false, List.contains_eq_mem, decide_eq_false_iff_not, decide_eq_true_eq] at isFirst
        obtain ⟨isFree, inRange, othersTaken⟩ := isFirst
        refine ⟨probe + 1, inRange, rfl, isFree, (startsAt probe).mpr ⟨?_, othersTaken⟩⟩
        simpa using baseTaken
      · cases found
    · rename_i baseFree
      cases found
      exact ⟨0, by omega, rfl, by simpa using baseFree, by omega⟩
  · rintro ⟨number, inRange, rfl, isFree, smallerTaken⟩
    cases number with
    | zero =>
        have notContained : taken.contains base = false := by simpa [candidateName] using isFree
        simp only [notContained, Bool.false_eq_true, if_false, candidateName]
    | succ probe =>
        obtain ⟨baseTaken, othersTaken⟩ := (startsAt probe).mp smallerTaken
        have isFirst : (List.range maxProbes).find? (fun probe =>
            !taken.contains (numberedIdentifier base (probe + 1))) = some probe := by
          rw [List.find?_range_eq_some]
          refine ⟨by simpa [candidateName] using isFree, List.mem_range.mpr inRange, ?_⟩
          intro other isLess
          simpa using othersTaken other isLess
        have contains : taken.contains base = true := by simpa using baseTaken
        simp only [contains, if_true, isFirst, candidateName]

theorem error_of_freshIdentifier {error : LinkError}
    (failed : freshIdentifier taken base = .error error) : error = .identifierTaken base := by
  unfold freshIdentifier at failed
  split at failed
  · split at failed <;> cases failed
    rfl
  · cases failed

/-- Searching fails only when all names are taken. -/
theorem freshIdentifier_eq_error_iff {error : LinkError} :
    freshIdentifier taken base = .error error ↔
      error = .identifierTaken base ∧ ∀ number ≤ maxProbes, candidateName base number ∈ taken := by
  constructor
  · intro failed
    refine ⟨error_of_freshIdentifier failed, ?_⟩
    -- the least name that is free would have been found
    by_contra someFree
    push Not at someFree
    obtain ⟨inRange, isFree⟩ := Nat.find_spec someFree
    have found : freshIdentifier taken base = .ok (candidateName base (Nat.find someFree)) := by
      refine freshIdentifier_eq_ok_iff.mpr ⟨_, inRange, rfl, isFree, fun smaller isLess => ?_⟩
      by_contra smallerFree
      exact Nat.find_min someFree isLess ⟨by omega, smallerFree⟩
    rw [found] at failed
    cases failed
  · rintro ⟨rfl, allTaken⟩
    cases searched : freshIdentifier taken base with
    | ok identifier =>
        obtain ⟨number, inRange, rfl, isFree, -⟩ := freshIdentifier_eq_ok_iff.mp searched
        exact absurd (allTaken number inRange) isFree
    | error error => rw [error_of_freshIdentifier searched]

end FreshNames

/-! ## Targets -/

/-- The start entry of a function. -/
def startEntry (target : String) : Tree :=
  .form "start" [.atom target]

theorem startTarget_eq_ok_iff {form : Tree} {target : String} (isStart : form.hasTag "start" = true) :
    startTarget form = .ok target ↔ form = startEntry target := by
  have tagged : form.tag? = some "start" := by simpa [Tree.hasTag] using isStart
  obtain ⟨rest, rfl⟩ := Tree.exists_of_tag? tagged
  rcases rest with _ | ⟨_ | _, _ | ⟨_, _⟩⟩ <;>
    simp [startTarget, Tree.items, startEntry, Tree.form]

section Targets

variable {forms : List Tree}

theorem startTargets_eq_ok_iff (areStarts : ∀ form ∈ forms, form.hasTag "start" = true)
    {targets : List String} : startTargets forms = .ok targets ↔ forms = targets.map startEntry := by
  induction forms generalizing targets with
  | nil => simp [startTargets, eq_comm]
  | cons form rest ih =>
      obtain ⟨isStart, areStartsRest⟩ := List.forall_mem_cons.mp areStarts
      rw [startTargets]
      cases own : startTarget form with
      | error fault =>
          suffices ¬ form :: rest = targets.map startEntry by simpa using this
          intro same
          cases targets with
          | nil => cases same
          | cons target others =>
              rw [(startTarget_eq_ok_iff isStart).mpr (List.cons.inj same).1] at own
              cases own
      | ok target =>
          obtain rfl := (startTarget_eq_ok_iff isStart).mp own
          simp only [exceptMap_eq_ok_iff, ih areStartsRest]
          constructor
          · rintro ⟨others, rfl, rfl⟩
            rfl
          · intro same
            cases targets with
            | nil => cases same
            | cons other others =>
                obtain ⟨sameForm, sameRest⟩ := List.cons.inj same
                obtain rfl : target = other := by simpa [startEntry, Tree.form] using sameForm
                exact ⟨others, sameRest, rfl⟩

/-- Reading targets fails at an entry that does not name exactly one function. -/
theorem startTargets_eq_error (areStarts : ∀ form ∈ forms, form.hasTag "start" = true)
    {error : LinkError} (failed : startTargets forms = .error error) :
    ∃ form ∈ forms, (∀ target, form ≠ startEntry target) ∧
      error = .malformedForm .startTarget form := by
  induction forms with
  | nil => cases failed
  | cons form rest ih =>
      obtain ⟨isStart, areStartsRest⟩ := List.forall_mem_cons.mp areStarts
      rw [startTargets] at failed
      cases own : startTarget form with
      | error fault =>
          simp only [own, Except.error.injEq] at failed
          subst failed
          refine ⟨form, by simp, fun target isEntry => ?_, ?_⟩
          · rw [(startTarget_eq_ok_iff isStart).mpr isEntry] at own
            cases own
          · unfold startTarget at own
            split at own <;> cases own
            rfl
      | ok target =>
          simp only [own, exceptMap_eq_error_iff] at failed
          obtain ⟨other, member, malformed⟩ := ih areStartsRest failed
          exact ⟨other, List.mem_cons_of_mem form member, malformed⟩

end Targets

/-! ## Merging -/

namespace Module

/-- The start entries of a module. -/
def starts (module : Tree) : List Tree :=
  module.items.filter (·.hasTag "start")

theorem hasTag_of_mem_starts (module : Tree) :
    ∀ form ∈ starts module, form.hasTag "start" = true :=
  fun _ member => (List.mem_filter.mp member).2

section Merging

variable {module : Tree}

theorem mergeStarts_of_few (few : (starts module).length ≤ 1) :
    mergeStarts module = .ok (module, none) := by
  simp only [mergeStarts]
  exact if_pos few

theorem mergeStarts_of_malformed (several : 2 ≤ (starts module).length) {error : LinkError}
    (malformed : startTargets (starts module) = .error error) :
    mergeStarts module = .error error := by
  unfold starts at several malformed
  simp only [mergeStarts, malformed]
  exact if_neg (by omega)

theorem mergeStarts_of_targets (several : 2 ≤ (starts module).length) {targets : List String}
    (found : startTargets (starts module) = .ok targets) :
    mergeStarts module =
      (freshIdentifier module.identifiers startIdentifier).map fun identifier =>
        (.list (module.items.filter (!·.hasTag "start") ++
          [startFunction identifier targets, startEntry identifier]),
          some (targets.length, identifier)) := by
  unfold starts at several found
  simp only [mergeStarts, found]
  rw [if_neg (by omega)]
  cases freshIdentifier module.identifiers startIdentifier <;> rfl

theorem exists_items_of_starts (several : 2 ≤ (starts module).length) :
    ∃ items, module = .list items := by
  cases module with
  | atom text => simp [starts, Tree.items] at several
  | list items => exact ⟨items, rfl⟩

/-- The names that are tried are identifiers, so the walk for identifiers finds
them wherever they are. -/
theorem mem_identifiers_candidateName (several : 2 ≤ (starts module).length) (number : Nat) :
    candidateName startIdentifier number ∈ module.identifiers ↔
      .atom (candidateName startIdentifier number) ∈ module.subtrees := by
  obtain ⟨items, rfl⟩ := exists_items_of_starts several
  have starts : startIdentifier.toList.head? = some '$' := by decide
  refine Tree.mem_identifiers ?_
  rw [isIdentifier, toList_candidateName, List.head?_append, starts]
  rfl

/-- What an error of merging is about. -/
theorem mergeStarts_eq_error {error : LinkError} (failed : mergeStarts module = .error error) :
    2 ≤ (starts module).length ∧
      ((∃ form ∈ starts module, (∀ target, form ≠ startEntry target) ∧
          error = .malformedForm .startTarget form) ∨
        (∀ form ∈ starts module, ∃ target, form = startEntry target) ∧
          error = .identifierTaken startIdentifier ∧
          ∀ number ≤ maxProbes,
            .atom (candidateName startIdentifier number) ∈ module.subtrees) := by
  have several : 2 ≤ (starts module).length := by
    by_contra few
    rw [mergeStarts_of_few (by omega)] at failed
    cases failed
  refine ⟨several, ?_⟩
  cases found : startTargets (starts module) with
  | error fault =>
      cases (mergeStarts_of_malformed several found).symm.trans failed
      exact .inl (startTargets_eq_error (hasTag_of_mem_starts module) found)
  | ok targets =>
      rw [mergeStarts_of_targets several found, exceptMap_eq_error_iff,
        freshIdentifier_eq_error_iff] at failed
      have entries := (startTargets_eq_ok_iff (hasTag_of_mem_starts module)).mp found
      refine .inr ⟨fun form member => ?_, failed.1, fun number inRange => ?_⟩
      · rw [entries] at member
        obtain ⟨target, -, rfl⟩ := List.mem_map.mp member
        exact ⟨target, rfl⟩
      · exact (mem_identifiers_candidateName several number).mp (failed.2 number inRange)

theorem exists_error_of_malformed (several : 2 ≤ (starts module).length)
    (malformed : ∃ form ∈ starts module, ∀ target, form ≠ startEntry target) :
    ∃ form, mergeStarts module = .error (.malformedForm .startTarget form) := by
  cases found : startTargets (starts module) with
  | error fault =>
      obtain ⟨form, -, -, rfl⟩ := startTargets_eq_error (hasTag_of_mem_starts module) found
      exact ⟨form, mergeStarts_of_malformed several found⟩
  | ok targets =>
      obtain ⟨form, member, isNone⟩ := malformed
      rw [(startTargets_eq_ok_iff (hasTag_of_mem_starts module)).mp found] at member
      obtain ⟨target, -, rfl⟩ := List.mem_map.mp member
      exact absurd rfl (isNone target)

theorem mergeStarts_of_allTaken (several : 2 ≤ (starts module).length)
    (entries : ∀ form ∈ starts module, ∃ target, form = startEntry target)
    (allTaken : ∀ number ≤ maxProbes,
      .atom (candidateName startIdentifier number) ∈ module.subtrees) :
    mergeStarts module = .error (.identifierTaken startIdentifier) := by
  cases found : startTargets (starts module) with
  | error fault =>
      obtain ⟨form, member, isNone, -⟩ := startTargets_eq_error (hasTag_of_mem_starts module) found
      obtain ⟨target, isEntry⟩ := entries form member
      exact absurd isEntry (isNone target)
  | ok targets =>
      rw [mergeStarts_of_targets several found, exceptMap_eq_error_iff,
        freshIdentifier_eq_error_iff]
      refine ⟨rfl, fun number inRange => ?_⟩
      exact (mem_identifiers_candidateName several number).mpr (allTaken number inRange)

/-- The names that are tried are too many for fewer identifiers. -/
theorem lt_encard_of_allTaken (allTaken : ∀ number ≤ maxProbes,
      .atom (candidateName startIdentifier number) ∈ module.subtrees) :
    maxProbes <
      {text | isIdentifier text = true ∧ .atom text ∈ module.subtrees}.encard := by
  have tried : (candidateName startIdentifier '' Set.Iic maxProbes).encard = maxProbes + 1 := by
    rw [(candidateName_injective startIdentifier).encard_image]
    simp [Set.encard_coe_eq_coe_finsetCard, ← Finset.coe_Iic]
  have starts : startIdentifier.toList.head? = some '$' := by decide
  have within : candidateName startIdentifier '' Set.Iic maxProbes ⊆
      {text | isIdentifier text = true ∧ .atom text ∈ module.subtrees} := by
    rintro _ ⟨number, inRange, rfl⟩
    refine ⟨?_, allTaken number inRange⟩
    rw [isIdentifier, toList_candidateName, List.head?_append, starts]
    rfl
  have least := Set.encard_le_encard within
  rw [tried] at least
  exact (ENat.add_one_le_iff (by simp)).mp least

end Merging

/-- Merging leaves a module with at most one start entry as it is.  Of several it
makes one, for a function that calls all their targets in order and has the first
name of the sequence that is no atom of the module.  It fails, and changes
nothing, if one of several entries does not name exactly one function, and else
if all names of the sequence are taken. -/
theorem mergeStarts_under_fresh_name (module : Tree) :
    ((starts module).length ≤ 1 → mergeStarts module = .ok (module, none)) ∧
    (∀ result event?, 2 ≤ (starts module).length → mergeStarts module = .ok (result, event?) →
      ∃ (targets : List String) (number : Nat),
        starts module = targets.map startEntry ∧ number ≤ maxProbes ∧
        .atom (candidateName startIdentifier number) ∉ module.subtrees ∧
        (∀ smaller < number, .atom (candidateName startIdentifier smaller) ∈ module.subtrees) ∧
        result = .list (module.items.filter (!·.hasTag "start") ++
          [.form "func" (.atom (candidateName startIdentifier number) ::
              targets.map fun target => .form "call" [.atom target]),
            .form "start" [.atom (candidateName startIdentifier number)]])) ∧
    ((∃ form, mergeStarts module = .error (.malformedForm .startTarget form)) ↔
      2 ≤ (starts module).length ∧
        ∃ form ∈ starts module, ∀ target, form ≠ .form "start" [.atom target]) ∧
    (mergeStarts module = .error (.identifierTaken startIdentifier) ↔
      2 ≤ (starts module).length ∧
        (∀ form ∈ starts module, ∃ target, form = .form "start" [.atom target]) ∧
        ∀ number ≤ maxProbes, .atom (candidateName startIdentifier number) ∈ module.subtrees) ∧
    ({text | isIdentifier text = true ∧ .atom text ∈ module.subtrees}.encard ≤ maxProbes →
      mergeStarts module ≠ .error (.identifierTaken startIdentifier)) ∧
    ∀ error, mergeStarts module = .error error →
      ((∃ form, error = .malformedForm .startTarget form) ∨
        error = .identifierTaken startIdentifier) ∧
      ∀ origin session, Pass.apply .mergeStarts origin ⟨module, session, none⟩ =
        ⟨module, session, some error⟩ := by
  refine ⟨mergeStarts_of_few, fun result event? several merges => ?_, ⟨?_, ?_⟩, ⟨?_, ?_⟩, ?_, ?_⟩
  · cases found : startTargets (starts module) with
    | error fault => cases (mergeStarts_of_malformed several found).symm.trans merges
    | ok targets =>
        rw [mergeStarts_of_targets several found, exceptMap_eq_ok_iff] at merges
        obtain ⟨identifier, searched, same⟩ := merges
        obtain ⟨number, inRange, rfl, isFree, smallerTaken⟩ := freshIdentifier_eq_ok_iff.mp searched
        cases same
        have atoms := mem_identifiers_candidateName several
        exact ⟨targets, number, (startTargets_eq_ok_iff (hasTag_of_mem_starts module)).mp found,
          inRange, (atoms number).not.mp isFree,
          fun smaller isLess => (atoms smaller).mp (smallerTaken smaller isLess), rfl⟩
  · rintro ⟨form, failed⟩
    obtain ⟨several, ⟨form, member, isNone, -⟩ | ⟨-, ⟨⟩, -⟩⟩ := mergeStarts_eq_error failed
    exact ⟨several, form, member, isNone⟩
  · rintro ⟨several, malformed⟩
    exact exists_error_of_malformed several malformed
  · intro failed
    obtain ⟨several, ⟨form, -, -, ⟨⟩⟩ | ⟨entries, -, allTaken⟩⟩ := mergeStarts_eq_error failed
    exact ⟨several, entries, allTaken⟩
  · rintro ⟨several, entries, allTaken⟩
    exact mergeStarts_of_allTaken several entries allTaken
  · intro few failed
    obtain ⟨-, ⟨form, -, -, ⟨⟩⟩ | ⟨-, -, allTaken⟩⟩ := mergeStarts_eq_error failed
    exact absurd few (not_le.mpr (lt_encard_of_allTaken allTaken))
  · intro error failed
    refine ⟨?_, fun origin session => ?_⟩
    · obtain ⟨-, ⟨form, -, -, isError⟩ | ⟨-, isError, -⟩⟩ := mergeStarts_eq_error failed
      · exact .inl ⟨form, isError⟩
      · exact .inr isError
    · simp only [Pass.apply, failed, LinkState.fail]

/-- A module with two start entries where the first name is taken inside a
function. -/
def namedStarts : Tree :=
  .form "module" [.form "start" [.atom "$first"],
    .form "func" [.form "block" [.form "call" [.atom startIdentifier]]],
    .form "start" [.atom "7"]]

theorem mergeStarts_namedStarts :
    2 ≤ (starts namedStarts).length ∧
      ∃ event?, mergeStarts namedStarts = .ok (.form "module"
        [.form "func" [.form "block" [.form "call" [.atom startIdentifier]]],
          .form "func" [.atom "$_swl_start_merger_1", .form "call" [.atom "$first"],
            .form "call" [.atom "7"]],
          .form "start" [.atom "$_swl_start_merger_1"]], event?) := by
  have several : 2 ≤ (starts namedStarts).length := by decide
  refine ⟨several, ?_⟩
  obtain ⟨-, merged, malformed, taken, -, errors⟩ := mergeStarts_under_fresh_name namedStarts
  have entries : ∀ form ∈ starts namedStarts, ∃ target, form = .form "start" [.atom target] := by
    intro form member
    have isEntry : form ∈ ["$first", "7"].map startEntry := member
    obtain ⟨target, -, rfl⟩ := List.mem_map.mp isEntry
    exact ⟨target, rfl⟩
  have second : Tree.atom (candidateName startIdentifier 1) ∉ namedStarts.subtrees := by
    decide
  cases merges : mergeStarts namedStarts with
  | error error =>
      rcases (errors error merges).1 with ⟨form, rfl⟩ | rfl
      · obtain ⟨-, form, member, isNone⟩ := malformed.mp ⟨form, merges⟩
        obtain ⟨target, isEntry⟩ := entries form member
        exact absurd isEntry (isNone target)
      · exact absurd ((taken.mp merges).2.2 1 (by decide)) second
  | ok outcome =>
      obtain ⟨targets, number, starts_eq, -, isFree, smallerTaken, result_eq⟩ :=
        merged outcome.1 outcome.2 several merges
      obtain rfl : targets = ["$first", "7"] := by
        have same : ["$first", "7"].map startEntry = targets.map startEntry := starts_eq
        refine ((List.map_injective_iff.mpr fun first second sameEntry => ?_) same).symm
        simpa [startEntry, Tree.form] using sameEntry
      obtain rfl : number = 1 := by
        have notFirst : number ≠ 0 := by
          rintro rfl
          exact isFree (by decide)
        by_contra other
        exact second (smallerTaken 1 (by omega))
      refine ⟨outcome.2, ?_⟩
      rw [← Prod.eta outcome, result_eq]
      rfl

end Module

end WatLink
