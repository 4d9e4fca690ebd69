import Mathlib
import WatLink.Link.Linker

/-!
# What passes look at

Only the first two passes read files.  All others turn a tree into a tree or a
failure without looking at the session, so runs that reach the same tree go on
alike, whatever they have read and reported.
-/

namespace WatLink

/-- Whether two states have the same tree and the same failure. -/
structure SameOutcome (state state' : LinkState) : Prop where
  tree : state.tree = state'.tree
  failure : state.failure = state'.failure

/-- Whether a pass reads files. -/
def Pass.ReadsFiles (pass : Pass) : Prop :=
  pass = .expandImports ∨ pass = .inlineData

namespace SameOutcome

variable {state state' : LinkState}

theorem adopt {ε : Type} (same : SameOutcome state state') (revision : Revision ε)
    (ofFailure : ε → LinkError) (event : Nat → Event) :
    SameOutcome (state.adopt revision ofFailure event)
      (state'.adopt revision ofFailure event) := by
  unfold LinkState.adopt
  cases revision.failure with
  | some error => exact ⟨rfl, rfl⟩
  | none => exact ⟨rfl, same.failure⟩

theorem apply {pass : Pass} (same : SameOutcome state state') (noFiles : ¬ pass.ReadsFiles)
    (origin : Option String) :
    SameOutcome (pass.apply origin state) (pass.apply origin state') := by
  cases pass with
  | expandImports => exact absurd (.inl rfl) noFiles
  | inlineData => exact absurd (.inr rfl) noFiles
  | decimalNumerals =>
      simp only [Pass.apply, same.tree]
      exact same.adopt _ _ _
  | foldConstants =>
      simp only [Pass.apply, same.tree]
      exact same.adopt _ _ _
  | sizeMemories =>
      simp only [Pass.apply, same.tree]
      exact ⟨rfl, rfl⟩
  | mergeStarts =>
      simp only [Pass.apply, same.tree]
      split
      · exact ⟨same.tree, rfl⟩
      · exact ⟨rfl, same.failure⟩
      · exact ⟨rfl, same.failure⟩
  | sortForms =>
      simp only [Pass.apply, same.tree]
      exact ⟨rfl, same.failure⟩

theorem run {pass : Pass} (same : SameOutcome state state') (noFiles : ¬ pass.ReadsFiles)
    (origin : Option String) : SameOutcome (pass.run origin state) (pass.run origin state') := by
  have reported : SameOutcome (state.report (.runningPass pass))
      (state'.report (.runningPass pass)) := ⟨same.tree, same.failure⟩
  unfold Pass.run
  by_cases isModule : state.tree.isModule = true
  · have isModule' : state'.tree.isModule = true := same.tree ▸ isModule
    simp only [LinkState.report, isModule, isModule', if_true]
    exact reported.apply noFiles origin
  · have isModule' : ¬ state'.tree.isModule = true := same.tree ▸ isModule
    simp only [LinkState.report, isModule, isModule']
    exact ⟨same.tree, rfl⟩

theorem runPasses {passes : List Pass} (same : SameOutcome state state')
    (noFiles : ∀ pass ∈ passes, ¬ pass.ReadsFiles) (origin : Option String) :
    SameOutcome (Link.runPasses origin passes state) (Link.runPasses origin passes state') := by
  induction passes generalizing state state' with
  | nil => exact same
  | cons pass rest ih =>
      rw [Link.runPasses, Link.runPasses, ← same.failure]
      cases state.failure with
      | some error => exact same
      | none =>
          exact ih (same.run (noFiles pass (by simp)) origin)
            fun other member => noFiles other (by simp [member])

end SameOutcome

namespace Link

theorem runPasses_of_failure {state : LinkState} {error : LinkError}
    (failed : state.failure = some error) (origin : Option String) (passes : List Pass) :
    runPasses origin passes state = state := by
  cases passes with
  | nil => rfl
  | cons pass rest => rw [runPasses, failed]

theorem failure_eq_none_of_runPasses {origin : Option String} {passes : List Pass}
    {state : LinkState} (succeeded : (runPasses origin passes state).failure = none) :
    state.failure = none := by
  cases failed : state.failure with
  | none => rfl
  | some error => rw [runPasses_of_failure failed, failed] at succeeded; cases succeeded

theorem runPasses_cons {state : LinkState} (notFailed : state.failure = none)
    (origin : Option String) (pass : Pass) (rest : List Pass) :
    runPasses origin (pass :: rest) state = runPasses origin rest (pass.run origin state) := by
  rw [runPasses, notFailed]

theorem runPasses_append (origin : Option String) (passes more : List Pass) (state : LinkState) :
    runPasses origin (passes ++ more) state =
      runPasses origin more (runPasses origin passes state) := by
  induction passes generalizing state with
  | nil => rfl
  | cons pass rest ih =>
      cases failed : state.failure with
      | none => rw [List.cons_append, runPasses_cons failed, runPasses_cons failed, ih]
      | some error => rw [runPasses_of_failure failed, runPasses_of_failure failed,
          runPasses_of_failure failed]

/-- Linking a source gives a tree exactly if it can be read and linked without a
failure. -/
theorem linkSource_eq_ok_iff {passes : List Pass} {origin : Option String} {source : String}
    {linked : Tree} {session session' : Session} :
    linkSource passes origin source session = .ok linked session' ↔
      ∃ tree, Tree.parse source = .ok tree ∧
        (link passes origin session tree).failure = none ∧
        linked = (link passes origin session tree).tree ∧
        session' = (link passes origin session tree).session := by
  unfold linkSource
  cases Tree.parse source with
  | error fault => simp
  | ok tree =>
      cases failed : (link passes origin session tree).failure with
      | none => simp [failed, eq_comm]
      | some fault => simp [failed]

/-- A run gives a text exactly if its names select passes that link the source
without a failure; the text is the printed tree. -/
theorem run_eq_ok_iff_linkSource {names : List String} {origin : Option String}
    {source output : String} {session session' : Session} :
    run names origin source session = .ok output session' ↔
      ∃ passes linked, selectPasses names = .ok passes ∧
        linkSource passes origin source session = .ok linked session' ∧
        output = linked.print := by
  unfold run
  cases selectPasses names with
  | error fault => simp
  | ok passes =>
      cases ending : linkSource passes origin source session with
      | error fault session'' => simp [ending]
      | ok linked session'' =>
          simp only [ending, EStateM.Result.ok.injEq, Except.ok.injEq]
          constructor
          · rintro ⟨rfl, rfl⟩
            exact ⟨passes, linked, rfl, ending, rfl⟩
          · rintro ⟨_, linked', rfl, ending', rfl⟩
            rw [ending] at ending'
            cases ending'
            exact ⟨rfl, rfl⟩

theorem run_eq_ok_iff {names : List String} {origin : Option String} {source output : String}
    {session session' : Session} :
    run names origin source session = .ok output session' ↔
      ∃ passes tree, selectPasses names = .ok passes ∧ Tree.parse source = .ok tree ∧
        (link passes origin session tree).failure = none ∧
        output = (link passes origin session tree).tree.print ∧
        session' = (link passes origin session tree).session := by
  rw [run_eq_ok_iff_linkSource]
  constructor
  · rintro ⟨passes, linked, selects, links, rfl⟩
    obtain ⟨tree, parsed, succeeded, rfl, same⟩ := linkSource_eq_ok_iff.mp links
    exact ⟨passes, tree, selects, parsed, succeeded, rfl, same⟩
  · rintro ⟨passes, tree, selects, parsed, succeeded, rfl, same⟩
    exact ⟨passes, _, selects, linkSource_eq_ok_iff.mpr ⟨tree, parsed, succeeded, rfl, same⟩, rfl⟩

end Link

/-- Imports are expanded first and data is inlined next, if at all; the other
passes of a selection read no files. -/
theorem Pass.filter_all (selected : Pass → Bool) :
    ∃ inlining others,
      Pass.all.filter selected = [.expandImports].filter selected ++ (inlining ++ others) ∧
        (inlining = [] ∨ inlining = [.inlineData]) ∧ ∀ pass ∈ others, ¬ pass.ReadsFiles := by
  let others : List Pass :=
    [.decimalNumerals, .foldConstants, .sizeMemories, .mergeStarts, .sortForms]
  refine ⟨[.inlineData].filter selected, others.filter selected, ?_, ?_, ?_⟩
  · rw [← List.filter_append, ← List.filter_append]
    rfl
  · cases isSelected : selected .inlineData with
    | true => exact .inr (by simp only [List.filter, isSelected])
    | false => exact .inl (by simp only [List.filter, isSelected])
  · intro pass isOther
    have isOther' : pass ∈ others := List.mem_of_mem_filter isOther
    rintro (rfl | rfl) <;> simp [others] at isOther'

/-- A selection with the import pass starts with it; of the others only the
second can read files. -/
theorem Pass.select_expandImports {names : List String} {passes : List Pass}
    (selected : Pass.select names = .ok passes) (member : .expandImports ∈ passes) :
    ∃ inlining others, passes = .expandImports :: (inlining ++ others) ∧
      (inlining = [] ∨ inlining = [.inlineData]) ∧ ∀ pass ∈ others, ¬ pass.ReadsFiles := by
  unfold Pass.select at selected
  cases asked : Pass.requested names with
  | error name => simp [asked, Except.map] at selected
  | ok requested =>
      simp only [asked, Except.map, Except.ok.injEq] at selected
      subst selected
      have isAsked : requested.contains .expandImports = true := List.of_mem_filter member
      obtain ⟨inlining, others, passes_eq, isInlining, noFiles⟩ := Pass.filter_all requested.contains
      rw [List.filter_cons_of_pos isAsked] at passes_eq
      exact ⟨inlining, others, passes_eq, isInlining, noFiles⟩

end WatLink
