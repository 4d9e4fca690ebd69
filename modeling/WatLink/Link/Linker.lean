import WatLink.Constant.Folding
import WatLink.Import.Inlining
import WatLink.Memory.Sizing
import WatLink.Module.Sorting
import WatLink.Numeral.Decimal
import WatLink.Start.Merging

/-!
# Linking

Linking applies the selected passes to a module, one after the other.  The
first failure ends it; the tree then stays as the failing pass left it.
-/

namespace WatLink

/-- A tree and how far linking it got: the tree as it stands, the session, and
the failure that stopped it, if any. -/
structure LinkState where
  tree : Tree
  session : Session
  failure : Option LinkError

namespace LinkState

/-- Report an event. -/
def report (state : LinkState) (event : Event) : LinkState :=
  { state with session.journal := state.session.journal.push event }

/-- Report several events. -/
def reportAll (state : LinkState) (events : List Event) : LinkState :=
  { state with session.journal := state.session.journal ++ events }

/-- Stop with a failure. -/
def fail (state : LinkState) (error : LinkError) : LinkState :=
  { state with failure := some error }

/-- Take over a revision that reports how much it replaced. -/
def adopt {ε : Type} (state : LinkState) (revision : Revision ε) (ofFailure : ε → LinkError)
    (event : Nat → Event) : LinkState :=
  let state := { state with tree := revision.tree }
  match revision.failure with
  | some error => state.fail (ofFailure error)
  | none => state.report (event revision.count)

end LinkState

namespace Pass

/-- Apply a pass to a module. -/
def apply (pass : Pass) (origin : Option String) (state : LinkState) : LinkState :=
  match pass with
  | .expandImports =>
      match (Module.expandImports state.tree origin).run state.session with
      | .ok tree session => { state with tree, session }
      | .error error session => { state with session, failure := some error }
  | .inlineData =>
      let ((tree, failure), session) := Module.inlineData state.tree state.session
      { tree, session, failure }
  | .decimalNumerals =>
      state.adopt state.tree.decimalNumerals .numeral .rewroteNumerals
  | .foldConstants =>
      state.adopt (Module.foldConstants state.tree) .constant .foldedConstants
  | .sizeMemories =>
      let sizing := Module.sizeMemories state.tree
      { state.reportAll sizing.events with tree := sizing.module, failure := sizing.failure }
  | .mergeStarts =>
      match Module.mergeStarts state.tree with
      | .error error => state.fail error
      | .ok (tree, none) => { state with tree }
      | .ok (tree, some (count, identifier)) =>
          { state.report (.mergedStarts count identifier) with tree }
  | .sortForms => { state with tree := Module.sortForms state.tree }

/-- Run a pass: report it, insist on a module, and apply it. -/
def run (pass : Pass) (origin : Option String) (state : LinkState) : LinkState :=
  let state := state.report (.runningPass pass)
  if state.tree.isModule then pass.apply origin state else state.fail (.notAModule pass)

end Pass

namespace Link

/-- Run passes in order up to the first failure. -/
def runPasses (origin : Option String) : List Pass → LinkState → LinkState
  | [], state => state
  | pass :: rest, state =>
      match state.failure with
      | some _ => state
      | none => runPasses origin rest (pass.run origin state)

/-- Link a tree. -/
def link (passes : List Pass) (origin : Option String) (session : Session) (tree : Tree) :
    LinkState :=
  runPasses origin passes ⟨tree, session, none⟩

/-- Parse a source and link it.  The origin is the path of the source in the
store, if it has one. -/
def linkSource (passes : List Pass) (origin : Option String) (text : String) :
    SessionM Tree := fun session =>
  match Tree.parse text with
  | .error error => .error (.malformedSource origin error) session
  | .ok tree =>
      let state := link passes origin session tree
      match state.failure with
      | some error => .error error state.session
      | none => .ok state.tree state.session

/-- Read a source from the store and link it. -/
def linkFile (passes : List Pass) (path : String) : SessionM Tree := do
  let bytes ← SessionM.loadBytes path
  match Text.decodeUtf8 bytes with
  | .error fault => throw (.undecodableSource fault)
  | .ok text => linkSource passes (some path) text

/-- The passes that names select. -/
def selectPasses (names : List String) : Except LinkError (List Pass) :=
  (Pass.select names).mapError .unknownPass

/-- Link a source with the passes that names select, and print the result. -/
def run (names : List String) (origin : Option String) (text : String) : SessionM String :=
  fun session =>
    match selectPasses names with
    | .error error => .error error session
    | .ok passes =>
        match linkSource passes origin text session with
        | .error error session => .error error session
        | .ok tree session => .ok tree.print session

/-- Link the first of several sources.  They are named by their positions, and
can import each other under these names. -/
def linkSources (names : List String) (sources : List String) : Except LinkError String :=
  let files := sources.zipIdx.map fun (text, index) => (toString index, Text.encodeUtf8 text)
  match sources with
  | [] => do
      let _ ← selectPasses names
      .error (.importNotFound "0")
  | first :: _ =>
      match run names (some "0") first ⟨.memory files, #[]⟩ with
      | .ok text _ => .ok text
      | .error error _ => .error error

end Link

end WatLink
