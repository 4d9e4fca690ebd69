import WatLink.Proofs.ConstantMeaning

/-!
# Globals that depend on themselves

The evaluator keeps a set of globals whose initializers it is evaluating and
refuses to enter one of them again.  `Runs` is one such evaluation from the set
that it finds to the set that it leaves, and `RunsInTurn` is a sequence of them on
one evaluator.  Nothing bounds the length of a run.

Every evaluation ends, because each initializer that is entered leaves fewer
globals to enter, and it leaves the set as it found it, also when it fails.  The
set refuses exactly what has no meaning: in an expression that has one, no global
is met again inside its own initializer.
-/

namespace WatLink

namespace Constant

variable {globals : List Global}

/-! ## What an expression depends on -/

/-- Whether an expression refers to a global, itself or through initializers. -/
inductive Reaches (globals : List Global) : Tree → Nat → Prop
  | direct {expression : Tree} {reference : String} {index : Nat} :
      .form "global.get" [.atom reference] ∈ expression.subtrees →
        globalIndex globals reference = .ok index → Reaches globals expression index
  | through {expression initializer : Tree} {reference : String} {middle index : Nat} :
      .form "global.get" [.atom reference] ∈ expression.subtrees →
        globalIndex globals reference = .ok middle →
          initializerAt? globals middle = some initializer →
            Reaches globals initializer index → Reaches globals expression index

/-- A reference inside another instruction is inside one of its arguments. -/
theorem mem_subtrees_argument {tag reference : String} {arguments : List Tree}
    (other : tag ≠ "global.get")
    (inside : Tree.form "global.get" [.atom reference] ∈ (Tree.form tag arguments).subtrees) :
    ∃ argument ∈ arguments, Tree.form "global.get" [.atom reference] ∈ argument.subtrees := by
  simp only [Tree.form, Tree.subtrees, Tree.subtreesOfItems, List.cons_append, List.nil_append,
    List.mem_cons, Tree.list.injEq, List.cons.injEq, Tree.atom.injEq, reduceCtorEq, false_or] at inside
  rcases inside with ⟨same, -⟩ | inArguments
  · exact absurd same.symm other
  · exact Tree.mem_subtreesOfItems.mp inArguments

theorem Reaches.argument {tag : String} {arguments : List Tree} {index : Nat}
    (reaches : Reaches globals (.form tag arguments) index) (other : tag ≠ "global.get") :
    ∃ argument ∈ arguments, Reaches globals argument index := by
  cases reaches with
  | direct inside found =>
      obtain ⟨argument, member, inArgument⟩ := mem_subtrees_argument other inside
      exact ⟨argument, member, .direct inArgument found⟩
  | through inside found isInitializer inner =>
      obtain ⟨argument, member, inArgument⟩ := mem_subtrees_argument other inside
      exact ⟨argument, member, .through inArgument found isInitializer inner⟩

theorem Reaches.of_argument {tag : String} {arguments : List Tree} {argument : Tree} {index : Nat}
    (member : argument ∈ arguments) (reaches : Reaches globals argument index) :
    Reaches globals (.form tag arguments) index := by
  have inForm : argument ∈ .atom tag :: arguments := List.mem_cons_of_mem _ member
  cases reaches with
  | direct inside found => exact .direct (Tree.mem_subtrees_of_mem inForm inside) found
  | through inside found isInitializer inner =>
      exact .through (Tree.mem_subtrees_of_mem inForm inside) found isInitializer inner

theorem not_reaches_atom {text : String} {index : Nat} :
    ¬ Reaches globals (.atom text) index := by
  rintro (⟨inside, -⟩ | ⟨inside, -⟩) <;> simp [Tree.subtrees, Tree.form] at inside

/-- A reference to a global reaches that global and what its initializer
reaches. -/
theorem Reaches.global_cases {reference : String} {middle index : Nat} {initializer : Tree}
    (reaches : Reaches globals (.form "global.get" [.atom reference]) index)
    (found : globalIndex globals reference = .ok middle)
    (isInitializer : initializerAt? globals middle = some initializer) :
    index = middle ∨ Reaches globals initializer index := by
  have same : ∀ other, Tree.form "global.get" [.atom other] ∈
      (Tree.form "global.get" [.atom reference]).subtrees → other = reference := by
    intro other inside
    simpa [Tree.form, Tree.subtrees, Tree.subtreesOfItems] using inside
  cases reaches with
  | direct inside found' =>
      rw [same _ inside, found] at found'
      exact .inl (Except.ok.inj found').symm
  | through inside found' isInitializer' inner =>
      rw [same _ inside, found] at found'
      cases found'
      rw [isInitializer] at isInitializer'
      cases isInitializer'
      exact .inr inner

/-- Whether no global that an expression reaches reaches itself. -/
def Acyclic (globals : List Global) (expression : Tree) : Prop :=
  ∀ index initializer, Reaches globals expression index →
    initializerAt? globals index = some initializer → ¬ Reaches globals initializer index

/-- An expression that has a meaning reaches no global that depends on itself. -/
theorem Denotes.acyclic {expression : Tree} {value : Value}
    (denotes : Denotes globals expression value) : Acyclic globals expression := by
  induction denotes with
  | constant isTag _ =>
      intro index initializer reaches
      obtain ⟨argument, member, inArgument⟩ := reaches.argument isTag.ne_global
      obtain rfl := List.mem_singleton.mp member
      exact absurd inArgument not_reaches_atom
  | @global reference middle initializer value found isInitializer _ ih =>
      intro index initializer' reaches isInitializer'
      rcases reaches.global_cases found isInitializer with rfl | inner
      · rw [isInitializer] at isInitializer'
        cases isInitializer'
        -- a global that reaches itself is one that its initializer reaches
        intro cyclic
        exact ih index initializer cyclic isInitializer cyclic
      · exact ih index initializer' inner isInitializer'
  | constexpr asks _ ih =>
      intro index initializer reaches
      obtain ⟨argument, member, inArgument⟩ :=
        reaches.argument (ne_global_of_constexprType? asks)
      obtain rfl := List.mem_singleton.mp member
      exact ih index initializer inArgument
  | operation isTag _ sameLength _ _ ih =>
      intro index initializer reaches
      obtain ⟨argument, member, inArgument⟩ := reaches.argument isTag.ne_global
      obtain ⟨place, inRange, rfl⟩ := List.mem_iff_getElem.mp member
      refine ih _ _ (List.mem_iff_getElem.mpr ⟨place, ?_, List.getElem_zip⟩) index initializer
        inArgument
      · simpa [sameLength] using inRange

/-! ## The bound on entered globals -/

/-- Active globals of an evaluation that may enter as many more as its depth: they
are different globals, and no others are left beyond that depth. -/
structure Room (globals : List Global) (depth : Nat) (active : List Nat) : Prop where
  nodup : active.Nodup
  inRange : ∀ index ∈ active, index < globals.length
  enough : globals.length ≤ depth + active.length

theorem Room.start (globals : List Global) : Room globals globals.length [] :=
  ⟨List.nodup_nil, by simp, by simp⟩

theorem lt_length_of_initializerAt? {index : Nat} {initializer : Tree}
    (isInitializer : initializerAt? globals index = some initializer) : index < globals.length := by
  obtain ⟨global, found, -⟩ := Option.bind_eq_some_iff.mp isInitializer
  exact (List.getElem?_eq_some_iff.mp found).1

namespace Room

variable {depth index : Nat} {active : List Nat}

theorem enter (room : Room globals (depth + 1) active) (fresh : index ∉ active)
    (inRange : index < globals.length) : Room globals depth (index :: active) := by
  refine ⟨List.nodup_cons.mpr ⟨fresh, room.nodup⟩,
    List.forall_mem_cons.mpr ⟨inRange, room.inRange⟩, ?_⟩
  have enough := room.enough
  rw [List.length_cons]
  omega

/-- Without depth all globals are active. -/
theorem mem_of_zero (room : Room globals 0 active) (inRange : index < globals.length) :
    index ∈ active := by
  by_contra fresh
  have nodup : (index :: active).Nodup := List.nodup_cons.mpr ⟨fresh, room.nodup⟩
  have within : (index :: active) ⊆ List.range globals.length := by
    intro other member
    rcases List.mem_cons.mp member with rfl | isActive
    · exact List.mem_range.mpr inRange
    · exact List.mem_range.mpr (room.inRange other isActive)
  have few := (nodup.subperm within).length_le
  have enough := room.enough
  rw [List.length_cons, List.length_range] at few
  omega

end Room

/-- Reading a global, by what its reference leads to. -/
theorem evalGlobal_eq (depth : Nat) (active : List Nat) (reference : String) :
    evalGlobal globals depth active reference =
      match resolve globals reference with
      | .error fault => .error fault
      | .ok (index, initializer) =>
          if index ∈ active then .error (.selfDependent reference)
          else
            match depth with
            | 0 => .error (.selfDependent reference)
            | depth + 1 => eval (evalGlobal globals depth (index :: active)) initializer := by
  rw [evalGlobal.eq_def]
  dsimp only [resolve, initializerAt?]
  cases globalIndex globals reference with
  | error fault => rfl
  | ok index =>
      dsimp only
      cases globals[index]?.bind (·.initializer) with
      | none => rfl
      | some initializer => cases depth <;> simp only [List.contains_iff_mem]

section Reading

variable {depth index : Nat} {active : List Nat} {reference : String} {initializer : Tree}

theorem evalGlobal_of_unresolved {fault : EvalError}
    (resolves : resolve globals reference = .error fault) :
    evalGlobal globals depth active reference = .error fault := by
  simp only [evalGlobal_eq, resolves]

theorem evalGlobal_of_active (resolves : resolve globals reference = .ok (index, initializer))
    (isActive : index ∈ active) :
    evalGlobal globals depth active reference = .error (.selfDependent reference) := by
  simp only [evalGlobal_eq, resolves, if_pos isActive]

theorem evalGlobal_of_fresh (resolves : resolve globals reference = .ok (index, initializer))
    (fresh : index ∉ active) :
    evalGlobal globals (depth + 1) active reference =
      eval (evalGlobal globals depth (index :: active)) initializer := by
  simp only [evalGlobal_eq, resolves, if_neg fresh]

theorem eval_of_global {readGlobal : String → Except EvalError Value} {expression : Tree}
    (asks : request expression = .global reference) :
    eval readGlobal expression = readGlobal reference := by
  rw [eval_eq_outcome, asks, Request.outcome]

end Reading

/-- The evaluator finds the meaning of an expression that reaches no active
global. -/
theorem Denotes.eval_eq {expression : Tree} {value : Value}
    (denotes : Denotes globals expression value) {depth : Nat} {active : List Nat}
    (room : Room globals depth active)
    (fresh : ∀ index ∈ active, ¬ Reaches globals expression index) :
    eval (evalGlobal globals depth active) expression = .ok value := by
  induction denotes generalizing depth active with
  | constant isTag reads => rw [eval_eq_outcome, request_constant isTag, Request.outcome, reads]
  | @global reference index initializer value found isInitializer inner ih =>
      have reaches : Reaches globals (.form "global.get" [.atom reference]) index :=
        .direct (Tree.mem_subtrees_self _) found
      have notActive : index ∉ active := fun isActive => fresh index isActive reaches
      have inRange := lt_length_of_initializerAt? isInitializer
      have resolves := resolve_eq_ok_iff.mpr ⟨found, isInitializer⟩
      rw [eval_of_global rfl]
      cases depth with
      | zero => exact absurd (room.mem_of_zero inRange) notActive
      | succ depth =>
          rw [evalGlobal_of_fresh resolves notActive]
          apply ih (room.enter notActive inRange)
          intro other member inside
          rcases List.mem_cons.mp member with rfl | isActive
          · exact (Denotes.global found isInitializer inner).acyclic _ _ reaches isInitializer inside
          · exact fresh other isActive
              (.through (Tree.mem_subtrees_self _) found isInitializer inside)
  | @constexpr tag argument value asks _ ih =>
      rw [eval_eq_outcome, request_constexpr asks, Request.outcome,
        ih room fun index isActive inside =>
          fresh index isActive (inside.of_argument (List.mem_singleton_self _))]
      exact expectType_eq_ok_iff.mpr ⟨rfl, rfl⟩
  | @operation tag name type arguments values value isTag notConst sameLength inner applies ih =>
      rw [eval_eq_outcome, request_operation isTag notConst, Request.outcome]
      refine exceptBind_eq_ok_iff.mpr ⟨values, evalAll_eq_ok_iff.mpr ?_, applies⟩
      refine List.forall₂_iff_zip.mpr ⟨sameLength, fun member => ih _ _ member room ?_⟩
      intro index isActive inside
      exact fresh index isActive (inside.of_argument (List.of_mem_zip member).1)

theorem denotes_of_evalGlobal {depth : Nat} {active : List Nat} {reference : String} {value : Value}
    (reads : evalGlobal globals depth active reference = .ok value) :
    (Request.global reference).Denotes globals value := by
  induction depth generalizing active reference value with
  | zero =>
      rw [evalGlobal_eq] at reads
      split at reads
      · cases reads
      · split at reads <;> cases reads
  | succ depth ih =>
      rw [evalGlobal_eq] at reads
      split at reads
      · cases reads
      · rename_i index initializer resolves
        split at reads
        · cases reads
        · exact ⟨index, initializer, resolves, denotes_of_eval (fun _ _ => ih) reads⟩

theorem evaluate_eq_ok_iff {expression : Tree} {value : Value} :
    evaluate globals expression = .ok value ↔ Denotes globals expression value := by
  constructor
  · exact denotes_of_eval fun _ _ => denotes_of_evalGlobal
  · intro denotes
    exact denotes.eval_eq (Room.start globals) (by simp)

/-! ## Runs of the evaluator -/

mutual

/-- One evaluation: the active globals before it, the expression, its outcome, and
the active globals after it. -/
inductive Runs (globals : List Global) :
    List Nat → Tree → Except EvalError Value → List Nat → Prop
  | answers {active : List Nat} {expression : Tree} {outcome : Except EvalError Value} :
      request expression = .nothing outcome → Runs globals active expression outcome active
  | unresolved {active : List Nat} {expression : Tree} {reference : String} {fault : EvalError} :
      request expression = .global reference → resolve globals reference = .error fault →
        Runs globals active expression (.error fault) active
  | refused {active : List Nat} {expression initializer : Tree} {reference : String}
      {index : Nat} :
      request expression = .global reference →
        resolve globals reference = .ok (index, initializer) → index ∈ active →
          Runs globals active expression (.error (.selfDependent reference)) active
  /-- The global is active during the evaluation of its initializer, and is not
  afterwards, whatever the outcome. -/
  | enters {active active' : List Nat} {expression initializer : Tree} {reference : String}
      {index : Nat} {outcome : Except EvalError Value} :
      request expression = .global reference →
        resolve globals reference = .ok (index, initializer) → index ∉ active →
          Runs globals (index :: active) initializer outcome active' →
            Runs globals active expression outcome (active'.filter (· != index))
  | typed {active active' : List Nat} {expression argument : Tree} {type : ValueType}
      {outcome : Except EvalError Value} :
      request expression = .typed type argument → Runs globals active argument outcome active' →
        Runs globals active expression (outcome >>= expectType type argument) active'
  | applies {active active' : List Nat} {expression : Tree} {tag name : String}
      {type : ValueType} {arguments : List Tree} {outcome : Except EvalError (List Value)} :
      request expression = .operands tag type name arguments →
        RunsAll globals active arguments outcome active' →
          Runs globals active expression (outcome >>= applyInstruction tag type name) active'

/-- The evaluation of operands from left to right, up to the first that fails. -/
inductive RunsAll (globals : List Global) :
    List Nat → List Tree → Except EvalError (List Value) → List Nat → Prop
  | nil {active : List Nat} : RunsAll globals active [] (.ok []) active
  | fails {active active' : List Nat} {expression : Tree} {rest : List Tree} {fault : EvalError} :
      Runs globals active expression (.error fault) active' →
        RunsAll globals active (expression :: rest) (.error fault) active'
  | next {active between active' : List Nat} {expression : Tree} {rest : List Tree} {value : Value}
      {outcome : Except EvalError (List Value)} :
      Runs globals active expression (.ok value) between →
        RunsAll globals between rest outcome active' →
          RunsAll globals active (expression :: rest) (outcome.map (value :: ·)) active'

end

/-- Evaluations one after the other on one evaluator, whether they fail or not. -/
inductive RunsInTurn (globals : List Global) :
    List Nat → List Tree → List (Except EvalError Value) → List Nat → Prop
  | nil {active : List Nat} : RunsInTurn globals active [] [] active
  | next {active between active' : List Nat} {expression : Tree} {rest : List Tree}
      {outcome : Except EvalError Value} {outcomes : List (Except EvalError Value)} :
      Runs globals active expression outcome between →
        RunsInTurn globals between rest outcomes active' →
          RunsInTurn globals active (expression :: rest) (outcome :: outcomes) active'

theorem filter_entered {active : List Nat} {index : Nat} (fresh : index ∉ active) :
    (index :: active).filter (· != index) = active := by
  rw [List.filter_cons_of_neg (by simp), List.filter_eq_self]
  intro other member
  have different : other ≠ index := by
    rintro rfl
    exact fresh member
  simpa using different

theorem runsAll_of_runs {active : List Nat} {readGlobal : String → Except EvalError Value}
    {expressions : List Tree}
    (each : ∀ expression ∈ expressions,
      Runs globals active expression (eval readGlobal expression) active) :
    RunsAll globals active expressions (evalAll readGlobal expressions) active := by
  induction expressions with
  | nil => exact .nil
  | cons expression rest ih =>
      obtain ⟨first, others⟩ := List.forall_mem_cons.mp each
      rw [evalAll]
      cases evaluates : eval readGlobal expression with
      | error fault =>
          rw [evaluates] at first
          exact .fails first
      | ok value =>
          rw [evaluates] at first
          exact .next first (ih others)

/-- An evaluation ends if the references in its expression do. -/
theorem runs_of_references {active : List Nat} {readGlobal : String → Except EvalError Value}
    (references : ∀ expression reference, request expression = .global reference →
      Runs globals active expression (readGlobal reference) active) (expression : Tree) :
    Runs globals active expression (eval readGlobal expression) active := by
  induction expression with
  | atom text => exact .answers rfl
  | list items ih =>
      rw [eval_eq_outcome]
      have asks := asks_request (.list items)
      cases asked : request (.list items) with
      | nothing outcome => exact .answers asked
      | global reference => exact references _ _ asked
      | typed type argument =>
          rw [asked] at asks
          cases asks
          exact .typed asked (ih argument (by simp))
      | operands tag type name arguments =>
          rw [asked] at asks
          cases asks
          refine .applies asked (runsAll_of_runs fun argument member => ?_)
          exact ih argument (List.mem_cons_of_mem _ member)

/-- With room for the globals that are left, every evaluation ends with the active
globals that it found. -/
theorem Room.runs {depth : Nat} {active : List Nat} (room : Room globals depth active)
    (expression : Tree) :
    Runs globals active expression (eval (evalGlobal globals depth active) expression) active := by
  induction depth generalizing active expression with
  | zero =>
      refine runs_of_references (fun expression reference asks => ?_) expression
      cases resolves : resolve globals reference with
      | error fault =>
          rw [evalGlobal_of_unresolved resolves]
          exact .unresolved asks resolves
      | ok target =>
          have inRange := lt_length_of_initializerAt? (resolve_eq_ok_iff.mp resolves).2
          have isActive := room.mem_of_zero inRange
          rw [evalGlobal_of_active resolves isActive]
          exact .refused asks resolves isActive
  | succ depth ih =>
      refine runs_of_references (fun expression reference asks => ?_) expression
      cases resolves : resolve globals reference with
      | error fault =>
          rw [evalGlobal_of_unresolved resolves]
          exact .unresolved asks resolves
      | ok target =>
          have inRange := lt_length_of_initializerAt? (resolve_eq_ok_iff.mp resolves).2
          by_cases isActive : target.1 ∈ active
          · rw [evalGlobal_of_active resolves isActive]
            exact .refused asks resolves isActive
          · rw [evalGlobal_of_fresh resolves isActive]
            have entered := Runs.enters asks resolves isActive
              (ih (room.enter isActive inRange) target.2)
            rwa [filter_entered isActive] at entered

/-- With that room there is no other way for an evaluation to end. -/
theorem Runs.eq_eval {active active' : List Nat} {expression : Tree}
    {outcome : Except EvalError Value} (run : Runs globals active expression outcome active') :
    ∀ depth, Room globals depth active →
      outcome = eval (evalGlobal globals depth active) expression ∧ active' = active := by
  -- the same is shown of operands, where each run starts with what the last one left
  refine @Runs.rec globals
    (fun active expression outcome active' _ => ∀ depth, Room globals depth active →
      outcome = eval (evalGlobal globals depth active) expression ∧ active' = active)
    (fun active expressions outcome active' _ => ∀ depth, Room globals depth active →
      outcome = evalAll (evalGlobal globals depth active) expressions ∧ active' = active)
    ?answers ?unresolved ?refused ?enters ?typed ?applies ?nil ?fails ?next
    active expression outcome active' run
  all_goals clear run active active' expression outcome
  case answers =>
    intro active expression outcome asks depth room
    rw [eval_eq_outcome, asks]
    exact ⟨rfl, rfl⟩
  case unresolved =>
    intro active expression reference fault asks resolves depth room
    rw [eval_of_global asks, evalGlobal_of_unresolved resolves]
    exact ⟨rfl, rfl⟩
  case refused =>
    intro active expression initializer reference index asks resolves isActive depth room
    rw [eval_of_global asks, evalGlobal_of_active resolves isActive]
    exact ⟨rfl, rfl⟩
  case enters =>
    intro active active' expression initializer reference index outcome asks resolves notActive _ ih
      depth room
    have inRange := lt_length_of_initializerAt? (resolve_eq_ok_iff.mp resolves).2
    cases depth with
    | zero => exact absurd (room.mem_of_zero inRange) notActive
    | succ depth =>
        obtain ⟨rfl, rfl⟩ := ih depth (room.enter notActive inRange)
        rw [eval_of_global asks, evalGlobal_of_fresh resolves notActive]
        exact ⟨rfl, filter_entered notActive⟩
  case typed =>
    intro active active' expression argument type outcome asks _ ih depth room
    obtain ⟨rfl, rfl⟩ := ih depth room
    rw [eval_eq_outcome _ expression, asks]
    exact ⟨rfl, rfl⟩
  case applies =>
    intro active active' expression tag name type arguments outcome asks _ ih depth room
    obtain ⟨rfl, rfl⟩ := ih depth room
    rw [eval_eq_outcome _ expression, asks]
    exact ⟨rfl, rfl⟩
  case nil =>
    intro active depth room
    exact ⟨rfl, rfl⟩
  case fails =>
    intro active active' expression rest fault _ ih depth room
    obtain ⟨evaluates, rfl⟩ := ih depth room
    simp only [evalAll, ← evaluates, and_self]
  case next =>
    intro active between active' expression rest value outcome _ _ ih ihRest depth room
    obtain ⟨evaluates, rfl⟩ := ih depth room
    obtain ⟨rfl, rfl⟩ := ihRest depth room
    simp only [evalAll, ← evaluates, and_self]

theorem runs_iff {expression : Tree} {outcome : Except EvalError Value} {active : List Nat} :
    Runs globals [] expression outcome active ↔
      outcome = evaluate globals expression ∧ active = [] := by
  constructor
  · intro run
    exact run.eq_eval _ (Room.start globals)
  · rintro ⟨rfl, rfl⟩
    exact (Room.start globals).runs expression

/-- An evaluator that went through some expressions is as one that is fresh. -/
theorem runsInTurn_iff {expressions : List Tree} {outcomes : List (Except EvalError Value)}
    {active : List Nat} :
    RunsInTurn globals [] expressions outcomes active ↔
      outcomes = expressions.map (evaluate globals) ∧ active = [] := by
  induction expressions generalizing outcomes active with
  | nil =>
      constructor
      · rintro ⟨⟩
        exact ⟨rfl, rfl⟩
      · rintro ⟨rfl, rfl⟩
        exact .nil
  | cons expression rest ih =>
      constructor
      · rintro (_ | ⟨first, others⟩)
        obtain ⟨rfl, rfl⟩ := runs_iff.mp first
        obtain ⟨rfl, rfl⟩ := ih.mp others
        exact ⟨rfl, rfl⟩
      · rintro ⟨rfl, rfl⟩
        exact .next (runs_iff.mpr ⟨rfl, rfl⟩) (ih.mpr ⟨rfl, rfl⟩)

/-- Every evaluation ends, in one way and with no global left active, and gives the
value of the expression if it has one.  An expression that reaches a global which
depends on itself has none.  An evaluator that went through other expressions, of
which some may have failed, gives what a fresh one gives. -/
theorem evaluation_ends_with_meaning (globals : List Global) :
    (∀ expression outcome active, Runs globals [] expression outcome active ↔
      outcome = evaluate globals expression ∧ active = []) ∧
    (∀ expression value,
      evaluate globals expression = .ok value ↔ Denotes globals expression value) ∧
    (∀ expression index initializer, Reaches globals expression index →
      initializerAt? globals index = some initializer → Reaches globals initializer index →
        ∃ fault, evaluate globals expression = .error fault) ∧
    (∀ expressions outcomes active, RunsInTurn globals [] expressions outcomes active ↔
      outcomes = expressions.map (evaluate globals) ∧ active = []) := by
  refine ⟨fun _ _ _ => runs_iff, fun _ _ => evaluate_eq_ok_iff, ?_, fun _ _ _ => runsInTurn_iff⟩
  intro expression index initializer reaches isInitializer cyclic
  cases evaluates : evaluate globals expression with
  | error fault => exact ⟨fault, rfl⟩
  | ok value =>
      have acyclic := (evaluate_eq_ok_iff.mp evaluates).acyclic
      exact absurd cyclic (acyclic index initializer reaches isInitializer)

/-- The globals of a module where `$sum` uses `$one` twice and `$loop` uses itself
behind `$one`. -/
def sharedGlobals : List Global :=
  [⟨some "$one", some (.form "i32.const" [.atom "1"])⟩,
    ⟨some "$sum", some (.form "i32.add"
      [.form "global.get" [.atom "$one"], .form "global.get" [.atom "0"]])⟩,
    ⟨some "$loop", some (.form "i32.add"
      [.form "global.get" [.atom "$one"], .form "global.get" [.atom "$loop"]])⟩]

/-- One evaluator: the sum has a value, the loop has none, and the sum still has
its value afterwards. -/
theorem evaluation_ends_with_meaning_shared :
    Denotes sharedGlobals (.form "global.get" [.atom "$sum"]) (.int .w32 2) ∧
      ∃ fault, RunsInTurn sharedGlobals []
        [.form "global.get" [.atom "$sum"], .form "global.get" [.atom "$loop"],
          .form "global.get" [.atom "$sum"]]
        [.ok (.int .w32 2), .error fault, .ok (.int .w32 2)] [] := by
  have sum : evaluate sharedGlobals (.form "global.get" [.atom "$sum"]) = .ok (.int .w32 2) :=
    rfl
  have found : globalIndex sharedGlobals "$loop" = .ok 2 := rfl
  obtain ⟨-, means, cyclic, inTurn⟩ := evaluation_ends_with_meaning sharedGlobals
  obtain ⟨fault, loop⟩ := cyclic (.form "global.get" [.atom "$loop"]) 2 _
    (.direct (Tree.mem_subtrees_self _) found) rfl
    (.direct (by simp [Tree.form, Tree.subtrees, Tree.subtreesOfItems]) found)
  refine ⟨(means _ _).mp sum, fault, (inTurn _ _ _).mpr ⟨?_, rfl⟩⟩
  simp only [List.map_cons, List.map_nil, sum, loop]

end Constant

end WatLink
