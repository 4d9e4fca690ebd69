import WatLink.Constant.Evaluation
import WatLink.Tree.Revision

/-!
# Folding constant expressions

Every `(T.constexpr EXPRESSION)` of a module is replaced by `(T.const VALUE)`.
Expressions are evaluated one after the other while the module changes, and a
global is read as it stands at that moment: constants folded inside its
initializer are read back from their literals.  An initializer that is itself a
constant expression keeps its expression.
-/

namespace WatLink

namespace Constant

/-- The type name of a list that asks for evaluation. -/
def constexprName? (tree : Tree) : Option String :=
  tree.tag?.bind constexprType?

/-- A global as it stands now, given what it was before folding began. -/
def currentGlobal (before now : Global) : Global :=
  match before.initializer.bind constexprName? with
  | some _ => before
  | none => now

/-- The globals of a module as they stand now. -/
def currentGlobals (before : List Global) (module : Tree) : List Global :=
  List.zipWith currentGlobal before (Module.globals module)

/-- Decides about an item: lists that ask for evaluation are replaced by their
value. -/
def foldReviser (before : List Global) : Reviser EvalError :=
  fun whole item =>
    (constexprName? item).map fun name =>
      (evaluate (currentGlobals before (whole item)) item).map fun value =>
        Tree.form (name ++ ".const") [.atom value.spell]

end Constant

/-- Replace the constant expressions of a module by their values. -/
def Module.foldConstants (module : Tree) : Revision EvalError :=
  module.revise (Constant.foldReviser (Module.globals module))

end WatLink
