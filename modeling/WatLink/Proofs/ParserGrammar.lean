import WatLink.Proofs.ScannedLayout
import WatLink.Proofs.TreeTokens

/-!
# The grammar of the parser

A text is read as a tree exactly when it is a layout of the tokens of that
tree.  The scanner finds the tokens of a text exactly in their layouts, and the
reader assembles a tree exactly from its tokens, so nothing is left but to join
the two.
-/

namespace WatLink

namespace Tree

/-- Whether a text is a layout of a tree. -/
def IsLayout (tree : Tree) (text : String) : Prop :=
  Lexeme.Layout tree.tokens text.toList

theorem parse_eq_ok_iff_isLayout (text : String) (tree : Tree) :
    parse text = .ok tree ↔ tree.IsLayout text := by
  rw [parse, ofScan_eq_ok_iff, IsLayout, Lexeme.layout_iff_scan]

/-- The parser accepts exactly the layouts of trees: it returns a tree exactly
for the layouts of that tree, refuses every other text, and no text is a layout
of two trees. -/
theorem parse_accepts_exactly_layouts (text : String) :
    (∀ tree, parse text = .ok tree ↔ IsLayout tree text) ∧
      ((∃ error, parse text = .error error) ↔ ∀ tree, ¬ IsLayout tree text) ∧
        ∀ first second, IsLayout first text → IsLayout second text → first = second := by
  refine ⟨parse_eq_ok_iff_isLayout text, ?_, ?_⟩
  · simp only [← parse_eq_ok_iff_isLayout]
    cases parse text with
    | ok tree => simp
    | error error => simp
  · intro first second layoutFirst layoutSecond
    rw [← parse_eq_ok_iff_isLayout] at layoutFirst layoutSecond
    exact Except.ok.inj (layoutFirst.symm.trans layoutSecond)

/-- Nested comments, a comment mark inside a string literal and a line comment
at the end of the text. -/
theorem parse_accepts_commented_list :
    IsLayout (.list [.atom "a\"(;\";", .list []])
      "(; (; ;) ;)(a\"(;\"; (;;)( ) ;; )\n);;" :=
  ((parse_accepts_exactly_layouts _).1 _).mp (by cbv)

end Tree

end WatLink
