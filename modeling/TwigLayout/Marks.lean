import TwigLayout.Text.Basic

/-!
# Delimiters

The pairs of markers that set the constructs of a template language apart from its text. Any of
them may be replaced, also by nothing.
-/

namespace TwigLayout

structure Marks where
  opening : Text
  closing : Text
  deriving DecidableEq, Repr

namespace Marks

/-- The markers around a comment. -/
def comment : Marks := ⟨['{', '#'], ['#', '}']⟩

/-- The markers around a statement. -/
def block : Marks := ⟨['{', '%'], ['%', '}']⟩

/-- The markers around an expression. -/
def expression : Marks := ⟨['{', '{'], ['}', '}']⟩

end Marks

/-- What the name of a component tag starts with. -/
def componentSpace : Text := "twig:".toList

end TwigLayout
