import TwigLayout.Text.Basic

/-!
# Lines of a text

Lines end at a line feed. The indentation of a line is the spaces and tabs it starts with.
-/

namespace TwigLayout.Text

/-- The spaces and tabs at the start of a text. -/
def indentation (s : Text) : Text := s.takeWhile fun c => c == ' ' || c == '\t'

/-- What follows the last line feed, or the whole text if there is none. -/
def lastLine (s : Text) : Text := (s.reverse.takeWhile (· != '\n')).reverse

/-- The offset of the first character of the line that holds offset `o`. An offset beyond the end
stands for the end. -/
def lineStart (s : Text) (o : Nat) : Nat :=
  let before := s.take o
  before.length - (lastLine before).length

/-- The indentation of the line that holds offset `o`. -/
def indentationAt (s : Text) (o : Nat) : Text := indentation (s.drop (lineStart s o))

/-- The offset that an integer stands for: a negative one counts from the end of the text, and none
reaches below its start. -/
def offsetOf (s : Text) (o : Int) : Nat := if o < 0 then (s.length + o).toNat else o.toNat

/-- A place in a document: a line and a column, both counted from zero. -/
structure Position where
  line : Int
  character : Int
  deriving DecidableEq, Repr

/-- The position of an offset. The column of an offset outside the text is counted on from the line
that the text cut there ends with. -/
def positionAt (s : Text) (o : Int) : Position :=
  let before := s.take (offsetOf s o)
  ⟨before.count '\n', o - (before.length - (lastLine before).length : Nat)⟩

/-- The line ends written as carriage return and line feed, or as carriage return, become line
feeds. -/
def unifyNewlines : Text → Text
  | [] => []
  | '\r' :: '\n' :: s => '\n' :: unifyNewlines s
  | '\r' :: s => '\n' :: unifyNewlines s
  | c :: s => c :: unifyNewlines s

theorem not_mem_unifyNewlines (s : Text) : '\r' ∉ unifyNewlines s := by
  fun_induction unifyNewlines s with
  | case1 => simp
  | case2 s ih => simpa using ih
  | case3 s _ ih => simpa using ih
  | case4 c s _ h ih => simpa [ih] using fun hc => h hc.symm

end TwigLayout.Text
