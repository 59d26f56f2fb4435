import TwigLayout.Hash
import TwigLayout.Log
import TwigLayout.Marks
import TwigLayout.Text.Line
import TwigLayout.Text.Scan

/-!
# Merge statements

A set statement whose value is something merged with a hash literal, such as
`{% set data = base|merge({id: 1}) %}`. The literal gets one property on each line, two units deeper
than the statement.
-/

namespace TwigLayout.Merge

open Text

/-- How merge statements are written and laid out. -/
structure Style where
  block : Marks
  indentUnit : Text
  deriving DecidableEq, Repr

def Style.default : Style := ⟨.block, "    ".toList⟩

/-- A merge statement: the text before the merge, the body of the literal and the closing marker
with the dash before it, if there is one. -/
structure Statement where
  head : Text
  body : Text
  close : Text
  deriving DecidableEq, Repr

/-! ## Reading -/

/-- A character of the variable that a statement sets, which may have parts between dots. -/
def isTargetChar (c : Char) : Bool := isWord c || c == '.'

/-- What follows the equals sign after the variable that a statement sets. -/
def readTarget (block : Marks) (s : Text) : Option Text := do
  let s ← after? block.opening s
  let s := (after? ['-'] s).getD s
  let s ← after? "set".toList (trimLeft s)
  let name := trimLeft s
  if s.head?.any isBlank && name.head?.any isTargetChar then
    after? ['='] (trimLeft (name.dropWhile isTargetChar))
  else none

/-- The rest after the opening of a merged literal: a bar, the filter and a brace. -/
def readMergeOpen (s : Text) : Option Text := do
  let s ← after? ['|'] s
  let s ← after? "merge(".toList (trimLeft s)
  after? ['{'] (trimLeft s)

/-- The characters before the first opening of a merged literal, none of them a brace or a percent
sign, and the rest after the opening. -/
def readUntilMerge : Text → Option (Text × Text)
  | [] => none
  | c :: s =>
    match readMergeOpen (c :: s) with
    | some rest => some ([], rest)
    | none =>
      if c == '{' || c == '}' || c == '%' then none
      else (readUntilMerge s).map fun parts => (c :: parts.1, parts.2)

/-- The closing marker with the dash before it, if there is one. -/
def readClose (block : Marks) (s : Text) : Option (Text × Text) :=
  (((after? ['-'] s).bind (after? block.closing)).map fun rest => ('-' :: block.closing, rest)) <|>
    (after? block.closing s).map fun rest => (block.closing, rest)

/-- The closing marker after as much white space as it allows. A marker that itself starts with
white space takes it back from the end of the run. -/
def readCloseAfterBlank (block : Marks) : Text → Option (Text × Text)
  | [] => readClose block []
  | c :: s =>
    if isBlank c then readCloseAfterBlank block s <|> readClose block (c :: s)
    else readClose block (c :: s)

def isBodyChar (c : Char) : Bool := c != '{' && c != '}'

/-- Reads a merge statement. -/
def Statement.read (block : Marks) : Reader Statement := fun _ s => do
  let value ← readTarget block s
  let (expression, literal) ← readUntilMerge value
  let rest ← after? ['}'] (literal.dropWhile isBodyChar)
  let rest ← after? [')'] (trimLeft rest)
  let (close, rest) ← readCloseAfterBlank block rest
  let target := s.take (s.length - value.length)
  return (⟨target ++ expression, literal.takeWhile isBodyChar, close⟩, rest)

/-! ## Layout -/

/-- The statement with one property on each line, or nothing if its literal has none. The
indentation `base` is that of the line on which it starts. -/
def Statement.layout (style : Style) (newline base : Text) (m : Statement) : Option Text :=
  let unit := style.indentUnit
  (Hash.layout m.body (base ++ unit ++ unit) newline).map fun body =>
    trimRight m.head ++ "|merge(".toList ++ '{' :: newline ++ body ++ newline ++ base ++ unit ++
      ['}', ')', ' '] ++ m.close

/-- The pieces of a document, each with the text that takes its place. Only a statement that is laid
out changes. -/
def layoutPieces (style : Style) (newline s : Text) :
    (offset : Nat) → List (Piece Statement) → List (Option Text × Text)
  | _, [] => []
  | offset, .plain c :: pieces => (none, [c]) :: layoutPieces style newline s (offset + 1) pieces
  | offset, .found m text :: pieces =>
    (m.layout style newline (indentationAt s offset), text) ::
      layoutPieces style newline s (offset + text.length) pieces

/-- The document with its merge statements laid out, and the number of statements that were. -/
def layout (style : Style) (newline s : Text) : Text × Nat :=
  let pieces := layoutPieces style newline s 0 (scan (Statement.read style.block) s)
  (pieces.flatMap fun p => p.1.getD p.2, pieces.countP fun p => p.1.isSome)

/-- `layout` with a note of the number of statements. -/
def reflow (style : Style) (newline s : Text) : Logged Text := do
  let (result, count) := layout style newline s
  Logged.debug .merges s!"Reflowed {count} merge expression(s)"
  return result

end TwigLayout.Merge
