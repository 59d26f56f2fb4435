import TwigLayout.Hash
import TwigLayout.Log
import TwigLayout.Text.Line
import TwigLayout.Text.Scan

/-!
# Route calls

A call of a route helper with a literal route and a hash of parameters, such as
`path('app_show', {id: item.id})`. The hash gets one parameter on each line, indented from the line
of the reference attribute before the call. The changes are computed as edits of the document and
applied from its end, so that the offsets of the edits still to come stay valid.
-/

namespace TwigLayout.Route

open Text

/-- Which calls are laid out and how: the names of the helpers, the text that starts a reference
attribute, and the unit of indentation. -/
structure Style where
  functions : List Text
  marker : Text
  indentUnit : Text
  deriving DecidableEq, Repr

def Style.default : Style := ⟨["path".toList], "href=".toList, "    ".toList⟩

/-- A route call. The route keeps its quotes. -/
structure Call where
  function : Text
  route : Text
  body : Text
  deriving DecidableEq, Repr

/-! ## Reading -/

/-- A text in quotes, and the rest. -/
def readRoute : Text → Option (Text × Text)
  | [] => none
  | q :: s =>
    if isQuote q then (cut? [q] s).map fun parts => (q :: parts.1 ++ [q], parts.2) else none

def isBodyChar (c : Char) : Bool := c != '{' && c != '}'

/-- The call of one function. -/
def readCallOf (s function : Text) : Option (Call × Text) := do
  let s ← after? function s
  let s ← after? ['('] s
  let (route, s) ← readRoute (trimLeft s)
  let s ← after? [','] (trimLeft s)
  let s ← after? ['{'] (trimLeft s)
  let rest ← after? ['}'] (s.dropWhile isBodyChar)
  let rest ← after? [')'] (trimLeft rest)
  return (⟨function, route, s.takeWhile isBodyChar⟩, rest)

/-- Whether a call may follow the character: it is neither part of a name nor a dot. -/
def mayPrecede (last : Option Char) : Bool := last.all fun c => !(isWord c || c == '.')

/-- Reads a call of the first function that fits. -/
def Call.read (functions : List Text) : Reader Call := fun last s =>
  if mayPrecede last then functions.findSome? (readCallOf s) else none

/-! ## Edits -/

/-- The replacement of the characters from one offset to another. -/
structure Edit where
  start : Nat
  stop : Nat
  replacement : Text
  deriving DecidableEq, Repr

def Edit.apply (e : Edit) (s : Text) : Text := s.take e.start ++ e.replacement ++ s.drop e.stop

/-- Applies edits from the last to the first. -/
def applyEdits (edits : List Edit) (s : Text) : Text := edits.foldr Edit.apply s

/-- The document put together from the left: the text up to each edit, then its replacement. The
text starts at the given offset of the document. -/
def splice : (offset : Nat) → List Edit → Text → Text
  | _, [], s => s
  | offset, e :: edits, s =>
    s.take (e.start - offset) ++ e.replacement ++ splice e.stop edits (s.drop (e.stop - offset))

/-- The call with one parameter on each line, or nothing if its hash has none. -/
def Call.layout (style : Style) (newline reference : Text) (c : Call) : Option Text :=
  (Hash.layout c.body (reference ++ style.indentUnit) newline).map fun body =>
    c.function ++ '(' :: c.route ++ [',', ' ', '{'] ++ newline ++ body ++ newline ++ reference ++
      ['}', ')']

/-- The indentation of the line on which the last reference attribute before the offset starts. -/
def referenceAt (style : Style) (s : Text) (offset : Nat) : Option Text :=
  (lastCut? style.marker (s.take offset)).map fun parts => indentationAt s parts.1.length

/-- The edit for a call found in the document. A call without a reference attribute before it, or
without parameters, has none. -/
def editOf (style : Style) (newline s : Text) (f : Located Call) : Option Edit := do
  let reference ← referenceAt style s f.start
  let replacement ← f.value.layout style newline reference
  return ⟨f.start, f.stop, replacement⟩

/-- The edits of a document, in the order of their places. -/
def edits (style : Style) (newline s : Text) : List Edit :=
  (locate 0 (scan (Call.read style.functions) s)).filterMap (editOf style newline s)

/-- The document with its route calls laid out. -/
def layout (style : Style) (newline s : Text) : Text := applyEdits (edits style newline s) s

/-- `layout` with a note of the number of calls. -/
def reflow (style : Style) (newline s : Text) : Logged Text := do
  let changes := edits style newline s
  Logged.debug .routes s!"Reflowed {changes.length} path call(s)"
  return applyEdits changes s

end TwigLayout.Route
