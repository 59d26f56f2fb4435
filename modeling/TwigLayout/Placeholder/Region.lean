import TwigLayout.Marks
import TwigLayout.Text.Scan
import TwigLayout.Value.Basic

/-!
# Regions

The parts of a template that are hidden from the engine: comments, and elements short enough to
stay on one line.
-/

namespace TwigLayout

open Text

/-! ## Comments -/

namespace Comment

/-- Reads a comment: the opening marker up to the first closing marker after it. -/
def read (marks : Marks) : Reader Unit := fun _ s => do
  let inner ← after? marks.opening s
  let (_, rest) ← cut? marks.closing inner
  return ((), rest)

/-- The comments of a text. Without any marker there is an empty comment before every character and
at the end, and every character is one. -/
def pieces (marks : Marks) (s : Text) : List (Piece Unit) :=
  if marks.opening.isEmpty && marks.closing.isEmpty then
    s.flatMap (fun c => [.found () [], .found () [c]]) ++ [.found () []]
  else scan (read marks) s

end Comment

/-! ## Elements -/

/-- An element with text content only: the name of its tag, the text after the name in the opening
tag, and the content. -/
structure Element where
  tag : Text
  attributes : Text
  content : Text
  deriving DecidableEq, Repr

namespace Element

def isTagChar (c : Char) : Bool := isWord c || c == ':' || c == '.' || c == '-'

/-- A character that may stand in the attributes and in the content. -/
def isInner (c : Char) : Bool := c != '<' && c != '>' && c != '\n'

/-- The attributes of an opening tag after its name, which start with white space if there are any,
and the rest after the tag. -/
def readAttributes : Text → Option (Text × Text)
  | [] => none
  | '>' :: s => some ([], s)
  | c :: s =>
    if isBlank c then
      (after? ['>'] (s.dropWhile isInner)).map fun rest => (c :: s.takeWhile isInner, rest)
    else none

/-- Reads an element. The closing tag repeats the name, and white space may follow it there. -/
def read : Reader Element := fun _ s => do
  let s ← after? ['<'] s
  if s.head?.any Char.isAlpha then
    let tag := s.takeWhile isTagChar
    let (attributes, s) ← readAttributes (s.dropWhile isTagChar)
    let rest ← after? ['<', '/'] (s.dropWhile isInner)
    let rest ← after? tag rest
    let rest ← after? ['>'] (trimLeft rest)
    return (⟨tag, attributes, s.takeWhile isInner⟩, rest)
  else none

def pieces (s : Text) : List (Piece Element) := scan read s

/-- Which elements are hidden: those whose name does not start with the component namespace and
whose text is not wider than a limit. Both are kept as the settings give them. -/
structure Rule where
  space : Value
  maxWidth : Value
  deriving DecidableEq, Repr

/-- The rule for a namespace and a number of characters. -/
def Rule.of (space : Text) (maxWidth : Int) : Rule := ⟨.str (String.ofList space), .int maxWidth⟩

/-- Whether an element with the given text is hidden. -/
def Rule.accepts (rule : Rule) (element : Element) (s : Text) : Except Fault Bool := do
  let space ← rule.space.asText
  if startsWith space element.tag then return false else rule.maxWidth.atLeast s.length

end Element

end TwigLayout
