import TwigLayout.Fault
import TwigLayout.Marks

/-!
# Component tags

A component tag is an opening tag whose name starts with the component namespace, followed by
attributes, each after white space, and a closing marker. `Tag.read` takes a tag apart. Anything
else between the attributes makes it refuse.
-/

namespace TwigLayout.Component

open Text

/-- How component tags are written and laid out. -/
structure Style where
  space : Text
  expression : Marks
  indentUnit : Text
  deriving DecidableEq, Repr

def Style.default : Style := ⟨componentSpace, .expression, "    ".toList⟩

/-- What every component tag starts with. -/
def Style.tagOpen (style : Style) : Text := '<' :: style.space

/-- An attribute. The value keeps its quotes or delimiters. -/
structure Attribute where
  name : Text
  value : Option Text
  deriving DecidableEq, Repr

def Attribute.render (a : Attribute) : Text :=
  match a.value with
  | none => a.name
  | some v => a.name ++ '=' :: v

/-- A tag taken apart, with the text after its closing marker. -/
structure Tag where
  name : Text
  attributes : List Attribute
  marker : Text
  rest : Text
  deriving DecidableEq, Repr

/-! ## Attributes -/

def isNameStart (c : Char) : Bool := c.isAlpha || c == '_'

def isNameChar (c : Char) : Bool := isWord c || c == ':' || c == '.' || c == '-'

def isAttributeChar (c : Char) : Bool :=
  !(isBlank c || c == '=' || c == '<' || c == '>' || c == '/' || isQuote c || c == '{' ||
    c == '}' || c == '%')

/-- A text in the quotes `q`, and the rest. -/
def readQuoted (q : Char) : Text → Option (Text × Text)
  | [] => none
  | c :: s => if c = q then (cut? [q] s).map fun parts => (q :: parts.1 ++ [q], parts.2) else none

/-- An expression that stands on one line: the opening marker up to the first closing marker. -/
def readExpression (marks : Marks) (s : Text) : Option (Text × Text) := do
  let inner ← after? marks.opening s
  let (body, rest) ← cut? marks.closing inner
  if body.contains '\n' then none else some (marks.opening ++ body ++ marks.closing, rest)

/-- The value of an attribute: a quoted text or an expression. -/
def readValue (marks : Marks) (s : Text) : Option (Text × Text) :=
  readQuoted '"' s <|> readQuoted '\'' s <|> readExpression marks s

/-- The name of an attribute and its value, if an equals sign and a value follow the name. -/
def readAttribute (marks : Marks) (s : Text) : Option (Attribute × Text) :=
  match s.takeWhile isAttributeChar with
  | [] => none
  | name =>
    let rest := s.dropWhile isAttributeChar
    match (after? ['='] rest).bind (readValue marks) with
    | some (value, rest) => some (⟨name, some value⟩, rest)
    | none => some (⟨name, none⟩, rest)

/-- The white space of a value that holds an expression is collapsed, inside the quotes if there are
any. Other values stay as they are. -/
def normalizeValue (marks : Marks) (value : Text) : Except Fault Text :=
  if occursIn marks.opening value then
    match value with
    | [] => .error (.noItem "string index out of range")
    | c :: s =>
      if isQuote c then .ok (c :: collapse s.dropLast ++ [value.getLast?.getD c])
      else .ok (collapse value)
  else .ok value

def Attribute.normalize (marks : Marks) (a : Attribute) : Except Fault Attribute :=
  match a.value with
  | none => .ok a
  | some v => do return { a with value := some (← normalizeValue marks v) }

/-! ## Tags -/

/-- The closing marker of a tag, and the rest. -/
def readMarker : Text → Option (Text × Text)
  | '/' :: '>' :: s => some (['/', '>'], s)
  | '>' :: s => some (['>'], s)
  | _ => none

/-- The attributes up to the closing marker. Every attribute uses up a character of the text, so
`fuel` of its length is enough. -/
def readAttributes (marks : Marks) :
    (fuel : Nat) → Text → Except Fault (Option (List Attribute × Text × Text))
  | 0, _ => .ok none
  | fuel + 1, s =>
    let body := trimLeft s
    match readMarker body with
    | some (marker, rest) => .ok (some ([], marker, rest))
    | none =>
      match readAttribute marks body with
      | none => .ok none
      | some (first, rest) =>
        if s.head?.any isBlank then do
          let first ← first.normalize marks
          let more ← readAttributes marks fuel rest
          return more.map fun (others, marker, rest) => (first :: others, marker, rest)
        else .ok none

/-- The name after the tag's opening, and the rest. -/
def readName (style : Style) (s : Text) : Option (Text × Text) :=
  match after? style.tagOpen s with
  | some (c :: s) =>
    if isNameStart c then some (c :: s.takeWhile isNameChar, s.dropWhile isNameChar) else none
  | _ => none

/-- Takes a tag apart, or gives nothing if the text is no component tag with attributes only. -/
def Tag.read (style : Style) (s : Text) : Except Fault (Option Tag) :=
  match readName style s with
  | none => .ok none
  | some (name, s) => do
    let parts ← readAttributes style.expression (s.length + 1) s
    return parts.map fun (attributes, marker, rest) => ⟨name, attributes, marker, rest⟩

end TwigLayout.Component
