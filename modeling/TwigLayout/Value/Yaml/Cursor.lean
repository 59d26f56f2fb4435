import TwigLayout.Value.Json

/-!
# Places in a YAML text

A place knows its line and its column, since both decide what a character means there. Line breaks
inside a scalar are folded: one alone becomes a space, and of several the first goes away.
-/

namespace TwigLayout.Yaml

open Text

/-! ## Characters -/

def isBreak (c : Char) : Bool :=
  c == '\n' || c == '\r' || c.toNat == 0x85 || c.toNat == 0x2028 || c.toNat == 0x2029

def isTabOrSpace (c : Char) : Bool := c == ' ' || c == '\t'

/-- The end of the text or a line break. -/
def endsLine (c : Option Char) : Bool := c.all isBreak

/-- The end of the text, a space or a line break. -/
def endsField (c : Option Char) : Bool := c.all fun c => c == ' ' || isBreak c

/-- The end of the text, a space, a tab or a line break. -/
def endsWord (c : Option Char) : Bool := c.all fun c => isTabOrSpace c || isBreak c

/-- A character that may stand in a YAML text. -/
def isAllowed (c : Char) : Bool :=
  let n := c.toNat
  n == 0x9 || n == 0xA || n == 0xD || (0x20 ≤ n && n ≤ 0x7E) || n == 0x85 ||
    (0xA0 ≤ n && n ≤ 0xFFFD) || 0x10000 ≤ n

/-- A character of the name of an anchor, of a directive or of a tag handle. -/
def isNameChar (c : Char) : Bool := c.isAlphanum || c == '-' || c == '_'

def isFlowMark (c : Char) : Bool :=
  c == ',' || c == '[' || c == ']' || c == '{' || c == '}'

/-- What a line break adds to a scalar. -/
def breakText (c : Char) : Char := if c.toNat == 0x2028 || c.toNat == 0x2029 then c else '\n'

/-- Whether a line starts with the marker between documents. -/
def atSeparator (s : Text) : Bool :=
  match s with
  | a :: b :: c :: rest =>
    ((a == '-' && b == '-' && c == '-') || (a == '.' && b == '.' && c == '.')) &&
      endsWord rest.head?
  | _ => false

/-! ## Places -/

/-- A place: the text from there, and the numbers of its line, of its column and of the characters
before it. -/
structure Cursor where
  rest : Text
  line : Nat
  column : Nat
  index : Nat

namespace Cursor

def head? (p : Cursor) : Option Char := p.rest.head?

def next (p : Cursor) : Cursor :=
  match p.rest with
  | [] => p
  | c :: rest =>
    if isBreak c then ⟨rest, p.line + 1, 0, p.index + 1⟩
    else if c.toNat = 0xFEFF then ⟨rest, p.line, p.column, p.index + 1⟩
    else ⟨rest, p.line, p.column + 1, p.index + 1⟩

def skip (p : Cursor) : Nat → Cursor
  | 0 => p
  | n + 1 => p.next.skip n

/-- The place after all characters of a class that stand here. -/
def skipWhile (p : Cursor) (f : Char → Bool) : Cursor := p.skip (p.rest.takeWhile f).length

/-- The characters of a class that stand here, and the place after them. -/
def takeWhile (p : Cursor) (f : Char → Bool) : Text × Cursor := (p.rest.takeWhile f, p.skipWhile f)

/-- The place after spaces and a comment, which has to be the end of the line. -/
def endLine? (p : Cursor) : Option Cursor :=
  let p := p.skipWhile (· == ' ')
  let p := if p.head? == some '#' then p.skipWhile (!isBreak ·) else p
  if endsLine p.head? then some p.next else none

end Cursor

/-! ## Line breaks inside scalars -/

/-- The line breaks after the first one in a scalar, with white space `f` passed over. A marker
between documents at the start of a line gives nothing. -/
def foldBreaks (f : Char → Bool) : (fuel : Nat) → Cursor → Option (Text × Cursor)
  | 0, _ => none
  | fuel + 1, p =>
    if p.column = 0 && atSeparator p.rest then none
    else
      let p := p.skipWhile f
      match p.head? with
      | some c =>
        if isBreak c then do
          let (breaks, p) ← foldBreaks f fuel p.next
          return (breakText c :: breaks, p)
        else some ([], p)
      | none => some ([], p)

/-- The text that a line break and those after it stand for: a space if there is but one. -/
def folded (first : Char) (breaks : Text) : Text :=
  if breakText first != '\n' then breakText first :: breaks
  else if breaks.isEmpty then [' ']
  else breaks

end TwigLayout.Yaml
