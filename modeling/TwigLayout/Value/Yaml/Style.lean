import TwigLayout.Value.Yaml.Cursor

/-!
# Scalar styles

The texts of scalars in the five styles in which YAML writes them: plain, in single quotes, in
double quotes, and as a block of lines that are either kept or folded.
-/

namespace TwigLayout.Yaml

open Text

/-! ## Quoted scalars -/

/-- The characters that an escape stands for in double quotes, by the character after the
backslash. -/
def escapes : List (Char × Nat) :=
  [('0', 0), ('a', 7), ('b', 8), ('t', 9), ('\t', 9), ('n', 10), ('v', 11), ('f', 12), ('r', 13),
    ('e', 27), (' ', 32), ('"', 34), ('/', 47), ('\\', 92), ('N', 0x85), ('_', 0xA0),
    ('L', 0x2028), ('P', 0x2029)]

/-- The number of hexadecimal digits after an escape that takes them. -/
def hexWidth? : Char → Option Nat
  | 'x' => some 2
  | 'u' => some 4
  | 'U' => some 8
  | _ => none

/-- The number that so many hexadecimal digits stand for. It has to be that of a code point. -/
def readCode (width : Nat) (s : Text) : Reading Nat := do
  let digits := s.take width
  let n ← Json.hexNumber? digits
  if digits.length < width then .error .malformed
  else if Nat.pow 2 31 ≤ n then .error (.fault (.tooLarge "code point out of range"))
  else if 0x110000 ≤ n then .error (.fault .notCodePoint)
  else return n

def codes (s : Text) : List Nat := s.map Char.toNat

/-- An escape after its backslash. A line break stands for nothing but the empty lines after it. -/
def readEscape (fuel : Nat) (p : Cursor) : Reading (List Nat × Cursor) := do
  let c ← p.head?
  match hexWidth? c with
  | some width => return ([← readCode width p.next.rest], p.next.skip width)
  | none =>
    if isBreak c then
      let (breaks, p) ← foldBreaks isTabOrSpace fuel p.next
      return (codes breaks, p)
    else return ([← escapes.lookup c], p.next)

/-- White space in a quoted scalar: as it is inside a line, and folded around line breaks. -/
def readSpaces (fuel : Nat) (p : Cursor) : Option (Text × Cursor) := do
  let q := p.skipWhile isTabOrSpace
  let c ← q.head?
  if isBreak c then
    let (breaks, r) ← foldBreaks isTabOrSpace fuel q.next
    return (folded c breaks, r)
  else return (p.rest.takeWhile isTabOrSpace, q)

/-- The code points of a scalar after the quote that opened it, up to the one that closes it. -/
def readQuotedCodes (double : Bool) : (fuel : Nat) → Cursor → Reading (List Nat × Cursor)
  | 0, _ => .error .malformed
  | fuel + 1, p => do
    let c ← p.head?
    if isTabOrSpace c || isBreak c then
      let (s, p) ← readSpaces fuel p
      let (t, p) ← readQuotedCodes double fuel p
      return (codes s ++ t, p)
    else if double && c == '\\' then
      let (s, p) ← readEscape fuel p.next
      let (t, p) ← readQuotedCodes double fuel p
      return (s ++ t, p)
    else if c == (if double then '"' else '\'') then
      if !double && p.next.head? == some '\'' then
        let (t, p) ← readQuotedCodes double fuel p.next.next
        return (c.toNat :: t, p)
      else return ([], p.next)
    else
      let (t, p) ← readQuotedCodes double fuel p.next
      return (c.toNat :: t, p)

/-- The text of a quoted scalar at its opening quote, and the place after the closing one. Each
escape stands for a character of its own, surrogates too. -/
def readQuoted (double : Bool) (fuel : Nat) (p : Cursor) : Reading (Text × Cursor) := do
  let (s, p) ← readQuotedCodes double fuel p.next
  return (s.map charOf, p)

/-! ## Plain scalars -/

/-- Whether a plain scalar stops before the character `c`, which `after` follows. -/
def stopsPlain (flow : Bool) (c : Char) (after : Option Char) : Bool :=
  endsWord (some c) || (c == ':' && (endsWord after || (flow && after.any isFlowMark))) ||
    (flow && (isFlowMark c || c == '?'))

/-- The number of characters up to where a plain scalar stops or meets white space. -/
def plainLength (flow : Bool) : Text → Nat
  | [] => 0
  | c :: s => if stopsPlain flow c s.head? then 0 else plainLength flow s + 1

/-- White space in a plain scalar with the place after it, and whether it holds a line break. Before
a marker between documents there is none. -/
def plainSpaces (fuel : Nat) (p : Cursor) : Text × Cursor × Bool :=
  let q := p.skipWhile (· == ' ')
  match q.head? with
  | some c =>
    if isBreak c then
      match foldBreaks (· == ' ') fuel q.next with
      | some (breaks, r) => (folded c breaks, r, true)
      | none => ([], q.next, true)
    else (p.rest.takeWhile (· == ' '), q, false)
  | none => (p.rest.takeWhile (· == ' '), q, false)

/-- The text of a plain scalar, the place after it and the white space behind it, and whether that
white space holds a line break. It goes on over lines indented by at least `indent`. -/
def readPlain (flow : Bool) (indent : Int) : (fuel : Nat) → Cursor → Text × Cursor × Bool
  | 0, p => ([], p, false)
  | fuel + 1, p =>
    match plainLength flow p.rest with
    | 0 => ([], p, false)
    | n =>
      let word := p.rest.take n
      let (spaces, q, broke) := plainSpaces fuel (p.skip n)
      if spaces.isEmpty || q.head? == some '#' || (!flow && q.column < indent) then
        (word, q, broke)
      else
        let (more, r, brokeLater) := readPlain flow indent fuel q
        if more.isEmpty then (word, q, broke) else (word ++ spaces ++ more, r, brokeLater)

/-! ## Block scalars -/

/-- What becomes of the line breaks at the end of a block: they are left out, the first is kept, or
all are kept. -/
inductive Chomping where
  | strip
  | clip
  | keep
  deriving DecidableEq, Repr

def chomping? : Char → Option Chomping
  | '-' => some .strip
  | '+' => some .keep
  | _ => none

/-- How far a block is indented beyond what is around it, from one to nine. -/
def increment? (c : Char) : Option Nat :=
  if '1' ≤ c && c ≤ '9' then some (c.toNat - '0'.toNat) else none

/-- The head of a block after its first character: chomping and increment in any order, both of
which may be left out, and a comment. -/
def readBlockHead (p : Cursor) : Option (Chomping × Option Nat × Cursor) := do
  let (first, p) := (p.head?.bind chomping?).elim (none, p) fun c => (some c, p.next)
  let (increment, p) := (p.head?.bind increment?).elim (none, p) fun n => (some n, p.next)
  let (second, p) :=
    if first.isSome || increment.isNone then (none, p)
    else (p.head?.bind chomping?).elim (none, p) fun c => (some c, p.next)
  if endsField p.head? then
    return ((first <|> second).getD .clip, increment, ← p.endLine?)
  else none

/-- The line breaks before the first line of a block that is not empty, and the greatest column that
spaces reach there. -/
def blockLead : (fuel : Nat) → (widest : Nat) → Cursor → Text × Nat × Cursor
  | 0, widest, p => ([], widest, p)
  | fuel + 1, widest, p =>
    match p.head? with
    | some c =>
      if c == ' ' then blockLead fuel (max widest p.next.column) p.next
      else if isBreak c then
        let (breaks, widest, q) := blockLead fuel widest p.next
        (breakText c :: breaks, widest, q)
      else ([], widest, p)
    | none => ([], widest, p)

/-- The place after spaces that stand before a column. -/
def toColumn (indent : Nat) (p : Cursor) : Cursor :=
  p.skip (min (p.rest.takeWhile (· == ' ')).length (indent - p.column))

/-- The line breaks of lines without text in a block of an indentation. -/
def blockBreaks (indent : Nat) : (fuel : Nat) → Cursor → Text × Cursor
  | 0, p => ([], p)
  | fuel + 1, p =>
    let p := toColumn indent p
    match p.head? with
    | some c =>
      if isBreak c then
        let (breaks, q) := blockBreaks indent fuel p.next
        (breakText c :: breaks, q)
      else ([], p)
    | none => ([], p)

/-- The line break after a line of a block as the block keeps it. A folded one is a space between
two lines of text, or nothing if empty lines follow, but stays next to a line that starts with white
space. -/
def foldedBreak (fold : Bool) (first : Option Char) (line : Text) (breaks : Text)
    (next : Option Char) : Text :=
  let isText (c : Option Char) : Bool := !c.any isTabOrSpace
  if fold && line == ['\n'] && isText first && isText next then
    if breaks.isEmpty then [' '] else []
  else line

/-- The lines of a block of an indentation from a place on, the line break after the last of them,
and those after that one. `breaks` stand before the place. -/
def blockLines (fold : Bool) (indent : Nat) :
    (fuel : Nat) → (breaks : Text) → Cursor → Text × Text × Text × Cursor
  | 0, breaks, p => ([], [], breaks, p)
  | fuel + 1, breaks, p =>
    if p.column = indent && p.head?.isSome then
      let (line, q) := p.takeWhile (!isBreak ·)
      let ending := (q.head?.map breakText).toList
      let (more, r) := blockBreaks indent fuel q.next
      if r.column = indent && r.head?.isSome then
        let (text, last, trailing, r') := blockLines fold indent fuel more r
        (breaks ++ line ++ foldedBreak fold p.head? ending more r.head? ++ text, last, trailing, r')
      else (breaks ++ line, ending, more, r)
    else ([], [], breaks, p)

/-- The text of a block scalar at its first character, inside something indented by `indent`, and
the place after it. -/
def readBlock (fold : Bool) (indent : Int) (fuel : Nat) (p : Cursor) : Option (Text × Cursor) := do
  let (chomping, increment, p) ← readBlockHead p.next
  let least := (max 1 (indent + 1)).toNat
  let (breaks, column, p) :=
    match increment with
    | some n =>
      let column := least + n - 1
      let (breaks, p) := blockBreaks column fuel p
      (breaks, column, p)
    | none =>
      let (breaks, widest, p) := blockLead fuel 0 p
      (breaks, max least widest, p)
  let (text, last, trailing, p) := blockLines fold column fuel breaks p
  return (match chomping with
    | .strip => (text, p)
    | .clip => (text ++ last, p)
    | .keep => (text ++ last ++ trailing, p))

end TwigLayout.Yaml
