import TwigLayout.Value.Yaml.Style

/-!
# YAML tokens

The tokens of a YAML text. Indentation becomes tokens too: a mapping or a sequence in block style
has a token where it starts and one where it ends. Whether a scalar or a flow collection is the key
of a mapping shows only at the colon after it, so the token for a key is put in before it then.

A text whose tokens end in a fault may be refused for the tokens before it already. So a stream of
tokens keeps those that are certain when the fault comes up, and the fault behind them.
-/

namespace TwigLayout.Yaml

open Text

inductive Token where
  /-- The version that a document is written in. -/
  | version (major : Nat)
  /-- What a handle stands for in tags. -/
  | tagHandle (handle start : Text)
  /-- A directive of any other kind. -/
  | directive
  | documentStart
  | documentEnd
  | sequenceStart
  | mappingStart
  | blockEnd
  | flowSequenceStart
  | flowSequenceEnd
  | flowMappingStart
  | flowMappingEnd
  | blockEntry
  | flowEntry
  | key
  | value
  | alias (name : Text)
  | anchor (name : Text)
  /-- A tag. One without handle is written out in full. -/
  | tag (handle : Option Text) (suffix : Text)
  | scalar (text : Text) (plain : Bool)
  deriving DecidableEq, Repr

/-! ## Tags -/

/-- A character of a tag. -/
def isTagChar (c : Char) : Bool :=
  c.isAlphanum || "-;/?:@&=+$,_.!~*'()[]".toList.contains c

/-- Bytes written as a percent sign and two hexadecimal digits each. -/
def readPercents : (fuel : Nat) → Cursor → Option (List UInt8 × Cursor)
  | 0, _ => none
  | fuel + 1, p =>
    match p.rest with
    | '%' :: a :: b :: _ => do
      let n ← Json.hexNumber? [a, b]
      let (bytes, p) ← readPercents fuel (p.skip 3)
      return (n.toUInt8 :: bytes, p)
    | '%' :: _ => none
    | _ => some ([], p)

/-- The characters of a tag, some of which may be written as bytes. -/
def readTagText : (fuel : Nat) → Cursor → Option (Text × Cursor)
  | 0, _ => none
  | fuel + 1, p => do
    let (start, q) := p.takeWhile isTagChar
    if q.head? == some '%' then
      let (bytes, q) ← readPercents fuel q
      let c ← (Utf8.decode (ByteArray.mk bytes.toArray)).toOption
      let (more, q) ← readTagText fuel q
      return (start ++ c ++ more, q)
    else return (start, q)

/-- The characters of a tag, of which there is at least one. -/
def readTagUri (fuel : Nat) (p : Cursor) : Option (Text × Cursor) := do
  let (s, q) ← readTagText fuel p
  if q.index = p.index then none else some (s, q)

/-- The handle of a tag: an exclamation mark, or a name between two. -/
def readHandle (p : Cursor) : Option (Text × Cursor) := do
  let q ← (p.head?.filter (· == '!')).map fun _ => p.next
  if q.head? == some ' ' then return (['!'], q)
  let (name, q) := q.takeWhile isNameChar
  if q.head? == some '!' then some ('!' :: name ++ ['!'], q.next) else none

/-- A tag at its exclamation mark. -/
def readTag (fuel : Nat) (p : Cursor) : Option (Token × Cursor) := do
  let (token, q) ←
    if p.next.head? == some '<' then
      let (s, q) ← readTagUri fuel (p.skip 2)
      if q.head? == some '>' then some (Token.tag none s, q.next) else none
    else if endsWord p.next.head? then some (Token.tag none ['!'], p.next)
    else
      let word := p.next.rest.takeWhile fun c => !endsField (some c)
      let (handle, q) ← if word.contains '!' then readHandle p else some (['!'], p.next)
      let (s, q) ← readTagUri fuel q
      some (Token.tag (some handle) s, q)
  if endsField q.head? then some (token, q) else none

/-- The name of an anchor or an alias after its mark. -/
def readAnchor (p : Cursor) : Option (Text × Cursor) :=
  let (name, q) := p.next.takeWhile isNameChar
  let ends := q.head?.all fun c => endsWord (some c) || "?:,]\x7d%@\x60".toList.contains c
  if !name.isEmpty && ends then some (name, q) else none

/-! ## Directives -/

/-- A number of a version, and the place after it. -/
def readVersionNumber (p : Cursor) : Reading (Nat × Cursor) := do
  let (digits, q) := p.takeWhile Char.isDigit
  if digits.isEmpty then .error .malformed else return ((← integerOf false digits).toNat, q)

/-- A version after spaces: two numbers with a point between them. -/
def readVersion (p : Cursor) : Reading (Token × Cursor) := do
  let (major, p) ← readVersionNumber (p.skipWhile (· == ' '))
  if p.head? != some '.' then .error .malformed
  let (_, p) ← readVersionNumber p.next
  if endsField p.head? then return (.version major, p) else .error .malformed

/-- A handle and what it stands for, after spaces. -/
def readTagHandle (fuel : Nat) (p : Cursor) : Option (Token × Cursor) := do
  let (handle, p) ← readHandle (p.skipWhile (· == ' '))
  if p.head? != some ' ' then none
  let (start, p) ← readTagUri fuel (p.skipWhile (· == ' '))
  if endsField p.head? then some (.tagHandle handle start, p) else none

/-- A directive at its percent sign, and the place on the next line. -/
def readDirective (fuel : Nat) (p : Cursor) : Reading (Token × Cursor) := do
  let (name, p) := p.next.takeWhile isNameChar
  if name.isEmpty || !endsField p.head? then .error .malformed
  let (token, p) ←
    match String.ofList name with
    | "YAML" => readVersion p
    | "TAG" => readTagHandle fuel p
    | _ => Except.ok (Token.directive, p.skipWhile (!isBreak ·))
  return (token, ← p.endLine?)

/-! ## The lexer -/

/-- A scalar or flow collection that may turn out to be a key: the number of tokens before it, where
it starts, and whether it has to be one. -/
structure PossibleKey where
  before : Nat
  required : Bool
  place : Cursor

/-- What the lexer knows: the tokens so far with the last one first and their number, the columns of
the open block collections with the innermost first, the depth of flow collections, whether a key
may start here, and the possible key at each depth. -/
structure Lexer where
  place : Cursor
  tokens : List Token
  count : Nat
  indents : List Int
  flow : Nat
  keyAllowed : Bool
  keys : List (Nat × PossibleKey)

namespace Lexer

def start (s : Text) : Lexer := ⟨⟨s, 0, 0, 0⟩, [], 0, [], 0, true, []⟩

def indent (st : Lexer) : Int := st.indents.head?.getD (-1)

def emit (st : Lexer) (t : Token) : Lexer :=
  { st with tokens := t :: st.tokens, count := st.count + 1 }

/-- Puts a token in after the first `before` tokens. -/
def insert (st : Lexer) (before : Nat) (t : Token) : Lexer :=
  let after := st.count - before
  { st with
    tokens := st.tokens.take after ++ t :: st.tokens.drop after
    count := st.count + 1 }

/-- Closes the block collections that are indented deeper than a column. -/
def unwind (st : Lexer) (column : Int) : Lexer :=
  if st.flow = 0 then
    let deeper := st.indents.takeWhile (column < ·)
    deeper.foldl (fun st _ => st.emit .blockEnd)
      { st with indents := st.indents.drop deeper.length }
  else st

/-- Opens a block collection at a column unless one is open there. Its token goes in after the first
`before` tokens. -/
def open' (st : Lexer) (column : Int) (token : Token) (before : Nat) : Lexer :=
  if st.indent < column then { st with indents := column :: st.indents }.insert before token else st

/-- Forgets the possible key at this depth. A required key cannot be forgotten. -/
def dropKey (st : Lexer) : Reading Lexer :=
  match st.keys.lookup st.flow with
  | some k =>
    if k.required then .error .malformed
    else .ok { st with keys := st.keys.filter (·.1 != st.flow) }
  | none => .ok st

/-- Remembers that a key may start here. -/
def saveKey (st : Lexer) : Reading Lexer :=
  if st.keyAllowed then do
    let st ← st.dropKey
    let required := st.flow = 0 && st.indent = st.place.column
    return { st with keys := (st.flow, ⟨st.count, required, st.place⟩) :: st.keys }
  else .ok st

/-- Whether a possible key is on another line or too far back. -/
def isStale (st : Lexer) (k : PossibleKey) : Bool :=
  k.place.line != st.place.line || 1024 < st.place.index - k.place.index

/-- Forgets the possible keys that are on another line or too far back. -/
def dropStaleKeys (st : Lexer) : Reading Lexer :=
  if st.keys.any fun k => st.isStale k.2 && k.2.required then .error .malformed
  else .ok { st with keys := st.keys.filter fun k => !st.isStale k.2 }

/-- Passes over spaces, comments and line breaks. A key may start on a new line, outside flow
collections. -/
def toNextToken : (fuel : Nat) → Lexer → Lexer
  | 0, st => st
  | fuel + 1, st =>
    let p := st.place.skipWhile (· == ' ')
    let p := if p.head? == some '#' then p.skipWhile (!isBreak ·) else p
    if p.head?.any isBreak then
      toNextToken fuel
        { st with place := p.next, keyAllowed := st.keyAllowed || st.flow = 0 }
    else { st with place := p }

def forward (st : Lexer) (n : Nat) : Lexer := { st with place := st.place.skip n }

/-- Starts a flow collection, which may itself be a key. -/
def flowStart (st : Lexer) (t : Token) : Reading Lexer := do
  let st ← st.saveKey
  return ({ st with flow := st.flow + 1, keyAllowed := true }.emit t).forward 1

def flowEnd (st : Lexer) (t : Token) : Reading Lexer := do
  if st.flow = 0 then .error .malformed
  let st ← st.dropKey
  return ({ st with flow := st.flow - 1, keyAllowed := false }.emit t).forward 1

def flowEntry (st : Lexer) : Reading Lexer := do
  let st ← st.dropKey
  return ({ st with keyAllowed := true }.emit .flowEntry).forward 1

/-- A dash that starts an entry of a block sequence. -/
def blockEntry (st : Lexer) : Reading Lexer := do
  if st.flow = 0 && !st.keyAllowed then .error .malformed
  let st := if st.flow = 0 then st.open' st.place.column .sequenceStart st.count else st
  let st ← st.dropKey
  return ({ st with keyAllowed := true }.emit .blockEntry).forward 1

/-- A question mark that starts a key. -/
def explicitKey (st : Lexer) : Reading Lexer := do
  if st.flow = 0 && !st.keyAllowed then .error .malformed
  let st := if st.flow = 0 then st.open' st.place.column .mappingStart st.count else st
  let st ← st.dropKey
  return ({ st with keyAllowed := st.flow = 0 }.emit .key).forward 1

/-- A colon after a key. A possible key before it becomes one. -/
def colon (st : Lexer) : Reading Lexer := do
  match st.keys.lookup st.flow with
  | some k =>
    let st := { st with keys := st.keys.filter (·.1 != st.flow) }.insert k.before .key
    let st := if st.flow = 0 then st.open' k.place.column .mappingStart k.before else st
    return ({ st with keyAllowed := false }.emit .value).forward 1
  | none =>
    if st.flow = 0 && !st.keyAllowed then .error .malformed
    let st := if st.flow = 0 then st.open' st.place.column .mappingStart st.count else st
    let st ← st.dropKey
    return ({ st with keyAllowed := st.flow = 0 }.emit .value).forward 1

/-- A token that may be, or come before, a key. -/
def property (st : Lexer) (read : Cursor → Option (Token × Cursor)) : Reading Lexer := do
  let st ← st.saveKey
  let (t, p) ← read st.place
  return { st with place := p, keyAllowed := false }.emit t

def quoted (st : Lexer) (double : Bool) (fuel : Nat) : Reading Lexer := do
  let st ← st.saveKey
  let (s, p) ← readQuoted double fuel st.place
  return { st with place := p, keyAllowed := false }.emit (.scalar s false)

def plain (st : Lexer) (fuel : Nat) : Reading Lexer := do
  let st ← st.saveKey
  let (s, p, broke) := readPlain (st.flow != 0) (st.indent + 1) fuel st.place
  return { st with place := p, keyAllowed := broke }.emit (.scalar s true)

/-- A block of lines, which a key may follow. -/
def block (st : Lexer) (fold : Bool) (fuel : Nat) : Reading Lexer := do
  let st ← st.dropKey
  let (s, p) ← readBlock fold st.indent fuel st.place
  return { st with place := p, keyAllowed := true }.emit (.scalar s false)

/-- A marker between documents closes every block collection. -/
def separator (st : Lexer) (t : Token) : Reading Lexer := do
  let st ← (st.unwind (-1)).dropKey
  return ({ st with keyAllowed := false }.emit t).forward 3

def directive (st : Lexer) (fuel : Nat) : Reading Lexer := do
  let st ← (st.unwind (-1)).dropKey
  let (t, p) ← readDirective fuel st.place
  return { st with place := p, keyAllowed := false }.emit t

/-- Whether a plain scalar may start with `c`, which `after` follows. -/
def startsPlain (st : Lexer) (c : Char) (after : Option Char) : Bool :=
  !(endsWord (some c) || "-?:,[]\x7b\x7d#&*!|>'\"%@\x60".toList.contains c) ||
    (!endsWord after && (c == '-' || (st.flow = 0 && (c == '?' || c == ':'))))

/-- The next token, at a place that holds a character. -/
def step (st : Lexer) (fuel : Nat) (c : Char) (after : Option Char) : Reading Lexer :=
  if c == '%' && st.place.column = 0 then st.directive fuel
  else if c == '-' && st.place.column = 0 && atSeparator st.place.rest then
    st.separator .documentStart
  else if c == '.' && st.place.column = 0 && atSeparator st.place.rest then
    st.separator .documentEnd
  else if c == '[' then st.flowStart .flowSequenceStart
  else if c == '{' then st.flowStart .flowMappingStart
  else if c == ']' then st.flowEnd .flowSequenceEnd
  else if c == '}' then st.flowEnd .flowMappingEnd
  else if c == ',' then st.flowEntry
  else if c == '-' && endsWord after then st.blockEntry
  else if c == '?' && (st.flow != 0 || endsWord after) then st.explicitKey
  else if c == ':' && (st.flow != 0 || endsWord after) then st.colon
  else if c == '*' then st.property fun p => (readAnchor p).map fun (s, q) => (.alias s, q)
  else if c == '&' then st.property fun p => (readAnchor p).map fun (s, q) => (.anchor s, q)
  else if c == '!' then st.property (readTag fuel)
  else if c == '|' && st.flow = 0 then st.block false fuel
  else if c == '>' && st.flow = 0 then st.block true fuel
  else if c == '\'' then st.quoted false fuel
  else if c == '"' then st.quoted true fuel
  else if st.startsPlain c after then st.plain fuel
  else .error .malformed

/-- The number of tokens before which no other can be put in any more. -/
def certain (st : Lexer) : Nat :=
  (st.keys.filter fun k => !st.isStale k.2).foldl (fun n k => min n k.2.before) st.count

/-- The state after the next token, and whether there was one. -/
def advance (st : Lexer) (fuel : Nat) : Reading (Lexer × Bool) := do
  let st ← (toNextToken fuel st).dropStaleKeys
  let st := st.unwind st.place.column
  match st.place.rest with
  | [] => return (← (st.unwind (-1)).dropKey, false)
  | c :: rest => return (← st.step fuel c rest.head?, true)

end Lexer

/-- Tokens, and why there are no more of them if the text goes on. -/
structure Stream where
  tokens : List Token
  stop : Option Unread

/-- All tokens from here on. Every step uses up a character, so `fuel` above the length of the text
is enough for each of them too. -/
def Lexer.run : (fuel : Nat) → Lexer → Stream
  | 0, _ => ⟨[], some .malformed⟩
  | fuel + 1, st =>
    match st.advance (fuel + 1) with
    | .ok (st, true) => run fuel st
    | .ok (st, false) => ⟨st.tokens.reverse, none⟩
    | .error e => ⟨st.tokens.reverse.take st.certain, some e⟩

/-- The tokens of a YAML text. A byte order mark at its start is passed over. -/
def Stream.ofText (s : Text) : Stream :=
  if s.all isAllowed then
    let s := if s.head?.any (·.toNat == 0xFEFF) then s.drop 1 else s
    (Lexer.start s).run (s.length + 2)
  else ⟨[], some .malformed⟩

end TwigLayout.Yaml
