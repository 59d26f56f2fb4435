import TwigLayout.Value.Basic

/-!
# JSON

Reading and writing values as JSON text. Of a key that is repeated in one object the last value
counts. A text may also hold the three numbers that are not finite, by their names. Of the values
that JSON has no text for, `storable` makes those that it has, or refuses them.
-/

namespace TwigLayout.Json

open Text

def isSpace (c : Char) : Bool := c == ' ' || c == '\t' || c == '\n' || c == '\r'

def skip (s : Text) : Text := s.dropWhile isSpace

/-! ## Strings -/

def hexDigit? (c : Char) : Option Nat :=
  if c.isDigit then some (c.toNat - '0'.toNat)
  else if 'a' ≤ c && c ≤ 'f' then some (c.toNat - 'a'.toNat + 10)
  else if 'A' ≤ c && c ≤ 'F' then some (c.toNat - 'A'.toNat + 10)
  else none

/-- The number that hexadecimal digits stand for. -/
def hexNumber? (digits : List Char) : Option Nat :=
  digits.foldlM (fun n c => (hexDigit? c).map (16 * n + ·)) 0

/-- The character that a backslash makes of another. -/
def escape? : Char → Option Char
  | '"' => some '"'
  | '\\' => some '\\'
  | '/' => some '/'
  | 'b' => some '\x08'
  | 'f' => some '\x0c'
  | 'n' => some '\n'
  | 'r' => some '\r'
  | 't' => some '\t'
  | _ => none

/-- The code points of a string after its opening quote, and the rest after the closing one.
Control characters have to be escaped. -/
def readUnits : Text → Option (List Nat × Text)
  | [] => none
  | '"' :: s => some ([], s)
  | '\\' :: 'u' :: a :: b :: c :: d :: s => do
    let n ← hexNumber? [a, b, c, d]
    let (units, rest) ← readUnits s
    return (n :: units, rest)
  | '\\' :: c :: s => do
    let c ← escape? c
    let (units, rest) ← readUnits s
    return (c.toNat :: units, rest)
  | c :: s =>
    if c.toNat < 0x20 || c = '\\' then none
    else (readUnits s).map fun parts => (c.toNat :: parts.1, parts.2)

/-- The text of code points in which a character may be written as two surrogates. -/
def joinSurrogates : List Nat → List Char
  | [] => []
  | [n] => [charOf n]
  | hi :: lo :: rest =>
    if isHighSurrogate hi && isLowSurrogate lo then
      Char.ofNat (0x10000 + (hi - 0xD800) * 0x400 + (lo - 0xDC00)) :: joinSurrogates rest
    else charOf hi :: joinSurrogates (lo :: rest)

def readString (s : Text) : Option (String × Text) :=
  (readUnits s).map fun (units, rest) => (String.ofList (joinSurrogates units), rest)

/-! ## Numbers -/

/-- The number that decimal digits stand for. -/
def decimalNumber (digits : List Char) : Nat :=
  digits.foldl (fun n c => 10 * n + (c.toNat - '0'.toNat)) 0

/-- The digits after a point, if a point and a digit follow. -/
def readFraction : Text → Option (Text × Text)
  | '.' :: s =>
    match s.takeWhile Char.isDigit with
    | [] => none
    | digits => some (digits, s.dropWhile Char.isDigit)
  | _ => none

/-- An exponent, if one follows. -/
def readExponent : Text → Option (Int × Text)
  | [] => none
  | c :: s =>
    if c == 'e' || c == 'E' then
      let (negative, s) :=
        match s with
        | '-' :: s => (true, s)
        | '+' :: s => (false, s)
        | s => (false, s)
      match s.takeWhile Char.isDigit with
      | [] => none
      | digits =>
        let n : Int := decimalNumber digits
        some (if negative then -n else n, s.dropWhile Char.isDigit)
    else none

/-- The digits before the point: a zero, or digits that do not start with one. -/
def readWhole : Text → Option (Text × Text)
  | '0' :: s => some (['0'], s)
  | s =>
    match s.takeWhile Char.isDigit with
    | [] => none
    | digits => some (digits, s.dropWhile Char.isDigit)

/-- A number without its sign. With a fraction or an exponent it is a floating point number. -/
def readUnsigned (negative : Bool) (s : Text) : Reading (Value × Text) := do
  let (whole, s) ← readWhole s
  let fraction := readFraction s
  let s := (fraction.map (·.2)).getD s
  let exponent := readExponent s
  let s := (exponent.map (·.2)).getD s
  if fraction.isSome || exponent.isSome then
    let digits := (fraction.map (·.1)).getD []
    let e := (exponent.map (·.1)).getD 0 - digits.length
    return (.float (.ofDecimal negative (decimalNumber (whole ++ digits)) e), s)
  else return (.int (← integerOf negative whole), s)

def readNumber : Text → Reading (Value × Text)
  | '-' :: s => readUnsigned true s
  | s => readUnsigned false s

/-! ## Values -/

/-- The constants, by name. -/
def constants : List (Text × Value) :=
  [("null".toList, .null), ("true".toList, .bool true), ("false".toList, .bool false),
    ("NaN".toList, .float .nan), ("Infinity".toList, .float (.infinite false)),
    ("-Infinity".toList, .float (.infinite true))]

def readConstant (s : Text) : Option (Value × Text) :=
  constants.findSome? fun (name, v) => (after? name s).map fun rest => (v, rest)

/-- The number of arrays and objects that may stand inside one another. -/
def depthBound : Nat := 985

mutual

/-- A value at the start of a text that may be nested `room` deep. Each step down uses up a
character or goes from a container to its first part, so `fuel` of twice the length is enough. -/
def readValue : (fuel room : Nat) → Text → Reading (Value × Text)
  | 0, _, _ => .error .malformed
  | fuel + 1, room, s =>
    match s with
    | '"' :: s => do
      let (t, rest) ← readString s
      return (.str t, rest)
    | '[' :: s =>
      match room, skip s with
      | 0, _ => .error (.fault .tooDeep)
      | _, ']' :: rest => .ok (.list [], rest)
      | room + 1, s => do
        let (items, rest) ← readItems fuel room s
        return (.list items, rest)
    | '{' :: s =>
      match room, skip s with
      | 0, _ => .error (.fault .tooDeep)
      | _, '}' :: rest => .ok (.map [], rest)
      | room + 1, s => do
        let (pairs, rest) ← readMembers fuel room s
        return (.map (Entries.ofPairs (Entries.named pairs)), rest)
    | s =>
      match readConstant s with
      | some found => .ok found
      | none => readNumber s

/-- The items of an array up to its end. -/
def readItems : (fuel room : Nat) → Text → Reading (List Value × Text)
  | 0, _, _ => .error .malformed
  | fuel + 1, room, s => do
    let (v, s) ← readValue fuel room s
    match skip s with
    | ']' :: rest => return ([v], rest)
    | ',' :: s =>
      let (items, rest) ← readItems fuel room (skip s)
      return (v :: items, rest)
    | _ => .error .malformed

/-- The members of an object up to its end. -/
def readMembers : (fuel room : Nat) → Text → Reading (List (String × Value) × Text)
  | 0, _, _ => .error .malformed
  | fuel + 1, room, s => do
    let s ← after? ['"'] s
    let (key, s) ← readString s
    let s ← after? [':'] (skip s)
    let (v, s) ← readValue fuel room (skip s)
    match skip s with
    | '}' :: rest => return ([(key, v)], rest)
    | ',' :: s =>
      let (pairs, rest) ← readMembers fuel room (skip s)
      return ((key, v) :: pairs, rest)
    | _ => .error .malformed

end

/-- The value of a JSON text. -/
def parse (s : Text) : Reading Value := do
  let (v, rest) ← readValue (2 * s.length + 2) depthBound (skip s)
  if (skip rest).isEmpty then return v else .error .malformed

/-! ## Writing -/

/-- A character that some reader takes for the end of a line or does not show. -/
def isHidden (c : Char) : Bool :=
  let n := c.toNat
  n < 0x20 || (0x7F ≤ n && n < 0xA0) || n = 0x2028 || n = 0x2029

def escaped (c : Char) : List Char :=
  if c = '"' then ['\\', '"']
  else if c = '\\' then ['\\', '\\']
  else if c = '\n' then ['\\', 'n']
  else if isHidden c then '\\' :: 'u' :: hexDigits 4 c.toNat
  else [c]

def renderString (s : String) : String :=
  String.ofList ('"' :: s.toList.flatMap escaped ++ ['"'])

/-- The greatest number that is written in decimal digits, and one more. -/
def integerBound : Nat := Nat.pow 10 digitBound

/-- An integer that is not too long to be written. -/
def checkInteger (i : Int) : Except Fault Unit :=
  if i.natAbs < integerBound then .ok () else .error (.tooManyDigits none)

/-- The text of a floating point number, also of one that is not finite. -/
def floatText : Double → String
  | .nan => "NaN"
  | .infinite negative => if negative then "-Infinity" else "Infinity"
  | x => x.text

/-- The text that a key becomes. -/
def keyText : Value → Except Fault String
  | .str s => .ok s
  | .float x => .ok (floatText x)
  | .bool b => .ok (if b then "true" else "false")
  | .null => .ok "null"
  | .int i => do
    checkInteger i
    return toString i
  | v => .error
      (.wrongType s!"keys must be str, int, float, bool or None, not {v.typeName}")

/-- The fault of a value that has no text. -/
def notStorable (v : Value) : Fault :=
  .wrongType s!"Object of type {v.typeName} is not JSON serializable"

mutual

/-- The value that is left of another when it was written and read again: keys are texts, and all
lists are of one kind. -/
def storable : Value → Except Fault Value
  | .list items | .tuple items => do return .list (← storableItems items)
  | .map entries => do return .map (Entries.ofPairs (← storableEntries entries))
  | .int i => do
    checkInteger i
    return .int i
  | .endless => .error .circular
  | .bytes bs => .error (notStorable (.bytes bs))
  | .moment m => .error (notStorable (.moment m))
  | .set items => .error (notStorable (.set items))
  | v => .ok v

def storableItems : List Value → Except Fault (List Value)
  | [] => .ok []
  | v :: vs => do
    let v ← storable v
    return v :: (← storableItems vs)

def storableEntries : List (Value × Value) → Except Fault (List (Value × Value))
  | [] => .ok []
  | (k, v) :: es => do
    let key ← keyText k
    let v ← storable v
    return (.str key, v) :: (← storableEntries es)

end

mutual

/-- The text of a value. What has none of its own is written as the text of its text. -/
def render : Value → String
  | .null => "null"
  | .bool b => if b then "true" else "false"
  | .int i => toString i
  | .float x => floatText x
  | .str s => renderString s
  | .list items | .tuple items => "[" ++ ", ".intercalate (renderItems items) ++ "]"
  | .map entries => "\x7b" ++ ", ".intercalate (renderMembers entries) ++ "\x7d"
  | .bytes bs => renderString (Value.bytes bs).text
  | .moment m => renderString m.text
  | .set items => "[" ++ ", ".intercalate (renderItems items) ++ "]"
  | .endless => "null"

def renderItems : List Value → List String
  | [] => []
  | v :: vs => render v :: renderItems vs

def renderMembers : List (Value × Value) → List String
  | [] => []
  | (k, v) :: es => (renderString k.text ++ ": " ++ render v) :: renderMembers es

end

end TwigLayout.Json
