import TwigLayout.Value.Json

/-!
# TOML

The value of a TOML text: keys, tables, arrays of tables, and all kinds of values. A table is opened
once, and what is written inline is closed for good.
-/

namespace TwigLayout.Toml

open Text

def skip (s : Text) : Text := s.dropWhile fun c => c == ' ' || c == '\t'

/-- A control character other than a tab. -/
def isControl (c : Char) : Bool := (c.toNat < 0x20 && c != '\t') || c.toNat = 0x7F

/-- The text after a comment, if one stands here. -/
def skipComment : Text → Option Text
  | '#' :: s =>
    let comment := s.takeWhile (· != '\n')
    if comment.any isControl then none else some (s.drop comment.length)
  | s => some s

/-- The text after white space, line ends and comments. -/
def skipLines : (fuel : Nat) → Text → Option Text
  | 0, _ => none
  | fuel + 1, s =>
    match s.dropWhile (fun c => c == ' ' || c == '\t' || c == '\n') with
    | '#' :: rest => (skipComment ('#' :: rest)).bind (skipLines fuel)
    | rest => some rest

/-! ## Strings -/

def escape? : Char → Option Char
  | 'b' => some '\x08'
  | 't' => some '\t'
  | 'n' => some '\n'
  | 'f' => some '\x0c'
  | 'r' => some '\r'
  | '"' => some '"'
  | '\\' => some '\\'
  | _ => none

/-- The character with the code point that hexadecimal digits give. Surrogates are none. -/
def codePoint? (digits : List Char) : Option Char := do
  let n ← Json.hexNumber? digits
  if n < 0xD800 || (0xDFFF < n && n < 0x110000) then some (Char.ofNat n) else none

/-- The text up to the closing quote of a basic string on one line, and the rest. -/
def readBasic : Text → Option (Text × Text)
  | [] => none
  | '"' :: s => some ([], s)
  | '\\' :: 'u' :: a :: b :: c :: d :: s => do
    let x ← codePoint? [a, b, c, d]
    let (t, rest) ← readBasic s
    return (x :: t, rest)
  | '\\' :: 'U' :: a :: b :: c :: d :: e :: f :: g :: h :: s => do
    let x ← codePoint? [a, b, c, d, e, f, g, h]
    let (t, rest) ← readBasic s
    return (x :: t, rest)
  | '\\' :: c :: s => do
    let c ← escape? c
    let (t, rest) ← readBasic s
    return (c :: t, rest)
  | c :: s =>
    if isControl c || c = '\\' then none
    else (readBasic s).map fun parts => (c :: parts.1, parts.2)

/-- The text up to the closing quote of a literal string on one line, and the rest. -/
def readLiteral : Text → Option (Text × Text)
  | [] => none
  | c :: s =>
    if c = '\'' then some ([], s)
    else if isControl c then none
    else (readLiteral s).map fun parts => (c :: parts.1, parts.2)

/-- The end of a string over several lines: three quotes, of more than three the last ones. -/
def closeMultiline (q : Char) (s : Text) : Option (Text × Text) := do
  let rest ← after? [q, q, q] s
  let extra := (rest.takeWhile (· == q)).take 2
  return (extra, rest.drop extra.length)

/-- The text up to the end of a string over several lines, and the rest. In a basic one, a backslash
at the end of a line leaves out the white space up to the next text. -/
def readMultiline (q : Char) : (fuel : Nat) → Text → Option (Text × Text)
  | 0, _ => none
  | fuel + 1, s =>
    closeMultiline q s <|>
      match s with
      | [] => none
      | c :: s =>
        if q = '"' && c = '\\' then
          match s with
          | 'u' :: a :: b :: c :: d :: s => do
            let x ← codePoint? [a, b, c, d]
            (readMultiline q fuel s).map fun parts => (x :: parts.1, parts.2)
          | 'U' :: a :: b :: c :: d :: e :: f :: g :: h :: s => do
            let x ← codePoint? [a, b, c, d, e, f, g, h]
            (readMultiline q fuel s).map fun parts => (x :: parts.1, parts.2)
          | c :: s =>
            if c = ' ' || c = '\t' || c = '\n' then
              match skip (c :: s) with
              | '\n' :: rest =>
                readMultiline q fuel
                  (rest.dropWhile fun c => c == ' ' || c == '\t' || c == '\n')
              | _ => none
            else do
              let x ← escape? c
              (readMultiline q fuel s).map fun parts => (x :: parts.1, parts.2)
          | [] => none
        else if isControl c && c != '\n' then none
        else (readMultiline q fuel s).map fun parts => (c :: parts.1, parts.2)

/-- A string of any kind. The line end right after three opening quotes is left out. -/
def readString (s : Text) : Option (String × Text) := do
  let multiline := fun (q : Char) (s : Text) =>
    readMultiline q (s.length + 1) ((after? ['\n'] s).getD s)
  let (t, rest) ←
    match s with
    | '"' :: '"' :: '"' :: s => multiline '"' s
    | '\'' :: '\'' :: '\'' :: s => multiline '\'' s
    | '"' :: s => readBasic s
    | '\'' :: s => readLiteral s
    | _ => none
  return (String.ofList t, rest)

/-! ## Keys -/

def isBareKeyChar (c : Char) : Bool := c.isAlphanum || c == '-' || c == '_'

def readKeyPart (s : Text) : Option (String × Text) :=
  match s with
  | '"' :: s => (readBasic s).map fun (t, rest) => (String.ofList t, rest)
  | '\'' :: s => (readLiteral s).map fun (t, rest) => (String.ofList t, rest)
  | s =>
    match s.takeWhile isBareKeyChar with
    | [] => none
    | name => some (String.ofList name, s.dropWhile isBareKeyChar)

/-- The parts of a key with dots between them, and the rest after white space. -/
def readKey : (fuel : Nat) → Text → Option (List String × Text)
  | 0, _ => none
  | fuel + 1, s => do
    let (part, s) ← readKeyPart s
    match skip s with
    | '.' :: s =>
      let (parts, rest) ← readKey fuel (skip s)
      return (part :: parts, rest)
    | rest => return ([part], rest)

/-! ## Numbers -/

/-- Digits of a base, with single bars between them, and the rest. -/
def readDigits (isDigit : Char → Bool) : Text → Text × Text
  | [] => ([], [])
  | c :: s =>
    if isDigit c then
      match s with
      | '_' :: d :: rest =>
        if isDigit d then
          let (ds, rest) := readDigits isDigit (d :: rest)
          (c :: ds, rest)
        else ([c], s)
      | s =>
        let (ds, rest) := readDigits isDigit s
        (c :: ds, rest)
    else ([], c :: s)

def numberOf (base : Nat) (digits : Text) : Nat :=
  digits.foldl (fun n c => base * n + (Json.hexDigit? c).getD 0) 0

/-- The digits of an integer after the mark of its base. -/
def readBased (base : Nat) (isDigit : Char → Bool) (s : Text) : Option (Value × Text) :=
  match readDigits isDigit s with
  | ([], _) => none
  | (ds, rest) => some (.int (numberOf base ds), rest)

/-- The digits after a point, if a point and a digit follow. -/
def readFraction : Text → Option (Text × Text)
  | '.' :: s =>
    match readDigits Char.isDigit s with
    | ([], _) => none
    | parts => some parts
  | _ => none

/-- An exponent, if one follows. -/
def readExponent : Text → Option (Int × Text)
  | [] => none
  | c :: s =>
    if c == 'e' || c == 'E' then
      let (negative, s) :=
        match s with
        | '-' :: s => (true, s)
        | '+' :: s => (false, s)
        | s => (false, s)
      match readDigits Char.isDigit s with
      | ([], _) => none
      | (ds, rest) => some (if negative then -(numberOf 10 ds : Int) else numberOf 10 ds, rest)
    else none

/-- A decimal number without its sign: an integer, or with a fraction or an exponent a floating
point number. -/
def readDecimal (negative : Bool) (s : Text) : Reading (Value × Text) := do
  let (whole, s) :=
    match s with
    | '0' :: s => (['0'], s)
    | s => readDigits Char.isDigit s
  if whole.isEmpty then .error .malformed
  let fraction := readFraction s
  let s := (fraction.map (·.2)).getD s
  let exponent := readExponent s
  let s := (exponent.map (·.2)).getD s
  if fraction.isSome || exponent.isSome then
    let ds := (fraction.map (·.1)).getD []
    let e := (exponent.map (·.1)).getD 0 - ds.length
    return (.float (.ofDecimal negative (numberOf 10 (whole ++ ds)) e), s)
  else return (.int (← integerOf negative whole), s)

/-- The constants, by name. -/
def constants : List (Text × Value) :=
  [("true".toList, .bool true), ("false".toList, .bool false)]

/-- The numbers that are not finite, by name, after their sign. -/
def notFinite (negative : Bool) : List (Text × Value) :=
  [("inf".toList, .float (.infinite negative)), ("nan".toList, .float .nan)]

def readNamed (names : List (Text × Value)) (s : Text) : Option (Value × Text) :=
  names.findSome? fun (name, v) => (after? name s).map fun rest => (v, rest)

def readNumber (s : Text) : Reading (Value × Text) :=
  match s with
  | '0' :: 'x' :: s => readBased 16 (fun c => (Json.hexDigit? c).isSome) s
  | '0' :: 'o' :: s => readBased 8 (fun c => '0' ≤ c && c ≤ '7') s
  | '0' :: 'b' :: s => readBased 2 (fun c => c == '0' || c == '1') s
  | s =>
    let (negative, s) :=
      match s with
      | '-' :: s => (true, s)
      | '+' :: s => (false, s)
      | s => (false, s)
    match readNamed (notFinite negative) s with
    | some found => .ok found
    | none => readDecimal negative s

/-! ## Dates and times -/

/-- A number of so many digits, and the rest. -/
def readFixed (width : Nat) (s : Text) : Option (Nat × Text) :=
  let digits := s.take width
  if digits.length = width && digits.all Char.isDigit then
    some (Json.decimalNumber digits, s.drop width)
  else none

/-- A number of two digits between two bounds, and the rest. -/
def readBetween (least greatest : Nat) (s : Text) : Option (Nat × Text) :=
  (readFixed 2 s).filter fun (n, _) => least ≤ n && n ≤ greatest

/-- A fraction of a second in millionths, of which no more digits count. -/
def readMicro (s : Text) : Nat × Text :=
  match readFraction s with
  | none => (0, s)
  | some _ =>
    let digits := (s.drop 1).takeWhile Char.isDigit
    (Json.decimalNumber ((digits ++ List.replicate 6 '0').take 6), s.drop (digits.length + 1))

def readClock (s : Text) : Option (Clock × Text) := do
  let (hour, s) ← readBetween 0 23 s
  let (minute, s) ← readBetween 0 59 (← after? [':'] s)
  let (second, s) ← readBetween 0 59 (← after? [':'] s)
  let (micro, s) := readMicro s
  return (⟨hour, minute, second, micro⟩, s)

def readDate (s : Text) : Option (Date × Text) := do
  let (year, s) ← readFixed 4 s
  let (month, s) ← readBetween 1 12 (← after? ['-'] s)
  let (day, s) ← readBetween 1 31 (← after? ['-'] s)
  return (⟨year, month, day⟩, s)

/-- An offset from universal time in minutes, if one follows. -/
def readOffset (s : Text) : Option (Int × Text) :=
  match s with
  | 'Z' :: rest | 'z' :: rest => some (0, rest)
  | sign :: rest => do
    let (hours, rest) ← if sign == '+' || sign == '-' then readBetween 0 23 rest else none
    let (minutes, rest) ← readBetween 0 59 (← after? [':'] rest)
    let n : Int := 60 * hours + minutes
    return (if sign == '-' then -n else n, rest)
  | [] => none

/-- A time after a date, if one follows. -/
def readTimeOfDate (s : Text) : Option (Clock × Text) :=
  match s with
  | c :: rest => if c == 'T' || c == 't' || c == ' ' then readClock rest else none
  | [] => none

/-- A date, a time or both, if one stands here. -/
def readMoment (s : Text) : Option (Moment × Text) :=
  match readDate s with
  | some (date, rest) =>
    match readTimeOfDate rest with
    | some (clock, rest) =>
      let offset := readOffset rest
      some (.dateTime date clock (offset.map (·.1)), (offset.map (·.2)).getD rest)
    | none => some (.date date, rest)
  | none => (readClock s).map fun (clock, rest) => (.time clock, rest)

/-! ## Tables -/

/-- Why a table cannot be changed: it was opened by its name, or it was written inline. -/
inductive Closing where
  | opened
  | inlined
  deriving DecidableEq

/-- A closed key. What was written inline is closed with all below it. -/
structure Closed where
  key : List String
  why : Closing
  deriving DecidableEq

def isClosed (closed : List Closed) (why : Closing) (key : List String) : Bool :=
  closed.any fun c => c.why = why && (c.key = key || (why = .inlined && c.key.isPrefixOf key))

/-- Changes the table at a key. Tables on the way that are not there are added, and of an array of
tables the last one counts. -/
def changeTable (change : Entries → Option Entries) : List String → Entries → Option Entries
  | [], table => change table
  | k :: key, table =>
    match table.get? k with
    | none => (changeTable change key []).map fun sub => table.set (.str k) (.map sub)
    | some (.map sub) => (changeTable change key sub).map fun sub => table.set (.str k) (.map sub)
    | some (.list items) =>
      match items.getLast? with
      | some (.map sub) =>
        (changeTable change key sub).map fun sub =>
          table.set (.str k) (.list (items.dropLast ++ [.map sub]))
      | _ => none
    | some _ => none

/-- Sets a key that the table does not have. -/
def insert (k : String) (v : Value) (table : Entries) : Option Entries :=
  if table.contains k then none else some (table.set (.str k) v)

/-- Adds an empty table to an array of tables. -/
def appendTable (k : String) (table : Entries) : Option Entries :=
  match table.get? k with
  | none => some (table.set (.str k) (.list [.map []]))
  | some (.list items) => some (table.set (.str k) (.list (items ++ [.map []])))
  | some _ => none

/-! ## Values -/

/-- How deep values may be nested. An array counts two, and an inline table three. -/
def depthBound : Nat := 970

mutual

/-- A value that may be nested `room` deep. Each step down uses up a character, so `fuel` of twice
the length is enough. -/
def readValue : (fuel room : Nat) → Text → Reading (Value × Text)
  | 0, _, _ => .error .malformed
  | fuel + 1, room, s =>
    match s with
    | '"' :: _ | '\'' :: _ => do
      let (t, rest) ← readString s
      return (.str t, rest)
    | '[' :: s => do
      if room < 2 then .error (.fault .tooDeep)
      let s ← skipLines (s.length + 1) s
      let (items, rest) ← readItems fuel (room - 2) s
      return (.list items, rest)
    | '{' :: s => do
      if room < 3 then .error (.fault .tooDeep)
      match skip s with
      | '}' :: rest => return (.map [], rest)
      | s =>
        let (table, rest) ← readInline fuel (room - 3) [] [] s
        return (.map table, rest)
    | s =>
      match readNamed constants s, readMoment s with
      | some found, _ => .ok found
      | none, some (m, rest) => if m.fault?.isSome then .error .malformed else .ok (.moment m, rest)
      | none, none => readNumber s

/-- The items of an array up to its end. A comma may follow the last one. -/
def readItems : (fuel room : Nat) → Text → Reading (List Value × Text)
  | 0, _, _ => .error .malformed
  | fuel + 1, room, s =>
    match s with
    | ']' :: rest => .ok ([], rest)
    | s => do
      let (v, s) ← readValue fuel room s
      match ← skipLines (s.length + 1) s with
      | ']' :: rest => return ([v], rest)
      | ',' :: s =>
        let (items, rest) ← readItems fuel room (← skipLines (s.length + 1) s)
        return (v :: items, rest)
      | _ => .error .malformed

/-- The entries of an inline table up to its end. -/
def readInline : (fuel room : Nat) → Entries → List Closed → Text → Reading (Entries × Text)
  | 0, _, _, _, _ => .error .malformed
  | fuel + 1, room, table, closed, s => do
    let (key, v, s) ← readPair fuel room s
    if isClosed closed .inlined key then .error .malformed
    let table ← changeTable (insert (key.getLast?.getD "") v) key.dropLast table
    let closed := closeValue closed key v
    match skip s with
    | '}' :: rest => return (table, rest)
    | ',' :: s => readInline fuel room table closed (skip s)
    | _ => .error .malformed

/-- A key with its value, and the rest. -/
def readPair : (fuel room : Nat) → Text → Reading (List String × Value × Text)
  | 0, _, _ => .error .malformed
  | fuel + 1, room, s => do
    let (key, s) ← readKey (s.length + 1) s
    let s ← after? ['='] s
    let (v, rest) ← readValue fuel room (skip s)
    return (key, v, rest)

/-- The closed keys after a value was set: an array or a table stays as it was written. -/
def closeValue (closed : List Closed) (key : List String) : Value → List Closed
  | .list _ | .map _ => ⟨key, .inlined⟩ :: closed
  | _ => closed

end

/-! ## Documents -/

/-- A document as far as it was read: its table, the closed keys, those to be closed at the next
header, and the key of the header that is open. -/
structure Document where
  table : Entries
  closed : List Closed
  pending : List Closed
  header : List String

def Document.empty : Document := ⟨[], [], [], []⟩

/-- Sets a key below the open header. The tables that a dotted key goes through are closed at the
next header, and may not be ones that were opened by name. -/
def Document.setKey (d : Document) (key : List String) (v : Value) : Option Document := do
  let through := (List.range (key.length - 1)).map fun n => d.header ++ key.take (n + 1)
  let parent := d.header ++ key.dropLast
  if through.any (isClosed d.closed .opened) then none
  else if isClosed d.closed .inlined parent then none
  else
    let table ← changeTable (insert (key.getLast?.getD "") v) parent d.table
    return { d with
      table := table
      closed := closeValue d.closed (d.header ++ key) v
      pending := through.map (⟨·, .opened⟩) ++ d.pending }

/-- Closes the tables that dotted keys went through. -/
def Document.settle (d : Document) : Document :=
  { d with closed := d.pending ++ d.closed, pending := [] }

/-- Opens a table by its name. -/
def Document.openTable (d : Document) (key : List String) : Option Document :=
  if isClosed d.closed .opened key || isClosed d.closed .inlined key then none
  else
    (changeTable some key d.table).map fun table =>
      { d with table := table, closed := ⟨key, .opened⟩ :: d.closed, header := key }

/-- Opens the next table of an array of tables. -/
def Document.openItem (d : Document) (key : List String) : Option Document :=
  if isClosed d.closed .inlined key then none
  else
    (changeTable (appendTable (key.getLast?.getD "")) key.dropLast d.table).map fun table =>
      { d with
        table := table
        closed := ⟨key, .opened⟩ :: d.closed.filter fun c => !key.isPrefixOf c.key
        header := key }

/-- A statement that starts with a bracket, and the rest. -/
def readHeader (d : Document) (s : Text) : Option (Document × Text) :=
  match s with
  | '[' :: '[' :: s => do
    let (key, s) ← readKey (s.length + 1) (skip s)
    let rest ← after? [']', ']'] s
    return (← d.settle.openItem key, rest)
  | '[' :: s => do
    let (key, s) ← readKey (s.length + 1) (skip s)
    let rest ← after? [']'] s
    return (← d.settle.openTable key, rest)
  | _ => none

def isKeyStart (c : Char) : Bool := isBareKeyChar c || isQuote c

/-- The statement at the start of a line, which may be empty, and the rest. -/
def readStatement (d : Document) (s : Text) : Reading (Document × Text) :=
  match s with
  | '[' :: _ => readHeader d s
  | c :: _ =>
    if isKeyStart c then do
      let (key, v, rest) ← readPair (2 * s.length + 2) depthBound s
      return (← d.setKey key v, rest)
    else if c = '#' || c = '\n' then .ok (d, s)
    else .error .malformed
  | [] => .ok (d, [])

/-- The statements of the lines that are left. -/
def readLines : (fuel : Nat) → Document → Text → Reading Document
  | 0, _, _ => .error .malformed
  | fuel + 1, d, s => do
    let (d, rest) ← readStatement d (skip s)
    match ← skipComment (skip rest) with
    | [] => return d
    | '\n' :: rest => readLines fuel d rest
    | _ => .error .malformed

/-- The value of a TOML text. -/
def parse (s : Text) : Reading Value := do
  return .map (← readLines (s.length + 1) .empty s).table

end TwigLayout.Toml
