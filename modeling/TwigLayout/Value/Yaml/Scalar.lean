import TwigLayout.Text.Case
import TwigLayout.Text.Scan
import TwigLayout.Value.Base64
import TwigLayout.Value.Json

/-!
# YAML scalars

A tag tells what a node stands for. A plain scalar without one gets it from its form under the rules
of YAML 1.1: null, a truth value, an integer in one of five notations, a floating point number in
one of four, a date or time, one of two signs, or else a text. The text of a scalar is read under
its tag, whether the tag was given or found. A tag that was given reads more forms than those which
plain scalars have: digits of any script, and white space around a number.
-/

namespace TwigLayout.Yaml

open Text

/-- What a node stands for. -/
inductive Tag where
  | null
  | bool
  | int
  | float
  | time
  | str
  | binary
  | seq
  | map
  | set
  /-- A sequence of mappings of one entry each, which become pairs. -/
  | pairs
  /-- The sign for a key whose entries belong to the mapping around it. -/
  | merge
  /-- The sign for the key of a mapping's own value. -/
  | default
  | unknown
  deriving DecidableEq, Repr

/-- The tags by name, after what all of the names start with. -/
def Tag.names : List (String × Tag) :=
  [("null", .null), ("bool", .bool), ("int", .int), ("float", .float), ("timestamp", .time),
    ("str", .str), ("binary", .binary), ("seq", .seq), ("map", .map), ("set", .set),
    ("omap", .pairs), ("pairs", .pairs), ("merge", .merge), ("value", .default)]

/-- What the names of all tags but one's own start with. -/
def Tag.space : Text := "tag:yaml.org,2002:".toList

def Tag.ofName (name : Text) : Tag :=
  ((after? Tag.space name).bind fun s => Tag.names.lookup (String.ofList s)).getD .unknown

/-! ## Forms of plain scalars -/

def isDigitOrBar (c : Char) : Bool := c.isDigit || c == '_'

/-- Removes the bars that may stand between digits. -/
def withoutBars (s : Text) : Text := s.filter (· != '_')

/-- A sign, if there is one, and the rest. -/
def readSign : Text → Bool × Text
  | '-' :: s => (true, s)
  | '+' :: s => (false, s)
  | s => (false, s)

/-- Digits that bars may stand between. -/
def isDigits : Text → Bool
  | [] => false
  | c :: s => c.isDigit && s.all isDigitOrBar

/-- A part of a number to the base 60 after the first: one or two digits below 60. -/
def isSixtieth : Text → Bool
  | [a] => a.isDigit
  | [a, b] => '0' ≤ a && a ≤ '5' && b.isDigit
  | _ => false

/-- The parts of a number to the base 60, of which there are at least two. -/
def isSexagesimal (s : Text) : Bool :=
  match splitOn [':'] s with
  | first :: second :: rest => isDigits first && (second :: rest).all isSixtieth
  | _ => false

/-- The form of an integer: binary, hexadecimal, octal, decimal or to the base 60. -/
def isInteger (s : Text) : Bool :=
  match (readSign s).2 with
  | '0' :: 'b' :: ds => !ds.isEmpty && ds.all fun c => c == '0' || c == '1' || c == '_'
  | '0' :: 'x' :: ds => !ds.isEmpty && ds.all fun c => (Json.hexDigit? c).isSome || c == '_'
  | '0' :: ds => ds.all fun c => ('0' ≤ c && c ≤ '7') || c == '_'
  | s => isDigits s || isSexagesimal s

/-- The exponent of a floating point number, which needs its sign, or nothing at all. -/
def isExponent : Text → Bool
  | [] => true
  | e :: sign :: ds =>
    (e == 'e' || e == 'E') && (sign == '-' || sign == '+') && !ds.isEmpty && ds.all Char.isDigit
  | _ => false

def infinities : List Text := [".inf".toList, ".Inf".toList, ".INF".toList]

def nans : List Text := [".nan".toList, ".NaN".toList, ".NAN".toList]

/-- The form of a floating point number. One that starts with its point takes no sign and has a
digit after it, and the last part of one to the base 60 has a point at its end or before more
digits. -/
def isFloat (s : Text) : Bool :=
  let body := (readSign s).2
  let whole := body.takeWhile (· != '.')
  match body.dropWhile (· != '.') with
  | [] => false
  | _ :: fraction =>
    let digits := fraction.takeWhile isDigitOrBar
    let rest := fraction.dropWhile isDigitOrBar
    infinities.contains body || nans.contains s ||
      (isDigits whole && isExponent rest) ||
      (whole.isEmpty && body.length = s.length && isDigits digits && isExponent rest) ||
      (isSexagesimal whole && rest.isEmpty)

/-! ## Dates and times -/

/-- A space or a tab, which may stand between the parts. -/
def isGap (c : Char) : Bool := c == ' ' || c == '\t'

/-- From one to two digits, and the rest. -/
def readTwo : Text → Option (Nat × Text)
  | a :: b :: s =>
    if a.isDigit && b.isDigit then some (Json.decimalNumber [a, b], s)
    else if a.isDigit then some (Json.decimalNumber [a], b :: s)
    else none
  | [a] => if a.isDigit then some (Json.decimalNumber [a], []) else none
  | [] => none

/-- Exactly two digits, and the rest. -/
def readBoth : Text → Option (Nat × Text)
  | a :: b :: s =>
    if a.isDigit && b.isDigit then some (Json.decimalNumber [a, b], s) else none
  | _ => none

/-- An offset from universal time in minutes. -/
def readOffset (s : Text) : Option Int :=
  match s with
  | ['Z'] => some 0
  | sign :: s =>
    let minutes? : Option Int :=
      match readTwo s with
      | some (hours, []) => some (60 * hours)
      | some (hours, ':' :: rest) =>
        (readBoth rest).bind fun (minutes, rest) =>
          if rest.isEmpty then some (60 * hours + minutes) else none
      | _ => none
    if sign == '+' then minutes? else if sign == '-' then minutes?.map (-·) else none
  | [] => none

/-- The millionths of a second that a fraction starts with. -/
def microOf (digits : Text) : Nat :=
  Json.decimalNumber ((digits ++ List.replicate 6 '0').take 6)

/-- A time of day with hours, minutes and seconds, and maybe a fraction and an offset. -/
def readClock (s : Text) : Option (Clock × Option Int) := do
  let (hour, s) ← readTwo s
  let (minute, s) ← readBoth (← after? [':'] s)
  let (second, s) ← readBoth (← after? [':'] s)
  let (micro, s) :=
    match after? ['.'] s with
    | some s => (microOf (s.takeWhile Char.isDigit), s.dropWhile Char.isDigit)
    | none => (0, s)
  let clock : Clock := ⟨hour, minute, second, micro⟩
  if s.isEmpty then some (clock, none)
  else (readOffset (s.dropWhile isGap)).map fun offset => (clock, some offset)

/-- A text without the line feed at its end. -/
def withoutLastBreak (s : Text) : Text := if s.getLast? = some '\n' then s.dropLast else s

/-- The form of a date, or of a date and a time. -/
def readMoment (s : Text) : Option Moment := do
  let digits := s.take 4
  if !(digits.length = 4 && digits.all Char.isDigit) then none
  let (month, rest) ← readTwo (← after? ['-'] (s.drop 4))
  let (day, rest) ← readTwo (← after? ['-'] rest)
  let date : Date := ⟨Json.decimalNumber digits, month, day⟩
  let both := fun (clock, offset) => Moment.dateTime date clock offset
  match rest with
  | [] => some (.date date)
  | c :: rest =>
    if c == 'T' || c == 't' then (readClock rest).map both
    else if isGap c then (readClock (rest.dropWhile isGap)).map both
    else none

/-- The form of a plain scalar that is a date or a time. A date that stands alone has two digits for
month and day. -/
def isMoment (s : Text) : Bool :=
  match readMoment s with
  | some (.date _) => s.length = 10
  | m => m.isSome

/-- The date or time of a text, which has to be one that there is. A line feed may follow. -/
def momentOf (s : Text) : Reading Moment :=
  match readMoment (withoutLastBreak s) with
  | none => .error (.fault (.notRecord "'NoneType' object has no attribute 'groupdict'"))
  | some m =>
    match m.fault? with
    | some reason => .error (.fault (.notDate reason))
    | none => .ok m

/-! ## Tags of plain scalars -/

def nulls : List Text := [[], ['~'], "null".toList, "Null".toList, "NULL".toList]

def trues : List Text :=
  ["yes".toList, "Yes".toList, "YES".toList, "true".toList, "True".toList, "TRUE".toList,
    "on".toList, "On".toList, "ON".toList]

def falses : List Text :=
  ["no".toList, "No".toList, "NO".toList, "false".toList, "False".toList, "FALSE".toList,
    "off".toList, "Off".toList, "OFF".toList]

/-- The tag that the form of a plain scalar gives it. A line feed behind the form does not count. -/
def Tag.ofPlain (s : Text) : Tag :=
  let s := if s = ['\n'] then s else withoutLastBreak s
  if nulls.contains s then .null
  else if trues.contains s || falses.contains s then .bool
  else if isFloat s then .float
  else if isInteger s then .int
  else if isMoment s then .time
  else if s = ['<', '<'] then .merge
  else if s = ['='] then .default
  else .str

/-! ## Values -/

/-- The truth value of a word in any case. -/
def readBool (s : Text) : Reading Bool :=
  if (trues.map lower).contains (lower s) then .ok true
  else if (falses.map lower).contains (lower s) then .ok false
  else .error (.fault (.noKey (String.ofList (quoted (lower s)))))

/-- The mark that may stand before the digits of an integer to a base. -/
def baseMark : Nat → Text
  | 2 => ['0', 'b']
  | 8 => ['0', 'o']
  | 16 => ['0', 'x']
  | _ => []

/-- A text with its digits of any script written in ASCII. -/
def plainDigits (s : Text) : Text :=
  s.map fun c => ((decimalValue? c).map Nat.digitChar).getD c

/-- The value of a digit to a base. -/
def digit? (base : Nat) (c : Char) : Option Nat := (Json.hexDigit? c).filter (· < base)

/-- The integer to a base that a text stands for. White space around it does not count. -/
def readBased (base : Nat) (s : Text) : Reading Int := do
  let (negative, body) := readSign (plainDigits (trim s))
  let marked := after? (baseMark base) (body.map Char.toLower)
  let digits := if base = 10 then body else marked.getD body
  if digits.isEmpty || digits.any fun c => (digit? base c).isNone then
    .error (.fault (.notInteger base (String.ofList s)))
  else if base = 10 then integerOf negative digits
  else
    let n : Int := digits.foldl (fun n c => base * n + (digit? base c).getD 0) 0
    return if negative then -n else n

/-- The first character asked of a text without any. -/
def noCharacter : Unread := .fault (.noItem "string index out of range")

/-- The number of parts to the base 60. -/
def sexagesimal (parts : List Int) : Int := parts.foldl (fun n part => 60 * n + part) 0

/-- The integer that a text stands for after its sign, with no bars in it. -/
def readUnsigned (s : Text) : Reading Int :=
  match s with
  | [] => .error noCharacter
  | ['0'] => .ok 0
  | '0' :: 'b' :: ds => readBased 2 ds
  | '0' :: 'x' :: ds => readBased 16 ds
  | '0' :: _ => readBased 8 s
  | s =>
    if s.contains ':' then do return sexagesimal (← (splitOn [':'] s).mapM (readBased 10))
    else readBased 10 s

def readInteger (s : Text) : Reading Int := do
  let s := withoutBars s
  if s.isEmpty then .error noCharacter
  let (negative, s) := readSign s
  let n ← readUnsigned s
  return if negative then -n else n

/-- A decimal without its sign: digits with a point among them or none, and maybe an exponent. -/
def readDecimal (negative : Bool) (s : Text) : Option Double := do
  let whole := s.takeWhile Char.isDigit
  let rest := s.dropWhile Char.isDigit
  let (fraction, rest) :=
    match rest with
    | '.' :: rest => (rest.takeWhile Char.isDigit, rest.dropWhile Char.isDigit)
    | rest => ([], rest)
  if whole.isEmpty && fraction.isEmpty then none
  let (e, rest) := (Json.readExponent rest).getD (0, rest)
  if rest.isEmpty then
    some (.ofDecimal negative (Json.decimalNumber (whole ++ fraction)) (e - fraction.length))
  else none

/-- The floating point number that a text in small letters stands for. White space around it does
not count. -/
def readFloatWord (s : Text) : Reading Double :=
  let (negative, body) := readSign (plainDigits (trim s))
  if body = "inf".toList || body = "infinity".toList then .ok (.infinite negative)
  else if body = "nan".toList then .ok .nan
  else
    match readDecimal negative body with
    | some x => .ok x
    | none => .error (.fault (.notFloat (String.ofList s)))

/-- The sum of parts, the last of which counts as it is, and each other one 60 times as much as the
one after it. -/
def sexagesimalFloat (parts : List Double) : Double :=
  (parts.reverse.foldl (fun (sum, base) part => (Double.add sum (part.scaled base), 60 * base))
    (.ofDecimal false 0 0, 1)).1

/-- The floating point number that a text stands for after its sign, in small letters and with no
bars in it. -/
def readUnsignedFloat (s : Text) : Reading Double :=
  if s = ".inf".toList then .ok (.infinite false)
  else if s = ".nan".toList then .ok .nan
  else if s.contains ':' then do
    return sexagesimalFloat (← (splitOn [':'] s).mapM readFloatWord)
  else readFloatWord s

def readFloat (s : Text) : Reading Double := do
  let s := lower (withoutBars s)
  if s.isEmpty then .error noCharacter
  let (negative, s) := readSign s
  let x ← readUnsignedFloat s
  return if negative then x.negate else x

/-- The value of the text of a scalar under a tag. -/
def Tag.read (tag : Tag) (s : Text) : Reading Value :=
  match tag with
  | .null => .ok .null
  | .bool => do return .bool (← readBool s)
  | .int => do return .int (← readInteger s)
  | .float => do return .float (← readFloat s)
  | .time => do return .moment (← momentOf s)
  | .str => .ok (.str (String.ofList s))
  | .binary => do return .bytes (← Base64.decode s)
  | .seq | .map | .set | .pairs | .merge | .default | .unknown => .error .malformed

/-- Whether the nodes of a tag have parts. -/
def Tag.isCollection (tag : Tag) : Bool :=
  tag = .seq || tag = .map || tag = .set || tag = .pairs

/-- Whether a tag can be read at all. -/
def Tag.isReadable (tag : Tag) : Bool :=
  !(tag = .merge || tag = .default || tag = .unknown)

end TwigLayout.Yaml
