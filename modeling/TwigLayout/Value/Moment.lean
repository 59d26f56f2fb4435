/-!
# Dates and times

A date of the calendar, a time of day, or both, which then may be so many minutes ahead of universal
time.
-/

namespace TwigLayout

structure Date where
  year : Nat
  month : Nat
  day : Nat
  deriving DecidableEq, Repr

/-- A time of day. Fractions of a second are counted in millionths. -/
structure Clock where
  hour : Nat
  minute : Nat
  second : Nat
  micro : Nat
  deriving DecidableEq, Repr

inductive Moment where
  | date (date : Date)
  | time (clock : Clock)
  /-- A date and a time. The offset from universal time is in minutes. -/
  | dateTime (date : Date) (clock : Clock) (offset : Option Int)
  deriving DecidableEq, Repr

/-! ## The calendar -/

def isLeap (year : Nat) : Bool := year % 4 = 0 && (year % 100 != 0 || year % 400 = 0)

def daysIn (year month : Nat) : Nat :=
  if month = 2 then if isLeap year then 29 else 28
  else if month = 4 || month = 6 || month = 9 || month = 11 then 30
  else 31

/-- What makes a date none of the calendar, if anything does. -/
def Date.fault? (d : Date) : Option String :=
  if d.year = 0 then some "year 0 is out of range"
  else if d.month = 0 || 12 < d.month then some "month must be in 1..12"
  else if d.day = 0 || daysIn d.year d.month < d.day then some "day is out of range for month"
  else none

/-- What makes a time none of a day, if anything does. -/
def Clock.fault? (c : Clock) : Option String :=
  if 23 < c.hour then some "hour must be in 0..23"
  else if 59 < c.minute then some "minute must be in 0..59"
  else if 59 < c.second then some "second must be in 0..59"
  else none

/-- The minutes of a day. -/
def dayLength : Int := 1440

/-- The wording of a span of time, as whole days and the seconds after them. -/
def spanText (minutes : Int) : String :=
  let days := minutes.fdiv dayLength
  let seconds := 60 * minutes.fmod dayLength
  let parts := (if days = 0 then [] else [s!"days={days}"]) ++
    (if seconds = 0 then [] else [s!"seconds={seconds}"])
  "datetime.timedelta(" ++ ", ".intercalate parts ++ ")"

/-- What makes an offset none, if anything does: it is shorter than a day. -/
def offsetFault? (minutes : Int) : Option String :=
  if minutes.natAbs < dayLength.natAbs then none
  else some ("offset must be a timedelta strictly between -timedelta(hours=24) and " ++
    s!"timedelta(hours=24), not {spanText minutes}.")

/-- The first part of a moment that there is none of. -/
def Moment.fault? : Moment → Option String
  | .date d => d.fault?
  | .time c => c.fault?
  | .dateTime d c offset => (offset.bind offsetFault?) <|> d.fault? <|> c.fault?

/-! ## Equality -/

/-- The days of the calendar up to a date. -/
def Date.days (d : Date) : Nat :=
  let years := d.year - 1
  let months := (List.range (d.month - 1)).foldl (fun n m => n + daysIn d.year (m + 1)) 0
  365 * years + years / 4 - years / 100 + years / 400 + months + d.day

/-- The moment that stands for all equal to a moment. With an offset only the time counts that has
passed since the calendar began, wherever it is read off. -/
def Moment.keyForm : Moment → Moment
  | .dateTime d c (some offset) =>
    let minutes := dayLength * d.days + 60 * c.hour + c.minute - offset
    .dateTime ⟨0, 0, 0⟩ ⟨0, minutes.toNat, c.second, c.micro⟩ (some 0)
  | m => m

/-! ## Text -/

/-- A number with zeros before it up to a width. -/
def padded (width n : Nat) : String :=
  let digits := Nat.toDigits 10 n
  String.ofList (List.replicate (width - digits.length) '0' ++ digits)

def Date.text (d : Date) : String := s!"{padded 4 d.year}-{padded 2 d.month}-{padded 2 d.day}"

def Clock.text (c : Clock) : String :=
  s!"{padded 2 c.hour}:{padded 2 c.minute}:{padded 2 c.second}" ++
    if c.micro = 0 then "" else s!".{padded 6 c.micro}"

def offsetText (minutes : Int) : String :=
  (if minutes < 0 then "-" else "+") ++
    s!"{padded 2 (minutes.natAbs / 60)}:{padded 2 (minutes.natAbs % 60)}"

def Moment.text : Moment → String
  | .date d => d.text
  | .time c => c.text
  | .dateTime d c offset => s!"{d.text} {c.text}" ++ (offset.map offsetText).getD ""

/-- The name of a moment's type. -/
def Moment.typeName : Moment → String
  | .date _ => "date"
  | .time _ => "time"
  | .dateTime .. => "datetime"

end TwigLayout
