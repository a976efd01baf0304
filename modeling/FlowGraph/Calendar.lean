import FlowGraph.Number.Layout

/-!
Calendar days and moments of the proleptic Gregorian calendar, years 1 to 9999. A moment may know
its distance from universal time, in minutes, less than a day either way. Two moments that know it
are the same when they name the same instant.
-/
namespace FlowGraph

inductive CalendarFault
  | year (year : Nat)
  | month
  | day
  | hour
  | minute
  | second
  | offset (minutes : Int)
  deriving DecidableEq, Repr

structure Date where
  year : Nat
  month : Nat
  day : Nat
  deriving DecidableEq, Repr

structure Moment where
  date : Date
  hour : Nat
  minute : Nat
  second : Nat
  microsecond : Nat
  offset : Option Int
  deriving DecidableEq, Repr

namespace Date

def isLeapYear (year : Nat) : Bool :=
  year % 4 == 0 && (year % 100 != 0 || year % 400 == 0)

def monthLength (year month : Nat) : Nat :=
  if month == 2 then (if isLeapYear year then 29 else 28)
  else if month == 4 || month == 6 || month == 9 || month == 11 then 30
  else 31

def check (year month day : Nat) : Except CalendarFault Date :=
  if year < 1 || year > 9999 then .error (.year year)
  else if month < 1 || month > 12 then .error .month
  else if day < 1 || day > monthLength year month then .error .day
  else .ok ⟨year, month, day⟩

/-- Days since the first of January of year one. -/
def dayNumber (d : Date) : Nat :=
  let past := d.year - 1
  let months := (List.range (d.month - 1)).map fun m => monthLength d.year (m + 1)
  past * 365 + past / 4 - past / 100 + past / 400 + months.foldl (· + ·) 0 + (d.day - 1)

/-- Year, month and day with dashes. -/
def text (d : Date) : String :=
  Number.padLeft 4 (toString d.year) ++ "-" ++ Number.padLeft 2 (toString d.month) ++ "-" ++
    Number.padLeft 2 (toString d.day)

def literal (d : Date) : String :=
  s!"datetime.date({d.year}, {d.month}, {d.day})"

end Date

/-- A length of time in whole days and the seconds left over, which are never negative. -/
def durationLiteral (minutes : Int) : String :=
  let days := Int.fdiv minutes 1440
  let seconds := Int.fmod minutes 1440 * 60
  if days == 0 && seconds == 0 then "datetime.timedelta(0)"
  else if seconds == 0 then s!"datetime.timedelta(days={days})"
  else if days == 0 then s!"datetime.timedelta(seconds={seconds})"
  else s!"datetime.timedelta(days={days}, seconds={seconds})"

def CalendarFault.message : CalendarFault → String
  | .year y => s!"year {y} is out of range"
  | .month => "month must be in 1..12"
  | .day => "day is out of range for month"
  | .hour => "hour must be in 0..23"
  | .minute => "minute must be in 0..59"
  | .second => "second must be in 0..59"
  | .offset minutes =>
    "offset must be a timedelta strictly between " ++
      "-timedelta(hours=24) and timedelta(hours=24), not " ++ durationLiteral minutes ++ "."

namespace Moment

def checkOffset : Option Int → Except CalendarFault Unit
  | none => .ok ()
  | some minutes => if minutes.natAbs < 1440 then .ok () else .error (.offset minutes)

/-- The offset is judged first, then the day, then the time from the hour down. -/
def check (year month day hour minute second microsecond : Nat) (offset : Option Int) :
    Except CalendarFault Moment := do
  checkOffset offset
  let date ← Date.check year month day
  if hour > 23 then .error .hour
  else if minute > 59 then .error .minute
  else if second > 59 then .error .second
  else .ok ⟨date, hour, minute, second, microsecond, offset⟩

/-- Microseconds since the start of year one, by the moment's own clock. -/
def clock (m : Moment) : Int :=
  (((m.date.dayNumber * 24 + m.hour) * 60 + m.minute) * 60 + m.second) * 1000000 + m.microsecond

def same (a b : Moment) : Bool :=
  match a.offset, b.offset with
  | none, none => a.clock == b.clock
  | some x, some y => a.clock - x * 60000000 == b.clock - y * 60000000
  | _, _ => false

def offsetText (minutes : Int) : String :=
  let sign := if minutes < 0 then "-" else "+"
  sign ++ Number.padLeft 2 (toString (minutes.natAbs / 60)) ++ ":" ++
    Number.padLeft 2 (toString (minutes.natAbs % 60))

def timeText (m : Moment) : String :=
  let fraction :=
    if m.microsecond == 0 then "" else "." ++ Number.padLeft 6 (toString m.microsecond)
  let offset := match m.offset with
    | none => ""
    | some minutes => offsetText minutes
  Number.padLeft 2 (toString m.hour) ++ ":" ++ Number.padLeft 2 (toString m.minute) ++ ":" ++
    Number.padLeft 2 (toString m.second) ++ fraction ++ offset

/-- Day and time, with the given character between them. -/
def text (separator : Char) (m : Moment) : String :=
  m.date.text ++ String.singleton separator ++ m.timeText

/-- Trailing zero parts of the time are left out, but hour and minute always stand. -/
def literal (m : Moment) : String :=
  let seconds :=
    if m.microsecond != 0 then s!", {m.second}, {m.microsecond}"
    else if m.second != 0 then s!", {m.second}"
    else ""
  let zone := match m.offset with
    | none => ""
    | some 0 => ", tzinfo=datetime.timezone.utc"
    | some minutes => ", tzinfo=datetime.timezone(" ++ durationLiteral minutes ++ ")"
  s!"datetime.datetime({m.date.year}, {m.date.month}, {m.date.day}, {m.hour}, {m.minute}" ++
    seconds ++ zone ++ ")"

end Moment

end FlowGraph
