import Mustache.Duration

/-! # Days and times of day

A day of the calendar, perhaps with a time of day, which may say how far its clock is ahead of universal
time. `Moment.check` refuses what no calendar or clock shows.
-/
namespace Mustache

structure Zone where
  name : String
  ahead : Duration
  deriving DecidableEq, Repr

structure Clock where
  hour : Nat
  minute : Nat
  second : Nat
  microsecond : Nat
  zone : Option Zone
  deriving DecidableEq, Repr

/-- A day, perhaps with a time of day. -/
structure Moment where
  year : Nat
  month : Nat
  day : Nat
  clock : Option Clock
  deriving DecidableEq, Repr

inductive MomentError where
  | year (n : Nat)
  | month
  | day
  | hour
  | minute
  | second
  /-- A clock is less than a day ahead or behind. -/
  | zone (ahead : Duration)
  | outOfRange
  deriving DecidableEq, Repr

def MomentError.message : MomentError → String
  | year n => "year " ++ toString n ++ " is out of range"
  | month => "month must be in 1..12"
  | day => "day is out of range for month"
  | hour => "hour must be in 0..23"
  | minute => "minute must be in 0..59"
  | second => "second must be in 0..59"
  | zone ahead =>
    "offset must be a timedelta strictly between -timedelta(hours=24) and timedelta(hours=24), not " ++
      ahead.inner ++ "."
  | outOfRange => "date value out of range"

def isLeap (year : Nat) : Bool :=
  year % 4 = 0 && (year % 100 != 0 || year % 400 = 0)

def daysIn (year month : Nat) : Nat :=
  if month = 2 then if isLeap year then 29 else 28
  else if [4, 6, 9, 11].contains month then 30
  else 31

def Clock.plainText (c : Clock) : String :=
  paddedDigits 2 c.hour ++ ":" ++ paddedDigits 2 c.minute ++ ":" ++ paddedDigits 2 c.second ++
    Duration.fractionText c.microsecond

def Clock.display (c : Clock) : String :=
  c.plainText ++ (c.zone.map fun z => z.ahead.offsetText ":").getD ""

def Zone.inner (z : Zone) : String :=
  "datetime.timezone(" ++ z.ahead.inner ++ ", '" ++ z.name ++ "')"

/-- The parts of a time of day in constructor notation, where zeros at the end are left out from the
seconds on. -/
def Clock.parts (c : Clock) : List String :=
  let small :=
    if c.microsecond = 0 then (if c.second = 0 then [] else [c.second])
    else [c.second, c.microsecond]
  ([c.hour, c.minute] ++ small).map toString ++
    (c.zone.map fun z => "tzinfo=" ++ z.inner).toList

namespace Moment

def kindName (m : Moment) : String :=
  if m.clock.isSome then "datetime" else "date"

/-- How far the clock of a moment is ahead of universal time, if that is known. -/
def zone? (m : Moment) : Option Zone :=
  m.clock.bind (·.zone)

def check (m : Moment) : Except MomentError Moment := do
  if let some z := m.zone? then
    if Duration.perDay ≤ z.ahead.total.natAbs then throw (.zone z.ahead)
  if m.year = 0 || 9999 < m.year then throw (.year m.year)
  if m.month < 1 || 12 < m.month then throw .month
  if m.day < 1 || daysIn m.year m.month < m.day then throw .day
  if let some c := m.clock then
    if 23 < c.hour then throw .hour
    if 59 < c.minute then throw .minute
    if 59 < c.second then throw .second
  return m

def dayText (m : Moment) : String :=
  paddedDigits 4 m.year ++ "-" ++ paddedDigits 2 m.month ++ "-" ++ paddedDigits 2 m.day

def marked (m : Moment) (mark : String) : String :=
  m.dayText ++ (m.clock.map fun c => mark ++ c.display).getD ""

def display (m : Moment) : String :=
  m.marked " "

def inner (m : Moment) : String :=
  let parts := [m.year, m.month, m.day].map toString ++ (m.clock.map Clock.parts).getD []
  "datetime." ++ m.kindName ++ "(" ++ ", ".intercalate parts ++ ")"

end Moment
end Mustache
