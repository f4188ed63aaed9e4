import Mustache.Moment

/-! # The calendar

The days from the first of the year one on are numbered from one. The number of a day gives its weekday
and its week, and moments are moved by lengths of time along these numbers.
-/
namespace Mustache

def daysBeforeYear (year : Nat) : Nat :=
  let past := year - 1
  365 * past + past / 4 - past / 100 + past / 400

def daysBeforeMonth (year month : Nat) : Nat :=
  (List.range (month - 1)).foldl (fun days k => days + daysIn year (k + 1)) 0

def lastDay : Nat := daysBeforeYear 10000

def weekdayOf (number : Nat) : Nat :=
  (number + 6) % 7

/-- The number of the Monday of a year's first week, which is the one with the first Thursday. -/
def firstMonday (year : Nat) : Nat :=
  let first := daysBeforeYear year + 1
  let weekday := weekdayOf first
  if 3 < weekday then first + 7 - weekday else first - weekday

def monthAndDay (year before : Nat) : List Nat → Nat × Nat
  | [] => (12, 31)
  | month :: more =>
    let length := daysIn year month
    if before < length then (month, before + 1) else monthAndDay year (before - length) more

/-- The year of a day by its number: years make periods of four hundred, one hundred, four and one. -/
def yearOf (number : Nat) : Nat :=
  let before := number - 1
  let inLongest := before % 146097
  let centuries := min 3 (inLongest / 36524)
  let inCentury := inLongest - 36524 * centuries
  let years := min 3 (inCentury % 1461 / 365)
  400 * (before / 146097) + 100 * centuries + 4 * (inCentury / 1461) + years + 1

def Moment.ofNumber (number : Nat) : Moment :=
  let year := yearOf number
  let (month, day) :=
    monthAndDay year (number - 1 - daysBeforeYear year) [1, 2, 3, 4, 5, 6, 7, 8, 9, 10, 11, 12]
  ⟨year, month, day, none⟩

namespace Moment

def yearDay (m : Moment) : Nat :=
  daysBeforeMonth m.year m.month + m.day

def number (m : Moment) : Nat :=
  daysBeforeYear m.year + m.yearDay

def weekday (m : Moment) : Nat :=
  weekdayOf m.number

/-- The year, the week and the weekday from one on, as weeks are counted. The first and the last days
of a year may belong to a week of another year. -/
def week (m : Moment) : Nat × Nat × Nat :=
  let n := m.number
  let year :=
    if n < firstMonday m.year then m.year - 1
    else if firstMonday (m.year + 1) ≤ n then m.year + 1
    else m.year
  (year, (n - firstMonday year) / 7 + 1, m.weekday + 1)

def clockOrMidnight (m : Moment) : Clock :=
  m.clock.getD ⟨0, 0, 0, 0, none⟩

def sinceStart (m : Moment) : Duration :=
  let c := m.clockOrMidnight
  let seconds : Nat := (m.number - 1) * 86400 + (c.hour * 60 + c.minute) * 60 + c.second
  ⟨seconds * Duration.perSecond + c.microsecond⟩

def afterStart? (d : Duration) (zone : Option Zone) : Except MomentError Moment :=
  if d.total < 0 || lastDay * Duration.perDay ≤ d.total then .error .outOfRange
  else
    let seconds : Nat := d.seconds
    let clock : Clock :=
      ⟨seconds / 3600, seconds / 60 % 60, seconds % 60, d.microseconds, zone⟩
    .ok { ofNumber (d.days.toNat + 1) with clock := some clock }

def plus (m : Moment) (d : Duration) : Except MomentError Moment :=
  match m.clock with
  | none => .ok m
  | some c => afterStart? ⟨m.sinceStart.total + d.total⟩ c.zone

/-- The same moment by a clock that shows universal time, which is taken for the time where nothing
else is known. -/
def universal (m : Moment) : Except MomentError Moment :=
  match m.zone? with
  | none => .ok m
  | some z => m.plus ⟨-z.ahead.total⟩

def instant? (m : Moment) : Option Int :=
  m.zone?.map fun z => m.sinceStart.total - z.ahead.total

/-- Whether two moments are the same one. Where both zones are known the clocks may show different
times. -/
def isSame (m n : Moment) : Bool :=
  match m.instant?, n.instant? with
  | some a, some b => a = b
  | none, none => m.clock.isSome = n.clock.isSome && m.sinceStart = n.sinceStart
  | _, _ => false

end Moment

example : (⟨2001, 2, 3, none⟩ : Moment).number = 730519 := by decide
example : Moment.ofNumber 730519 = ⟨2001, 2, 3, none⟩ := by decide
example : Moment.ofNumber lastDay = ⟨9999, 12, 31, none⟩ := by decide
example : (⟨2021, 1, 3, none⟩ : Moment).week = (2020, 53, 7) := by decide

end Mustache
