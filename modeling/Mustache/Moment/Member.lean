import Mustache.CallError
import Mustache.Decimal.Layout
import Mustache.Moment.Pattern
import Mustache.Moment.Standard

/-! # Members of moments

A moment has its parts, the bounds of its kind and methods, which are called without an argument or with
one text. Lengths of time and zones, which are among the members of moments, have members of their own.
-/
namespace Mustache

inductive MomentMember where
  | number (n : Int)
  | moment (m : Moment)
  | duration (d : Duration)
  | zone (z : Option Zone)
  | method (call : Option String → Except CallError String)

namespace MomentMember

def plain (kind name : String) (result : Except MomentError String) : MomentMember :=
  .method fun
    | none => result.mapError .noMoment
    | some _ => .error (.takesNone (kind ++ "." ++ name))

def single (kind name : String) (result : String → Except CallError String) : MomentMember :=
  .method fun
    | none => .error (.takesOne (kind ++ "." ++ name))
    | some text => result text

def optional (result : Except CallError String) (refused : CallError) : MomentMember :=
  .method fun
    | none => result
    | some _ => .error refused

def refusing (without withText : CallError) : MomentMember :=
  optional (.error without) withText

end MomentMember

def missingText : String := "None"

namespace Duration

def inSeconds (d : Duration) : Float :=
  let size := Decimal.nearest d.total.natAbs (-6)
  if d.total < 0 then -size else size

def member? (d : Duration) (name : String) : Option MomentMember :=
  match name with
  | "days" => some (.number d.days)
  | "seconds" => some (.number d.seconds)
  | "microseconds" => some (.number d.microseconds)
  | "max" => some (.duration longest)
  | "min" => some (.duration shortest)
  | "resolution" => some (.duration least)
  | "total_seconds" => some (.plain "timedelta" name (.ok (Decimal.Layout.general.text d.inSeconds)))
  | _ => none

end Duration

namespace Zone

def eastmost : Zone := Standard.zoneOf (.ofSeconds 86340)

def westmost : Zone := Standard.zoneOf (.ofSeconds (-86340))

def member? (_ : Zone) (name : String) : Option MomentMember :=
  match name with
  | "utc" => some (.zone (some (Standard.zoneOf ⟨0⟩)))
  | "max" => some (.zone (some eastmost))
  | "min" => some (.zone (some westmost))
  | "dst" | "tzname" | "utcoffset" =>
    some (.single "timezone" name fun _ => .error
      (.unfit (name ++ "(dt) argument must be a datetime instance or None, not str")))
  | "fromutc" =>
    some (.single "timezone" name fun _ => .error (.unfit "fromutc: argument must be a datetime"))
  | _ => none

end Zone

namespace Moment

/-- The parts of a day and a time of day, as a method lists them. The last one says whether the clock is
known to be put forward. -/
def partsText (m : Moment) (forward : Int) : String :=
  let c := m.clockOrMidnight
  let part (name : String) (n : Int) : String := "tm_" ++ name ++ "=" ++ toString n
  "time.struct_time(" ++ ", ".intercalate
    [part "year" m.year, part "mon" m.month, part "mday" m.day, part "hour" c.hour,
      part "min" c.minute, part "sec" c.second, part "wday" m.weekday, part "yday" m.yearDay,
      part "isdst" forward] ++ ")"

def weekText (m : Moment) : String :=
  let (year, week, weekday) := m.week
  "datetime.IsoCalendarDate(year=" ++ toString year ++ ", week=" ++ toString week ++ ", weekday=" ++
    toString weekday ++ ")"

/-- The seconds since the epoch. Without a zone, whole seconds and their fraction are added as doubles;
the first day is too early for a search among the neighbouring days. -/
def timestamp (m : Moment) : Except MomentError Float :=
  let start : Int := ((Pattern.epochDay : Int) - 1) * Duration.perDay
  match m.instant? with
  | some t => .ok (Duration.inSeconds ⟨t - start⟩)
  | none =>
    if m.number = 1 then .error (.year 0)
    else
      let fraction := Decimal.nearest m.clockOrMidnight.microsecond (-6)
      .ok (Float.ofInt (Pattern.epochSeconds m) + fraction)

/-- The moment by a clock of universal time, which is taken for the local time where no zone is
known. -/
def local? (m : Moment) : Except MomentError Moment := do
  if m.zone?.isNone && m.number = 1 then throw (.year 0)
  let u ← m.universal
  return { u with clock := u.clock.map fun c => { c with zone := some (Standard.zoneOf ⟨0⟩) } }

def first (m : Moment) : Moment :=
  ⟨1, 1, 1, m.clock.map fun _ => ⟨0, 0, 0, 0, none⟩⟩

def last (m : Moment) : Moment :=
  ⟨9999, 12, 31, m.clock.map fun _ => ⟨23, 59, 59, 999999, none⟩⟩

def commonMember? (m : Moment) (name : String) : Option MomentMember :=
  let plain (text : String) : Option MomentMember := some (.plain m.kindName name (.ok text))
  match name with
  | "year" => some (.number m.year)
  | "month" => some (.number m.month)
  | "day" => some (.number m.day)
  | "max" => some (.moment m.last)
  | "min" => some (.moment m.first)
  | "ctime" => plain m.dated
  | "isocalendar" => plain m.weekText
  | "isoweekday" => plain (toString (m.weekday + 1))
  | "weekday" => plain (toString m.weekday)
  | "toordinal" => plain (toString m.number)
  | "timetuple" => plain (m.partsText (-1))
  | "replace" => some (.optional (.ok m.display) .notWhole)
  | "strftime" =>
    some (.method fun
      | none => .error (.missing name "format")
      | some pattern => .ok (m.format pattern))
  | "fromisoformat" =>
    some (.single m.kindName name fun text => (ofStandard m.clock.isSome text).map display)
  | "fromisocalendar" => some (.refusing (.missing name "year") .notWhole)
  | "fromordinal" => some (.refusing (.takes name 1 0) .notWhole)
  | _ => none

def dayMember? (m : Moment) (name : String) : Option MomentMember :=
  match name with
  | "resolution" => some (.duration ⟨Duration.perDay⟩)
  | "isoformat" => some (.plain m.kindName name (.ok m.dayText))
  | "fromtimestamp" => some (.single m.kindName name fun _ => .error .notWhole)
  | "today" => some (.optional (.error .noClock) (.takesNone (m.kindName ++ "." ++ name)))
  | _ => none

def clockMember? (m : Moment) (c : Clock) (name : String) : Option MomentMember :=
  let plain (result : Except MomentError String) : Option MomentMember :=
    some (.plain m.kindName name result)
  let noZone : CallError :=
    .unfit "tzinfo argument must be None or of a tzinfo subclass, not type 'str'"
  match name with
  | "hour" => some (.number c.hour)
  | "minute" => some (.number c.minute)
  | "second" => some (.number c.second)
  | "microsecond" => some (.number c.microsecond)
  | "fold" => some (.number 0)
  | "tzinfo" => some (.zone c.zone)
  | "resolution" => some (.duration Duration.least)
  | "date" => plain (.ok m.dayText)
  | "time" => plain (.ok c.plainText)
  | "timetz" => plain (.ok c.display)
  | "dst" => plain (.ok missingText)
  | "tzname" => plain (.ok ((c.zone.map (·.name)).getD missingText))
  | "utcoffset" => plain (.ok ((c.zone.map (·.ahead.display)).getD missingText))
  | "timestamp" => plain (m.timestamp.map Decimal.Layout.general.text)
  | "utctimetuple" => plain (m.universal.map (·.partsText 0))
  | "astimezone" => some (.optional ((m.local?.map display).mapError .noMoment) noZone)
  | "isoformat" =>
    some (.method fun
      | none => .ok (m.marked "T")
      | some mark =>
        if mark.length = 1 then .ok (m.marked mark)
        else .error (.unfit "isoformat() argument 1 must be a unicode character, not str"))
  | "combine" =>
    some (.refusing (.missing name "date")
      (.unfit "combine() argument 1 must be datetime.date, not str"))
  | "fromtimestamp" => some (.refusing (.missing name "timestamp") .notWhole)
  | "utcfromtimestamp" => some (.refusing (.takes name 1 0) .notWhole)
  | "strptime" => some (.refusing (.takes name 2 0) (.takes name 2 1))
  | "now" => some (.optional (.error .noClock) noZone)
  | "today" | "utcnow" =>
    some (.optional (.error .noClock) (.takesNone (m.kindName ++ "." ++ name)))
  | _ => none

def member? (m : Moment) (name : String) : Option MomentMember :=
  (m.commonMember? name).or (match m.clock with
    | none => m.dayMember? name
    | some c => m.clockMember? c name)

end Moment
end Mustache
