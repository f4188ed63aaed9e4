import Mustache.CallError
import Mustache.Moment.Calendar
import Mustache.Text.Numeral

/-! # Moments in standard form

A day is written as year, month and day or as year, week and weekday, with dashes or without. A time of
day may follow after any one character, with colons or without, and after it the distance of its clock
from universal time. Where the marks of a time of day leave it open how to go on, reading is generous.
-/
namespace Mustache.Standard
open Text

def hasWeek (year week : Nat) : Bool :=
  1 ≤ week && (week ≤ 52 || firstMonday year + 7 * week ≤ firstMonday (year + 1))

/-- The day of a week. The weeks before the first year belong to no month. -/
def dayOfWeek? (year week weekday : Nat) : Option (Nat × Nat × Nat) :=
  if !hasWeek year week || weekday = 0 || 7 < weekday then none
  else if year = 0 then some (1, 0, 1)
  else
    let m := Moment.ofNumber (firstMonday year + 7 * (week - 1) + (weekday - 1))
    some (m.year, m.month, m.day)

def dash? (dashes : Bool) (cs : List Char) : Option (List Char) :=
  if dashes then char? '-' cs else some cs

def weekDay? (year : Nat) (dashes : Bool) (cs : List Char) : Option (Nat × Nat × Nat) := do
  let (week, rest) ← number? 2 2 cs
  let weekday ← match rest with
    | [] => some 1
    | _ => ((dash? dashes rest).bind (number? 1 1)).map (·.1)
  dayOfWeek? year week weekday

/-- Reads a day, as year, month and day; what comes after it is passed over. -/
def day? (cs : List Char) : Option (Nat × Nat × Nat) := do
  let (year, rest) ← number? 4 4 cs
  let dashes := rest.head? = some '-'
  let rest := if dashes then rest.drop 1 else rest
  match rest with
  | 'W' :: week => weekDay? year dashes week
  | _ =>
    let (month, rest) ← number? 2 2 rest
    let (day, _) ← (dash? dashes rest).bind (number? 2 2)
    some (year, month, day)

structure ClockParts where
  hour : Nat
  minute : Nat := 0
  second : Nat := 0
  microsecond : Nat := 0
  leftOver : Bool
  deriving DecidableEq, Repr

/-- Reads a fraction of a second: six digits count, and more are passed over. What then follows is left
over. -/
def fraction? (p : ClockParts) (followed : Bool) (cs : List Char) : Option ClockParts := do
  let width := min 6 cs.length
  let (ds, rest) ← digits? width 6 cs
  let scaled := decimalValue (ds ++ List.replicate (6 - ds.length) '0')
  let beyond := rest.dropWhile Char.isDigit
  some { p with microsecond := scaled, leftOver := followed || !beyond.isEmpty }

inductive Continuation where
  | over (leftOver : Bool)
  | part (cs : List Char)
  | fraction (cs : List Char)
  | wrong

/-- How a time of day goes on after a part of it. A single character is left over. -/
def continuation (colons followed : Bool) (cs : List Char) : Continuation :=
  match cs with
  | [] => .over followed
  | [_] => .over true
  | c :: rest =>
    if colons && c = ':' then .part rest
    else if c = '.' || c = ',' then .fraction rest
    else if colons then .wrong
    else .part (c :: rest)

/-- Reads hours, minutes, seconds and a fraction, as far as they are there. `followed` holds where the
distance of the clock comes after them. -/
def clockParts? (followed : Bool) (cs : List Char) : Option ClockParts := do
  let (hour, rest) ← number? 2 2 cs
  let colons := if rest.isEmpty then false else rest.head? = some ':'
  match continuation colons followed rest with
  | .over leftOver => return { hour, leftOver }
  | .fraction rest => fraction? { hour, leftOver := false } followed rest
  | .wrong => none
  | .part rest =>
    let (minute, rest) ← number? 2 2 rest
    match continuation colons followed rest with
    | .over leftOver => return { hour, minute, leftOver }
    | .fraction rest => fraction? { hour, minute, leftOver := false } followed rest
    | .wrong => none
    | .part rest =>
      let (second, rest) ← number? 2 2 rest
      match continuation colons followed rest with
      | .over leftOver => return { hour, minute, second, leftOver }
      | .fraction rest | .part rest => fraction? { hour, minute, second, leftOver := false } followed rest
      | .wrong => none

def zoneOf (ahead : Duration) : Zone :=
  ⟨if ahead.total = 0 then "UTC" else "UTC" ++ ahead.offsetText ":", ahead⟩

def zone? : List Char → Option Zone
  | 'Z' :: rest => if rest.isEmpty then some (zoneOf ⟨0⟩) else none
  | sign :: rest => do
    let p ← clockParts? false rest
    if p.leftOver then none
    else
      let seconds : Nat := (p.hour * 60 + p.minute) * 60 + p.second
      let size : Int := seconds * Duration.perSecond + p.microsecond
      some (zoneOf ⟨if sign = '-' then -size else size⟩)
  | [] => none

def startsZone (c : Char) : Bool :=
  c == '+' || c == '-' || c == 'Z'

def clock? (cs : List Char) : Option Clock := do
  let time := cs.takeWhile (!startsZone ·)
  let zoneText := cs.drop time.length
  let p ← clockParts? (!zoneText.isEmpty) time
  if zoneText.isEmpty then
    if p.leftOver then none else some ⟨p.hour, p.minute, p.second, p.microsecond, none⟩
  else
    let zone ← zone? zoneText
    some ⟨p.hour, p.minute, p.second, p.microsecond, some zone⟩

/-- How long the day is written before a time of day. Of a day by its week, digits after the week may
belong to either. -/
def dayLength (cs : List Char) : Nat :=
  let isWeek (c : Option Char) : Bool := c = some 'W'
  if cs.length = 7 then 7
  else if cs[4]? = some '-' then
    if isWeek cs[5]? then
      if cs[8]? = some '-' && !(cs[10]?.any Char.isDigit) then 10 else 8
    else 10
  else if isWeek cs[4]? then
    let digits := ((cs.drop 7).takeWhile Char.isDigit).length
    if digits < 2 then 7 + digits else if digits % 2 = 1 then 7 else 8
  else 8

def dayAndClock? (cs : List Char) : Option ((Nat × Nat × Nat) × Clock) := do
  let length := dayLength cs
  let day ← day? (cs.take length)
  match cs.drop length with
  | [] => return (day, ⟨0, 0, 0, 0, none⟩)
  | _ :: rest => return (day, ← clock? rest)

end Mustache.Standard

namespace Mustache

/-- The moment of a text in standard form: a day, or a day with a time of day if `withClock` holds. The
size of a day alone is that of its encoded text. -/
def Moment.ofStandard (withClock : Bool) (text : String) : Except CallError Moment :=
  let cs := text.toList
  let read :=
    if withClock then
      (Standard.dayAndClock? cs).map fun ((year, month, day), c) => Moment.mk year month day (some c)
    else if [7, 8, 10].contains text.utf8ByteSize then
      (Standard.day? cs).map fun (year, month, day) => ⟨year, month, day, none⟩
    else none
  match read with
  | none => .error (.notStandard text)
  | some m => m.check.mapError .noMoment

end Mustache
