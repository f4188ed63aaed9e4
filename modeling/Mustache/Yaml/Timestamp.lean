import Mustache.Moment.Calendar
import Mustache.Text.Numeral

/-! # Timestamps

A plain scalar may have the form of a timestamp: a day as `year-month-day`, perhaps with a time of day
after `T` or blanks. A day alone has all its digits; with a time of day, month, day and hour may have one.
A fraction of a second is rounded to six digits. After the time of day may stand the clock's distance
from universal time.
-/
namespace Mustache.Yaml
open Text

def clockMark? : List Char → Option (List Char)
  | 'T' :: cs | 't' :: cs => some cs
  | c :: cs =>
    if c = ' ' || c = '\t' then some (cs.dropWhile fun x => x == ' ' || x == '\t') else none
  | [] => none

def fraction? : List Char → List Char × List Char
  | '.' :: cs => (cs.takeWhile Char.isDigit, cs.dropWhile Char.isDigit)
  | cs => ([], cs)

/-- The microseconds of a fraction; a fraction close to one is rounded to a whole second. -/
def microseconds (ds : List Char) : Nat :=
  let n := decimalValue (ds.take 6 ++ List.replicate (6 - ds.length) '0')
  if ds[6]?.any ('4' < ·) then n + 1 else n

def zone? (cs : List Char) : Option (Option Zone) :=
  match cs.dropWhile fun x => x == ' ' || x == '\t' with
  | [] => if cs.isEmpty then some none else none
  | ['Z'] => some (some ⟨"Z", ⟨0⟩⟩)
  | sign :: rest =>
    if sign ≠ '+' && sign ≠ '-' then none
    else do
      let (hours, rest') ← number? 1 2 rest
      let (minutes, rest') ← match rest' with
        | [] => some (0, [])
        | more => (char? ':' more).bind (number? 2 2)
      if !rest'.isEmpty then none
      else
        let seconds : Nat := 60 * (60 * hours + minutes)
        some (some ⟨String.ofList (sign :: rest), .ofSeconds (if sign = '-' then -seconds else seconds)⟩)

/-- Reads a time of day, up to the end; `true` beside it says that its fraction makes a whole second. -/
def clock? (cs : List Char) : Option (Clock × Bool) := do
  let (hour, rest) ← number? 1 2 cs
  let (minute, rest) ← (char? ':' rest).bind (number? 2 2)
  let (second, rest) ← (char? ':' rest).bind (number? 2 2)
  let (ds, rest) := fraction? rest
  let zone ← zone? rest
  let n := microseconds ds
  return (⟨hour, minute, second, n % 1000000, zone⟩, n = 1000000)

def timestamp? (cs : List Char) : Option (Except MomentError Moment) := do
  let (year, rest) ← number? 4 4 cs
  let (month, rest) ← (char? '-' rest).bind (number? 1 2)
  let (day, rest) ← (char? '-' rest).bind (number? 1 2)
  match rest with
  | [] => if cs.length = 10 then some (Moment.check ⟨year, month, day, none⟩) else none
  | _ =>
    let (clock, carry) ← (clockMark? rest).bind clock?
    return (Moment.check ⟨year, month, day, some clock⟩).bind fun m =>
      if carry then m.plus (.ofSeconds 1) else .ok m

end Mustache.Yaml
