/-! # Lengths of time

A length of time counts microseconds and may be negative. It is shown in whole days, rounded down, and a
time of day that is left.
-/
namespace Mustache

def paddedDigits (width n : Nat) : String :=
  let ds := Nat.toDigits 10 n
  String.ofList (List.replicate (width - ds.length) '0' ++ ds)

/-- A length of time in microseconds. -/
structure Duration where
  total : Int
  deriving DecidableEq, Repr

namespace Duration

def perSecond : Int := 1000000

def perDay : Int := 86400 * perSecond

def ofSeconds (n : Int) : Duration := ⟨n * perSecond⟩

def days (d : Duration) : Int :=
  d.total.fdiv perDay

def seconds (d : Duration) : Nat :=
  ((d.total.fmod perDay).fdiv perSecond).toNat

def microseconds (d : Duration) : Nat :=
  (d.total.fmod perSecond).toNat

def longest : Duration := ⟨1000000000 * perDay - 1⟩

def shortest : Duration := ⟨-999999999 * perDay⟩

def least : Duration := ⟨1⟩

/-- Microseconds as a fraction of a second, which is left out if there are none. -/
def fractionText (microseconds : Nat) : String :=
  if microseconds = 0 then "" else "." ++ paddedDigits 6 microseconds

def display (d : Duration) : String :=
  let days :=
    if d.days = 0 then ""
    else toString d.days ++ (if d.days.natAbs = 1 then " day, " else " days, ")
  let seconds : Nat := d.seconds
  days ++ toString (seconds / 3600) ++ ":" ++ paddedDigits 2 (seconds / 60 % 60) ++ ":" ++
    paddedDigits 2 (seconds % 60) ++ fractionText d.microseconds

def inner (d : Duration) : String :=
  let part (name : String) (n : Int) : List String :=
    if n = 0 then [] else [name ++ "=" ++ toString n]
  let parts := part "days" d.days ++ part "seconds" d.seconds ++ part "microseconds" d.microseconds
  "datetime.timedelta(" ++ (if parts.isEmpty then "0" else ", ".intercalate parts) ++ ")"

/-- The distance of a clock from universal time: a sign, hours and minutes, with a mark between them,
and seconds if there are any. -/
def offsetText (d : Duration) (mark : String) : String :=
  let size : Duration := ⟨d.total.natAbs⟩
  let seconds : Nat := size.seconds
  let smaller :=
    if size.microseconds = 0 && seconds % 60 = 0 then ""
    else mark ++ paddedDigits 2 (seconds % 60) ++ fractionText size.microseconds
  (if d.total < 0 then "-" else "+") ++ paddedDigits 2 (seconds / 3600) ++ mark ++
    paddedDigits 2 (seconds / 60 % 60) ++ smaller

example : (ofSeconds (-18000)).display = "-1 day, 19:00:00" := by decide +kernel
example : (ofSeconds (-18000)).offsetText ":" = "-05:00" := by decide +kernel

end Duration
end Mustache
