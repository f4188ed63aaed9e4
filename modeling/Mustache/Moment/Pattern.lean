import Mustache.Moment.Calendar

/-! # Moments after a pattern

A pattern is a text with directives: a percent sign, flags, a width and a letter, which stands for a part
of the moment. Before that the plain directives of the zone and of the microseconds are filled in. A
directive that means nothing stands for itself, and so does a text without percent signs
(`write_of_not_mem`).
-/
namespace Mustache.Pattern

def weekdays : List String :=
  ["Monday", "Tuesday", "Wednesday", "Thursday", "Friday", "Saturday", "Sunday"]

def months : List String :=
  ["January", "February", "March", "April", "May", "June", "July", "August", "September", "October",
    "November", "December"]

def weekdayName (n : Nat) : String :=
  weekdays[n]?.getD ""

def monthName (n : Nat) : String :=
  months[n - 1]?.getD ""

def short (name : String) : String :=
  String.ofList (name.toList.take 3)

structure Directive where
  /-- The last of the flags for padding: `0`, `_` or `-`. -/
  pad : Option Char := none
  upper : Bool := false
  swap : Bool := false
  /-- The width in digits, newest first. -/
  widthDigits : List Char := []
  modifier : Option Char := none
  /-- What has been read of the directive, newest first. -/
  spelled : List Char := ['%']

namespace Directive

def width (d : Directive) : Nat :=
  d.widthDigits.foldr (fun c n => 10 * n + (c.toNat - 0x30)) 0

def read? (d : Directive) (c : Char) : Option Directive :=
  let d := { d with spelled := c :: d.spelled }
  if d.modifier.isSome then none
  else if c.isDigit && !(d.widthDigits.isEmpty && c = '0') then
    some { d with widthDigits := c :: d.widthDigits }
  else if c = 'E' || c = 'O' then some { d with modifier := some c }
  else if !d.widthDigits.isEmpty then none
  else if c = '0' || c = '_' || c = '-' then some { d with pad := some c }
  else if c = '^' then some { d with upper := true }
  else if c = '#' then some { d with swap := true }
  else none

def fill (d : Directive) (width : Nat) (cs : List Char) : List Char :=
  List.replicate (width - cs.length) (if d.pad = some '0' then '0' else ' ') ++ cs

def text (d : Directive) (s : String) : List Char :=
  d.fill d.width (if d.upper then s.toList.map Char.toUpper else s.toList)

def name (d : Directive) (s : String) : List Char :=
  { d with upper := d.upper || d.swap }.text s

/-- A number with at least so many digits, or with as many as the width asks for. A flag turns the
missing digits into blanks. -/
def number (d : Directive) (digits : Nat) (n : Nat) : List Char :=
  let ds := Nat.toDigits 10 n
  let missing := max digits d.width - ds.length
  if d.pad = some '-' then d.fill d.width ds
  else List.replicate missing (if d.pad = some '_' then ' ' else '0') ++ ds

def blankNumber (d : Directive) (digits : Nat) (n : Nat) : List Char :=
  (if d.pad = some '0' || d.pad = some '-' then d else { d with pad := some '_' }).number digits n

/-- A directive that means nothing stands for itself, from its last percent sign on. That of a month's
short name still changes its case. -/
def itself (d : Directive) (letter : Char) : List Char :=
  let text := String.ofList (if letter = '%' then ['%'] else (letter :: d.spelled).reverse)
  if letter = 'b' || letter = 'h' then d.name text else d.text text

def isRefused (d : Directive) (letter : Char) : Bool :=
  match d.modifier with
  | none => false
  | some m =>
    "%aADF".toList.contains letter ||
      (if m = 'E' then "bBhdeHIkljMmSUVgGWw".toList.contains letter else "cxXY".toList.contains letter)

end Directive

def halfDayHour (hour : Nat) : Nat :=
  if hour % 12 = 0 then 12 else hour % 12

def halfDay (hour : Nat) : String :=
  if hour < 12 then "AM" else "PM"

/-- The number of a week in the year, where weeks start on a weekday, which lies `sinceStart` days
back. -/
def weekInYear (yearDay sinceStart : Nat) : Nat :=
  (yearDay + 6 - sinceStart) / 7

def epochDay : Nat := 719163

def epochSeconds (m : Moment) : Int :=
  m.sinceStart.total.fdiv Duration.perSecond - (epochDay - 1) * 86400

def part? (m : Moment) (d : Directive) (letter : Char) : Option (List Char) :=
  let c := m.clockOrMidnight
  let (weekYear, week, weekday) := m.week
  match letter with
  | '%' => some (d.fill d.width ['%'])
  | 'n' => some (d.fill d.width ['\n'])
  | 't' => some (d.fill d.width ['\t'])
  | 'a' => some (d.name (short (weekdayName m.weekday)))
  | 'A' => some (d.name (weekdayName m.weekday))
  | 'b' | 'h' => some (d.name (short (monthName m.month)))
  | 'B' => some (d.name (monthName m.month))
  | 'C' => some (d.number 1 (m.year / 100))
  | 'd' => some (d.number 2 m.day)
  | 'e' => some (d.blankNumber 2 m.day)
  | 'H' => some (d.number 2 c.hour)
  | 'I' => some (d.number 2 (halfDayHour c.hour))
  | 'k' => some (d.blankNumber 2 c.hour)
  | 'l' => some (d.blankNumber 2 (halfDayHour c.hour))
  | 'j' => some (d.number 3 m.yearDay)
  | 'M' => some (d.number 2 c.minute)
  | 'm' => some (d.number 2 m.month)
  | 'p' =>
    let half := halfDay c.hour
    some (if d.swap then ({ d with upper := false } : Directive).text half.toLower else d.text half)
  | 'P' => some (({ d with upper := false } : Directive).text (halfDay c.hour).toLower)
  | 'S' => some (d.number 2 c.second)
  | 's' =>
    let n := epochSeconds m
    let ds := Nat.toDigits 10 n.natAbs
    some (d.fill d.width (if n < 0 then '-' :: ds else ds))
  | 'u' => some (d.number 1 weekday)
  | 'U' => some (d.number 2 (weekInYear m.yearDay (weekday % 7)))
  | 'V' => some (d.number 2 week)
  | 'g' => some (d.number 2 (weekYear % 100))
  | 'G' => some (d.number 1 weekYear)
  | 'W' => some (d.number 2 (weekInYear m.yearDay m.weekday))
  | 'w' => some (d.number 1 (weekday % 7))
  | 'Y' => some (d.number 1 m.year)
  | 'y' => some (d.number 2 (m.year % 100))
  | 'Z' => some (if d.pad = some '-' then [] else d.text "")
  | 'z' => some []
  | _ => none

def abbreviation? (letter : Char) : Option String :=
  match letter with
  | 'c' => some "%a %b %e %H:%M:%S %Y"
  | 'x' | 'D' => some "%m/%d/%y"
  | 'F' => some "%Y-%m-%d"
  | 'R' => some "%H:%M"
  | 'r' => some "%I:%M:%S %p"
  | 'T' | 'X' => some "%H:%M:%S"
  | _ => none

/-- Writes a moment after a pattern. `whole` writes the abbreviation of a letter; `directive` is the
one that has been begun. -/
def write (m : Moment) (whole : Directive → Char → List Char) (directive : Option Directive) :
    List Char → List Char
  | [] =>
    match directive with
    | some d => d.text (String.ofList d.spelled.reverse)
    | none => []
  | c :: cs =>
    match directive with
    | none =>
      if c = '%' then write m whole (some {}) cs else c :: write m whole none cs
    | some d =>
      match d.read? c with
      | some d => write m whole (some d) cs
      | none =>
        let out :=
          if d.isRefused c then d.itself c
          else (part? m d c).getD (whole d c)
        out ++ write m whole none cs

theorem write_of_not_mem (m : Moment) (whole : Directive → Char → List Char) {cs : List Char}
    (h : '%' ∉ cs) : write m whole none cs = cs := by
  induction cs with
  | nil => rfl
  | cons c cs ih =>
    have hc : c ≠ '%' := fun e => h (e ▸ List.mem_cons_self)
    simp [write, hc, ih fun hm => h (List.mem_cons_of_mem _ hm)]

/-- Writes what a letter abbreviates; its parts are no abbreviations again. -/
def writeWhole (m : Moment) (d : Directive) (letter : Char) : List Char :=
  match abbreviation? letter with
  | some pattern => d.text (String.ofList (write m Directive.itself none pattern.toList))
  | none => d.itself letter

/-- Fills in the plain directives of the zone and of the microseconds. Percent signs in the zone's name
are doubled, so that they stand for themselves. -/
def fillIn (m : Moment) : List Char → List Char
  | '%' :: c :: cs =>
    let zone := m.zone?
    let known :=
      if c = 'z' then some ((zone.map fun z => z.ahead.offsetText "").getD "").toList
      else if c = 'Z' then
        some (((zone.map (·.name)).getD "").toList.flatMap fun x => if x = '%' then ['%', x] else [x])
      else if c = 'f' then some (paddedDigits 6 m.clockOrMidnight.microsecond).toList
      else none
    known.getD ['%', c] ++ fillIn m cs
  | c :: cs => c :: fillIn m cs
  | [] => []

end Mustache.Pattern

namespace Mustache

def Moment.format (m : Moment) (pattern : String) : String :=
  String.ofList (Pattern.write m (Pattern.writeWhole m) none (Pattern.fillIn m pattern.toList))

def Moment.dated (m : Moment) : String :=
  m.format "%a %b %e %H:%M:%S " ++ paddedDigits 4 m.year

end Mustache
