import Mustache.Decimal.Shortest

/-! # Writing and reading floating-point numbers

A `Layout` fixes the choices that a text format makes around the digits of a number: between which
powers of ten the point is written in place, how the exponent is written, whether a whole number keeps
a fraction. `read?` reads decimal numerals, with the names of infinity and not-a-number.
-/
namespace Mustache.Decimal

/-- The choices of a text format for numbers. The point is written in place for numbers from
`10 ^ leastPlaced` to below `10 ^ leastScaled`. -/
structure Layout where
  leastPlaced : Int
  leastScaled : Int
  exponentWidth : Nat
  wholeTail : String
  notANumber : String
  infinity : String

/-- Numbers are written with their point in place from a ten-thousandth to below ten to the sixteenth, an
exponent has a sign and at least two digits, and a whole number keeps one decimal. -/
def Layout.general : Layout where
  leastPlaced := -4
  leastScaled := 16
  exponentWidth := 2
  wholeTail := ".0"
  notANumber := "nan"
  infinity := "inf"

inductive Magnitude where
  | notANumber
  | infinite
  | zero
  | finite (b : Binary)
  deriving DecidableEq, Repr

def ofBits (bits : UInt64) : Bool × Magnitude :=
  let n := bits.toNat
  let field : Nat := n / 0x10000000000000 % 0x800
  let fraction : Nat := n % 0x10000000000000
  let magnitude : Magnitude :=
    if field = 2047 then if fraction = 0 then .infinite else .notANumber
    else if field = 0 then
      if fraction = 0 then .zero else .finite ⟨fraction, -1074, false⟩
    else .finite ⟨0x10000000000000 + fraction, (field : Int) - 1075, fraction = 0 && 1 < field⟩
  (n / 0x8000000000000000 = 1, magnitude)

def trimmedDigits (n : Nat) : List Char :=
  ((Nat.toDigits 10 n).reverse.dropWhile (· = '0')).reverse

def Layout.digits (layout : Layout) (d : Digits) : List Char :=
  let ds := trimmedDigits d.value
  let power := d.point - 1
  if layout.leastPlaced ≤ power && power < layout.leastScaled then
    if d.point ≤ 0 then '0' :: '.' :: List.replicate (-d.point).toNat '0' ++ ds
    else
      let whole := d.point.toNat
      if ds.length ≤ whole then
        ds ++ List.replicate (whole - ds.length) '0' ++ layout.wholeTail.toList
      else ds.take whole ++ '.' :: ds.drop whole
  else
    let mantissa := match ds with
      | first :: second :: rest => first :: '.' :: second :: rest
      | short => short
    let exponent := Nat.toDigits 10 power.natAbs
    mantissa ++ 'e' :: (if power < 0 then '-' else '+') ::
      List.replicate (layout.exponentWidth - exponent.length) '0' ++ exponent

def Layout.text (layout : Layout) (x : Float) : String :=
  let (negative, magnitude) := ofBits x.toBits
  let sign := if negative then "-" else ""
  match magnitude with
  | .notANumber => layout.notANumber
  | .infinite => sign ++ layout.infinity
  | .zero => sign ++ "0" ++ layout.wholeTail
  | .finite b => sign ++ String.ofList (layout.digits (shortest b))

def digitsValue (cs : List Char) : Nat :=
  cs.foldl (fun n c => 10 * n + (c.toNat - 0x30)) 0

def splitSign : List Char → Bool × List Char
  | '-' :: cs => (true, cs)
  | '+' :: cs => (false, cs)
  | cs => (false, cs)

/-- The double nearest to `m · 10 ^ e`. Exponents far outside the range of a double are not worked
out. -/
def nearest (m : Nat) (e : Int) : Float :=
  let size : Int := (Nat.toDigits 10 m).length + e
  if m = 0 || size < -400 then 0
  else if size > 400 then Float.ofBits 0x7FF0000000000000
  else Float.ofScientific m (e < 0) e.natAbs

/-- An exponent: `e` or `E`, a sign if there is one, and digits; absent it is zero. -/
def readExponent? : List Char → Option Int
  | [] => some 0
  | c :: cs =>
    let (negative, ds) := splitSign cs
    if (c = 'e' || c = 'E') && !ds.isEmpty && ds.all Char.isDigit then
      some (if negative then -(digitsValue ds : Int) else digitsValue ds)
    else none

def readMagnitude? (cs : List Char) : Option Float := do
  let whole := cs.takeWhile Char.isDigit
  let rest := cs.dropWhile Char.isDigit
  let (fraction, tail) := match rest with
    | '.' :: more => (more.takeWhile Char.isDigit, more.dropWhile Char.isDigit)
    | more => ([], more)
  if whole.isEmpty && fraction.isEmpty then none
  else
    let e ← readExponent? tail
    some (nearest (digitsValue (whole ++ fraction)) (e - fraction.length))

/-- Reads a decimal numeral, or `nan`, `inf` or `infinity` in letters of either case. -/
def read? (s : String) : Option Float :=
  let (negative, cs) := splitSign s.toList
  let name := cs.map Char.toLower
  let magnitude : Option Float :=
    if name = "nan".toList then some (Float.ofBits 0x7FF8000000000000)
    else if name = "inf".toList || name = "infinity".toList then
      some (Float.ofBits 0x7FF0000000000000)
    else readMagnitude? cs
  magnitude.map fun x => if negative then -x else x

end Mustache.Decimal
