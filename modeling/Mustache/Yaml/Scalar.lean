import Mustache.Value
import Mustache.Yaml.Error
import Mustache.Yaml.Timestamp

/-! # Plain scalars

A plain scalar is the missing value, a truth value, a number, a moment or a text, by its form alone. The
form is that of the scalar as written; the underscores in a number group its digits and are dropped only
then, so a form may turn out to have no digits.
-/
namespace Mustache.Yaml

def isDigitOrGap (c : Char) : Bool :=
  c.isDigit || c == '_'

/-- A scalar without the underscores that group its digits. -/
def withoutGaps (cs : List Char) : List Char :=
  cs.filter (· != '_')

def isDigitIn (base : Nat) (c : Char) : Bool :=
  c == '_' || (Text.hexValue? c).any (· < base)

def digitsIn? (base : Nat) (digits : List Char) : Option (Nat × List Char) :=
  if !digits.isEmpty && digits.all (isDigitIn base) then some (base, digits) else none

def wholeForm? : List Char → Option (Nat × List Char)
  | '0' :: 'b' :: digits => digitsIn? 2 digits
  | '0' :: 'o' :: digits => digitsIn? 8 digits
  | '0' :: 'x' :: digits => digitsIn? 16 digits
  | digits => digitsIn? 10 digits

def numberIn (base : Nat) (digits : List Char) : Nat :=
  digits.foldl (fun n c => base * n + (Text.hexValue? c).getD 0) 0

def whole? (cs : List Char) : Option (Except ScalarError Int) :=
  let (negative, body) := Decimal.splitSign cs
  (wholeForm? body).map fun (base, digits) =>
    let digits := withoutGaps digits
    if digits.isEmpty then .error (.noDigits base)
    else
      let n : Nat := numberIn base digits
      .ok (if negative then -n else n)

def isExponent (signed : Bool) : List Char → Bool
  | [] => false
  | c :: cs =>
    let digits := (Decimal.splitSign cs).2
    (c == 'e' || c == 'E') && !digits.isEmpty && digits.all Char.isDigit &&
      (!signed || digits.length < cs.length)

/-- Whether a number is written with a point or an exponent. A number that starts with its point has an
exponent only with a sign. -/
def isFractional (body : List Char) : Bool :=
  let whole := body.takeWhile isDigitOrGap
  match body.dropWhile isDigitOrGap with
  | '.' :: more =>
    let fraction := more.takeWhile isDigitOrGap
    let tail := more.dropWhile isDigitOrGap
    (whole.head?.any Char.isDigit || (whole.isEmpty && !fraction.isEmpty)) &&
      (tail.isEmpty || isExponent whole.isEmpty tail)
  | more => whole.head?.any Char.isDigit && isExponent false more

def float? (cs : List Char) : Option (Except ScalarError Float) :=
  let (negative, body) := Decimal.splitSign cs
  let sign := if negative then "-" else ""
  if [".inf", ".Inf", ".INF"].contains (String.ofList body) then
    (Decimal.read? (sign ++ "inf")).map .ok
  else if [".nan", ".NaN", ".NAN"].contains (String.ofList cs) then (Decimal.read? "nan").map .ok
  else if isFractional body then
    let numeral := String.ofList ((withoutGaps body).map Char.toLower)
    match Decimal.read? (sign ++ numeral) with
    | some x => some (.ok x)
    | none => some (.error (.noFraction numeral))
  else none

def numeral? (cs : List Char) : Option (Except ScalarError Value) :=
  match cs with
  | [] => none
  | c :: _ =>
    if c.isDigit || c == '-' || c == '+' || c == '.' then
      match float? cs with
      | some x => some (x.map .float)
      | none => (whole? cs).map fun n => n.map .int
    else none

/-- The value of a plain scalar. The marks of a default value and of a merged map stand for no value of
their own. -/
def plainValue (cs : List Char) : Except YamlError Value :=
  let s := String.ofList cs
  if ["", "~", "null", "Null", "NULL"].contains s then .ok .null
  else if ["true", "True", "TRUE"].contains s then .ok (.bool true)
  else if ["false", "False", "FALSE"].contains s then .ok (.bool false)
  else if s = "=" || s = "<<" then .error .malformed
  else match numeral? cs, timestamp? cs with
    | some v, _ => v.mapError .scalar
    | none, some m => (m.map .moment).mapError fun e => .scalar (.noMoment e)
    | none, none => .ok (.text s)

end Mustache.Yaml
