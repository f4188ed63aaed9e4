/-! # The shortest decimal form of a binary number

A finite double stands for `mantissa · 2 ^ exponent`, and every real between the midpoints to its
neighbours reads back as the same double (the midpoints too if the mantissa is even). `shortest`
returns the decimal with the fewest digits in that interval, the nearest of those. It tries grids of
1, 2, … 17 significant digits in exact arithmetic; on each grid only the two neighbours of the value
can lie in the interval first.
-/
namespace Mustache.Decimal

/-- A positive number `mantissa · 2 ^ exponent`; `narrow` holds where the neighbour below is only half
a unit away. -/
structure Binary where
  mantissa : Nat
  exponent : Int
  narrow : Bool
  deriving DecidableEq, Repr

/-- A positive decimal number `0.d₁d₂… · 10 ^ point`, with the value of its digits. -/
structure Digits where
  value : Nat
  point : Int
  deriving DecidableEq, Repr

def overPower (s p : Int) (a : Nat) : Nat × Nat :=
  (a * Nat.pow 2 s.toNat * Nat.pow 10 (-p).toNat, Nat.pow 10 p.toNat * Nat.pow 2 (-s).toNat)

def belowPower (s : Int) (a : Nat) (p : Int) : Bool :=
  let (num, den) := overPower s p a
  num < den

/-- The least `p` with `mantissa · 2 ^ exponent < 10 ^ p`. The binary length of the number places it
within three candidates. -/
def decimalPoint (b : Binary) : Int :=
  let length : Int := Nat.log2 b.mantissa + b.exponent
  let guess := Int.fdiv (length * 30103) 100000
  if belowPower b.exponent b.mantissa guess then guess
  else if belowPower b.exponent b.mantissa (guess + 1) then guess + 1
  else guess + 2

/-- The point nearest to the number among the two of the grid `10 ^ p` beside it, if one of them reads
back as the number; of two equally near ones the even. -/
def hit? (b : Binary) (p : Int) : Option Nat :=
  let s := b.exponent - 2
  let (centre, unit) := overPower s p (4 * b.mantissa)
  let (high, _) := overPower s p (4 * b.mantissa + 2)
  let (low, _) := overPower s p (4 * b.mantissa - (if b.narrow then 1 else 2))
  let inside (d : Nat) : Bool :=
    if b.mantissa % 2 = 0 then low ≤ d * unit && d * unit ≤ high
    else low < d * unit && d * unit < high
  let d := centre / unit
  let below := 2 * (centre - d * unit)
  match inside d, inside (d + 1) with
  | true, true => some (if below < unit || (below = unit && d % 2 = 0) then d else d + 1)
  | true, false => some d
  | false, true => some (d + 1)
  | false, false => none

def shortestFrom (b : Binary) (point : Int) (digits : Nat) : Nat → Digits
  | 0 => ⟨0, point⟩
  | more + 1 =>
    match hit? b (point - digits) with
    | some d => if d = Nat.pow 10 digits then ⟨1, point + 1⟩ else ⟨d, point⟩
    | none => shortestFrom b point (digits + 1) more

/-- The decimal with the fewest digits that reads back as the number, the nearest of those. -/
def shortest (b : Binary) : Digits :=
  shortestFrom b (decimalPoint b) 1 17

example : shortest ⟨7205759403792794, -56, false⟩ = ⟨1, 0⟩ := by decide +kernel
example : shortest ⟨1, -1074, false⟩ = ⟨5, -323⟩ := by decide +kernel

end Mustache.Decimal
