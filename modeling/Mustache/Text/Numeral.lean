/-! # Numerals of a known width

Dates and times are written in numerals with a known number of digits, one after the other. Each reader
here takes something off the front of a text and returns what remains, so nothing is lost
(`append_digits?`).
-/
namespace Mustache.Text

def decimalValue (ds : List Char) : Nat :=
  ds.foldl (fun n c => 10 * n + (c.toNat - 0x30)) 0

/-- Reads from `least` to `most` decimal digits. -/
def digits? (least most : Nat) (cs : List Char) : Option (List Char × List Char) :=
  let ds := (cs.take most).takeWhile Char.isDigit
  if ds.length < least then none else some (ds, cs.drop ds.length)

theorem append_digits? {least most : Nat} {cs ds rest : List Char}
    (h : digits? least most cs = some (ds, rest)) : ds ++ rest = cs := by
  simp only [digits?] at h
  split at h
  · simp at h
  · obtain ⟨rfl, rfl⟩ := Prod.mk.inj (Option.some.inj h)
    have hp : (cs.take most).takeWhile Char.isDigit <+: cs :=
      (List.takeWhile_prefix _).trans (List.take_prefix most cs)
    exact (List.prefix_iff_eq_append.1 hp)

def number? (least most : Nat) (cs : List Char) : Option (Nat × List Char) := do
  let (ds, rest) ← digits? least most cs
  return (decimalValue ds, rest)

def char? (c : Char) : List Char → Option (List Char)
  | first :: rest => if first = c then some rest else none
  | [] => none

end Mustache.Text
