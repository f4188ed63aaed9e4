/-! # Reading UTF-8

`decode` reads bytes as UTF-8 and says where and why it stops: at a byte that cannot start a
character, at a byte that cannot continue the one begun, or at the end of the data inside one. A
lead byte fixes how many bytes follow and the range of the first of them, which excludes overlong
forms, surrogates and values above U+10FFFF.
-/
namespace Mustache.Text.Utf8

inductive Fault where
  | invalidStart
  | invalidContinuation
  | unexpectedEnd
  deriving DecidableEq, Repr

structure DecodeError where
  fault : Fault
  offset : Nat
  bytes : List UInt8
  deriving DecidableEq, Repr

/-- What a lead byte promises: its own bits of the character, how many bytes follow, and the least
and the greatest byte that may come next. -/
structure Lead where
  bits : Nat
  following : Nat
  least : Nat := 0x80
  greatest : Nat := 0xBF

def lead? (b : UInt8) : Option Lead :=
  let n := b.toNat
  if n < 0x80 then some { bits := n, following := 0 }
  else if n < 0xC2 then none
  else if n < 0xE0 then some { bits := n - 0xC0, following := 1 }
  else if n = 0xE0 then some { bits := 0, following := 2, least := 0xA0 }
  else if n = 0xED then some { bits := 0xD, following := 2, greatest := 0x9F }
  else if n < 0xF0 then some { bits := n - 0xE0, following := 2 }
  else if n = 0xF0 then some { bits := 0, following := 3, least := 0x90 }
  else if n < 0xF4 then some { bits := n - 0xF0, following := 3 }
  else if n = 0xF4 then some { bits := 4, following := 3, greatest := 0x8F }
  else none

structure Pending where
  offset : Nat
  seen : List UInt8
  lead : Lead

/-- Reads the bytes from `offset` on, with at most one character begun. -/
def decodeFrom (offset : Nat) : Option Pending → List UInt8 → Except DecodeError (List Char)
  | none, [] => .ok []
  | some p, [] => .error ⟨.unexpectedEnd, p.offset, p.seen⟩
  | none, b :: bs =>
    match lead? b with
    | none => .error ⟨.invalidStart, offset, [b]⟩
    | some l =>
      if l.following = 0 then (Char.ofNat l.bits :: ·) <$> decodeFrom (offset + 1) none bs
      else decodeFrom (offset + 1) (some ⟨offset, [b], l⟩) bs
  | some p, b :: bs =>
    let n := b.toNat
    if n < p.lead.least || p.lead.greatest < n then
      .error ⟨.invalidContinuation, p.offset, p.seen⟩
    else
      let bits := p.lead.bits * 64 + (n - 0x80)
      if p.lead.following ≤ 1 then (Char.ofNat bits :: ·) <$> decodeFrom (offset + 1) none bs
      else
        let lead : Lead := { bits := bits, following := p.lead.following - 1 }
        decodeFrom (offset + 1) (some ⟨p.offset, p.seen ++ [b], lead⟩) bs

def decode (bytes : List UInt8) : Except DecodeError (List Char) :=
  decodeFrom 0 none bytes

def encode (cs : List Char) : List UInt8 :=
  cs.flatMap String.utf8EncodeChar

end Mustache.Text.Utf8
