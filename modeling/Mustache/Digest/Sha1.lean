import Mustache.Digest.Words
import Mustache.Text.Hex
import Mustache.Text.Utf8

/-! # The SHA-1 digest

Eighty steps on five words for each block, over a schedule that extends the sixteen words of the
block; the digest of a text is that of its UTF-8 form, in hexadecimal digits.
-/
namespace Mustache.Digest.Sha1

structure State where
  a : UInt32
  b : UInt32
  c : UInt32
  d : UInt32
  e : UInt32

def start : State := ⟨0x67452301, 0xEFCDAB89, 0x98BADCFE, 0x10325476, 0xC3D2E1F0⟩

/-- Extends the schedule, held with its latest word first, by `count` words. -/
def extend : Nat → List UInt32 → List UInt32
  | 0, ws => ws
  | count + 1, ws =>
    let word (i : Nat) : UInt32 := (ws[i]?).getD 0
    extend count (rotateLeft (word 2 ^^^ word 7 ^^^ word 13 ^^^ word 15) 1 :: ws)

def schedule (block : List UInt32) : List UInt32 :=
  (extend 64 block.reverse).reverse

def mix (i : Nat) (s : State) : UInt32 × UInt32 :=
  if i < 20 then ((s.b &&& s.c) ||| (~~~s.b &&& s.d), 0x5A827999)
  else if i < 40 then (s.b ^^^ s.c ^^^ s.d, 0x6ED9EBA1)
  else if i < 60 then ((s.b &&& s.c) ||| (s.b &&& s.d) ||| (s.c &&& s.d), 0x8F1BBCDC)
  else (s.b ^^^ s.c ^^^ s.d, 0xCA62C1D6)

def step (s : State) (word : UInt32 × Nat) : State :=
  let (f, k) := mix word.2 s
  ⟨rotateLeft s.a 5 + f + s.e + k + word.1, s.a, rotateLeft s.b 30, s.c, s.d⟩

def absorb (s : State) (block : List UInt32) : State :=
  let t := (schedule block).zipIdx.foldl step s
  ⟨s.a + t.a, s.b + t.b, s.c + t.c, s.d + t.d, s.e + t.e⟩

def digest (bytes : List UInt8) : List UInt8 :=
  let s := (blocks .greatestFirst bytes).foldl absorb start
  [s.a, s.b, s.c, s.d, s.e].flatMap fun w => ByteOrder.greatestFirst.bytes 4 w.toNat

def hex (text : String) : String :=
  Text.hexOfBytes (digest (Text.Utf8.encode text.toList))

end Mustache.Digest.Sha1
