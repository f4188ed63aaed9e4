import Mustache.Digest.Words
import Mustache.Text.Hex
import Mustache.Text.Utf8

/-! # The MD5 digest

Sixty-four steps on four words for each block; the digest of a text is that of its UTF-8 form, in
hexadecimal digits.
-/
namespace Mustache.Digest.Md5

structure State where
  a : UInt32
  b : UInt32
  c : UInt32
  d : UInt32

def start : State := ⟨0x67452301, 0xEFCDAB89, 0x98BADCFE, 0x10325476⟩

/-- The constants of the steps: the whole part of `2 ^ 32 · |sin (i + 1)|`. -/
def constants : List UInt32 := [
    0xD76AA478, 0xE8C7B756, 0x242070DB, 0xC1BDCEEE, 0xF57C0FAF, 0x4787C62A, 0xA8304613, 0xFD469501,
    0x698098D8, 0x8B44F7AF, 0xFFFF5BB1, 0x895CD7BE, 0x6B901122, 0xFD987193, 0xA679438E, 0x49B40821,
    0xF61E2562, 0xC040B340, 0x265E5A51, 0xE9B6C7AA, 0xD62F105D, 0x02441453, 0xD8A1E681, 0xE7D3FBC8,
    0x21E1CDE6, 0xC33707D6, 0xF4D50D87, 0x455A14ED, 0xA9E3E905, 0xFCEFA3F8, 0x676F02D9, 0x8D2A4C8A,
    0xFFFA3942, 0x8771F681, 0x6D9D6122, 0xFDE5380C, 0xA4BEEA44, 0x4BDECFA9, 0xF6BB4B60, 0xBEBFBC70,
    0x289B7EC6, 0xEAA127FA, 0xD4EF3085, 0x04881D05, 0xD9D4D039, 0xE6DB99E5, 0x1FA27CF8, 0xC4AC5665,
    0xF4292244, 0x432AFF97, 0xAB9423A7, 0xFC93A039, 0x655B59C3, 0x8F0CCC92, 0xFFEFF47D, 0x85845DD1,
    0x6FA87E4F, 0xFE2CE6E0, 0xA3014314, 0x4E0811A1, 0xF7537E82, 0xBD3AF235, 0x2AD7D2BB, 0xEB86D391]

/-- How far the four steps of a round in turn rotate. -/
def rotations : List (List UInt32) :=
  [[7, 12, 17, 22], [5, 9, 14, 20], [4, 11, 16, 23], [6, 10, 15, 21]]

def mix (round i : Nat) (s : State) : UInt32 × Nat :=
  match round with
  | 0 => ((s.b &&& s.c) ||| (~~~s.b &&& s.d), i)
  | 1 => ((s.d &&& s.b) ||| (~~~s.d &&& s.c), (5 * i + 1) % 16)
  | 2 => (s.b ^^^ s.c ^^^ s.d, (3 * i + 5) % 16)
  | _ => (s.c ^^^ (s.b ||| ~~~s.d), 7 * i % 16)

def step (block : List UInt32) (s : State) (constant : UInt32 × Nat) : State :=
  let (k, i) := constant
  let round := i / 16
  let (f, g) := mix round i s
  let turn := ((rotations[round]?.getD [])[i % 4]?).getD 0
  ⟨s.d, s.b + rotateLeft (s.a + f + k + (block[g]?).getD 0) turn, s.b, s.c⟩

def absorb (s : State) (block : List UInt32) : State :=
  let t := constants.zipIdx.foldl (step block) s
  ⟨s.a + t.a, s.b + t.b, s.c + t.c, s.d + t.d⟩

def digest (bytes : List UInt8) : List UInt8 :=
  let s := (blocks .leastFirst bytes).foldl absorb start
  [s.a, s.b, s.c, s.d].flatMap fun w => ByteOrder.leastFirst.bytes 4 w.toNat

def hex (text : String) : String :=
  Text.hexOfBytes (digest (Text.Utf8.encode text.toList))

end Mustache.Digest.Md5
