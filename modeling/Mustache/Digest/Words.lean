/-! # Words and blocks of a digest

Both digests read a text of bytes in blocks of sixteen 32-bit words, after appending a one bit, zeros
and the length in bits. They differ in the order of the bytes in a word.
-/
namespace Mustache.Digest

inductive ByteOrder where
  | leastFirst
  | greatestFirst
  deriving DecidableEq, Repr

/-- The last `width` bytes of a number, the greatest first. -/
def bytesOf : Nat → Nat → List UInt8
  | 0, _ => []
  | width + 1, n => bytesOf width (n / 256) ++ [UInt8.ofNat (n % 256)]

def ByteOrder.bytes (order : ByteOrder) (width n : Nat) : List UInt8 :=
  match order with
  | .leastFirst => (bytesOf width n).reverse
  | .greatestFirst => bytesOf width n

def ByteOrder.value (order : ByteOrder) (bytes : List UInt8) : Nat :=
  let ordered := match order with
    | .leastFirst => bytes.reverse
    | .greatestFirst => bytes
  ordered.foldl (fun n b => 256 * n + b.toNat) 0

/-- The text with a one bit, zeros and its length in bits appended; the result fills whole blocks of
64 bytes. -/
def padded (order : ByteOrder) (bytes : List UInt8) : List UInt8 :=
  bytes ++ 0x80 :: List.replicate ((119 - bytes.length % 64) % 64) 0 ++
    order.bytes 8 (8 * bytes.length)

def pieces {α : Type} (size : Nat) : Nat → List α → List (List α)
  | 0, _ => []
  | count + 1, xs => xs.take size :: pieces size count (xs.drop size)

def blocks (order : ByteOrder) (bytes : List UInt8) : List (List UInt32) :=
  let all := padded order bytes
  (pieces 64 (all.length / 64) all).map fun block =>
    (pieces 4 16 block).map fun word => UInt32.ofNat (order.value word)

def rotateLeft (x : UInt32) (n : UInt32) : UInt32 :=
  (x <<< n) ||| (x >>> (32 - n))

end Mustache.Digest
