import Mustache.Text.Hex
import Mustache.Text.Printable

/-! # Quoted texts

A quoted text stands between single quotes, or between double quotes where it holds a single quote
and no double one. The backslash, the quote in use, line feed, carriage return and tab are written
with a backslash; every other character without a visible form by its code point in two, four or
eight hexadecimal digits.
-/
namespace Mustache.Text

/-- The quote that needs the fewer escapes: the double one only if the text holds a single quote and
no double one. -/
def quoteFor (cs : List Char) : Char :=
  if '\''  ∈ cs && '"' ∉ cs then '"' else '\''

def escapeCode (n : Nat) : List Char :=
  if n < 0x100 then '\\' :: 'x' :: hexDigits 2 n
  else if n < 0x10000 then '\\' :: 'u' :: hexDigits 4 n
  else '\\' :: 'U' :: hexDigits 8 n

/-- A character inside quotes, where `shown` says which characters are written as they are. -/
def quoteChar (shown : Char → Bool) (quote c : Char) : List Char :=
  if c = quote || c = '\\' then ['\\', c]
  else if c = '\n' then ['\\', 'n']
  else if c = '\r' then ['\\', 'r']
  else if c = '\t' then ['\\', 't']
  else if shown c then [c]
  else escapeCode c.toNat

def quote (cs : List Char) : List Char :=
  let q := quoteFor cs
  q :: cs.flatMap (quoteChar isPrintable q) ++ [q]

/-- Bytes between quotes, after the letter `b`; only the visible characters of ASCII are written as
they are. -/
def quoteBytes (bytes : List UInt8) : List Char :=
  let cs := bytes.map fun b => Char.ofNat b.toNat
  let q := quoteFor cs
  'b' :: q :: cs.flatMap (quoteChar (fun c => 0x20 ≤ c.toNat && c.toNat < 0x7F) q) ++ [q]

def quoted (s : String) : String :=
  String.ofList (quote s.toList)

example : quote ['a', '\n'] = ['\'', 'a', '\\', 'n', '\''] := by decide
example : quote ['\''] = ['"', '\'', '"'] := by decide
example : quoteBytes [0x61, 0xFF] = ['b', '\'', 'a', '\\', 'x', 'f', 'f', '\''] := by decide

end Mustache.Text
