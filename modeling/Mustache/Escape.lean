import Mustache.Charset

/-! # Escaping

Interpolated text is made safe for HTML: the reserved characters become named references, a single
quote a numeric one if asked for, and a character that the charset does not represent becomes a
reference to its code point. The escaped text can then be written in the charset.
-/
namespace Mustache

inductive EscapeError where
  | unknownCharset (name : String)
  /-- The name belongs to a transformation that is no encoding of texts. -/
  | notTextEncoding (name : String)
  deriving DecidableEq, Repr

def EscapeError.message : EscapeError → String
  | unknownCharset name => "Unknown charset '" ++ name ++ "'"
  | notTextEncoding name =>
    "'" ++ name ++ "' is not a text encoding; use codecs.encode() to handle arbitrary codecs"

structure Escaper where
  charset : Charset
  singleQuotes : Bool
  deriving DecidableEq, Repr

def Escaper.reference (c : Char) : List Char :=
  '&' :: '#' :: Nat.toDigits 10 c.toNat ++ [';']

/-- What stands for a character in a text of the charset. -/
def Charset.encodable (charset : Charset) (c : Char) : List Char :=
  if charset.represents c then [c] else Escaper.reference c

namespace Escaper

def standard : Escaper := ⟨.unicode "utf-8", true⟩

def ofName (charset : String) (singleQuotes : Bool) : Except EscapeError Escaper :=
  match Charset.find? charset with
  | some c => .ok ⟨c, singleQuotes⟩
  | none => .error (.unknownCharset charset)

def entity? (e : Escaper) (c : Char) : Option String :=
  if c = '&' then some "&amp;"
  else if c = '<' then some "&lt;"
  else if c = '>' then some "&gt;"
  else if c = '"' then some "&quot;"
  else if c = '\'' && e.singleQuotes then some "&#039;"
  else none

/-- The first pass: what stands for a character if all of them can be represented. -/
def named (e : Escaper) (c : Char) : List Char :=
  match e.entity? c with
  | some entity => entity.toList
  | none => [c]

/-- Named references first; the second pass is over their characters too. -/
def escape (e : Escaper) (text : String) : Except EscapeError String :=
  let translated := text.toList.flatMap e.named
  if e.charset.isTextEncoding then
    .ok (String.ofList (translated.flatMap e.charset.encodable))
  else .error (.notTextEncoding e.charset.name)

end Escaper
end Mustache
