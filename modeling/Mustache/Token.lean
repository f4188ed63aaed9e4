import Mustache.Delimiters
import Mustache.Text.Quoted

/-! # Tokens

A template is read as texts, line breaks and tags. A token knows the line it starts on, the offsets
of its first character and of the one after its last, and, if it is a tag, the delimiters it is
written with.
-/
namespace Mustache

inductive TokenKind where
  | text
  | newline
  | escaped
  | unescaped
  | sectionStart
  | invertedStart
  | sectionEnd
  | partialTag
  | comment
  | delimiterTag
  deriving DecidableEq, Repr

namespace TokenKind

def name : TokenKind → String
  | text => "TEXT"
  | newline => "NEWLINE"
  | escaped => "ESCAPED"
  | unescaped => "UNESCAPED"
  | sectionStart => "SECTION"
  | invertedStart => "INVERTED"
  | sectionEnd => "END_SECTION"
  | partialTag => "PARTIAL"
  | comment => "COMMENT"
  | delimiterTag => "DELIM_CHANGE"

/-- The kinds of tags that take their line with them when nothing else is on it: all that put no value
into the line. -/
def standsAlone : TokenKind → Bool
  | sectionStart | invertedStart | sectionEnd | partialTag | comment | delimiterTag => true
  | text | newline | escaped | unescaped => false

end TokenKind

/-- A piece of a template. The span is from `start` up to, not including, `stop`; `indent` is the text
before a partial's tag that stands alone on its line. -/
structure Token where
  kind : TokenKind
  value : String
  line : Nat
  start : Nat
  stop : Nat
  delimiters : Delimiters := .standard
  indent : String := ""
  deriving DecidableEq, Repr

def Token.describe (t : Token) : String :=
  "Token(" ++ t.kind.name ++ ", " ++ Text.quoted t.value ++ ", line " ++ toString t.line ++ ")"

end Mustache
