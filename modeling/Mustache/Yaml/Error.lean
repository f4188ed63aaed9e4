import Mustache.Moment

/-! # Why a document cannot be read

A document is malformed, or a map in it has a key twice, or a scalar has the form of a number, a moment or
a character that does not exist. The last kind is explained in words of its own.
-/
namespace Mustache.Yaml

inductive ScalarError where
  | noDigits (base : Nat)
  | noFraction (numeral : String)
  | noCodePoint (n : Nat)
  | noMoment (e : MomentError)
  deriving DecidableEq, Repr

/-- The least number that is too large to be considered as a code point at all. -/
def codePointBound : Nat := 0x80000000

def ScalarError.message : ScalarError → String
  | noDigits base => "invalid literal for int() with base " ++ toString base ++ ": ''"
  | noFraction numeral => "could not convert string to float: '" ++ numeral ++ "'"
  | noCodePoint n =>
    if n < codePointBound then "chr() arg not in range(0x110000)"
    else "Python int too large to convert to C int"
  | noMoment e => e.message

inductive YamlError where
  | malformed
  | duplicateKey (key : String)
  | scalar (e : ScalarError)
  deriving DecidableEq, Repr

/-- The error in words. A repeated key is explained in a line of its own. -/
def YamlError.message : YamlError → String
  | malformed => "the document is malformed"
  | duplicateKey key => "a map has the key " ++ key ++ " twice\n"
  | scalar e => e.message

end Mustache.Yaml
