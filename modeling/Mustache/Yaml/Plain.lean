import Mustache.Yaml.Gap

/-! # Plain scalars in a document

A plain scalar is a row of words without quotes. It ends before a comment, before a colon that ends a
word, before a tab, inside a flow collection before its marks, and outside before a line that starts
left of the margin.
-/
namespace Mustache.Yaml

def reserved : List Char :=
  ['\t', '\r', '#', '&', '*', '!', '|', '>', '\'', '"', '%', '@', '\x60']

/-- Whether a character starts a plain scalar before `rest`: three marks do if no word ends there. -/
def startsPlain (c : Char) (rest : List Char) : Bool :=
  if c = '-' || c = '?' || c = ':' then !endsWord rest
  else !(isFlowMark c || reserved.contains c)

def endsPlain (flow : Bool) (c : Char) (rest : List Char) : Bool :=
  c == '\t' || (c == ':' && endsWord rest) || (flow && isFlowMark c)

/-- Reads the rest of a plain scalar. `text` is what has been read, the newest character first, `gap` the
gap after it, if its last word is over, and `stop` the scalar as it is if no word follows. -/
def plainScalar (flow : Bool) (margin : Nat) (text : List Char) (gap : Option Gap)
    (stop : ScalarRead) (p : Position) : List Char → ScalarRead
  | [] => if gap.isNone then ⟨text, p, []⟩ else stop
  | c :: cs =>
    let here : ScalarRead := if gap.isNone then ⟨text, p, c :: cs⟩ else stop
    let g := gap.getD {}
    if c = ' ' then plainScalar flow margin text (some (g.blank c)) here (p.next c) cs
    else if isBreak c then
      if startsWithMark cs then here
      else plainScalar flow margin text (some (g.lineBreak c)) here (p.next c) cs
    else if endsPlain flow c cs ||
        (gap.isSome && (c = '#' || (!flow && p.column < margin))) then here
    else plainScalar flow margin (c :: g.after text) none here (p.next c) cs

end Mustache.Yaml
