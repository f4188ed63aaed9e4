import Mustache.Token.Lexer

/-! # Scanning a template

The tokens of a template are those read from its text, less the lines that exist for a tag alone: a
line that holds one tag of a kind that stands alone, and otherwise only blanks, contributes that tag
and nothing else. The tag of a partial keeps the blanks before it as the indent of what it inserts.
-/
namespace Mustache

/-- The tag of a line that holds one tag, of a kind that stands alone, and otherwise only blanks. -/
def standaloneTag? (line : List Token) : Option Token :=
  match line.filter (·.kind != .text) with
  | [tag] =>
    let texts := line.filter (·.kind == .text)
    if tag.kind.standsAlone && texts.all (·.value.toList.all Text.isLineBlank) then
      if tag.kind = .partialTag then
        some { tag with indent := String.join ((line.takeWhile (·.kind == .text)).map (·.value)) }
      else some tag
    else none
  | _ => none

/-- What a line contributes: its standalone tag, or all its tokens and its line break. -/
def settleLine (line : List Token) (newline : Option Token) : List Token :=
  match standaloneTag? line with
  | some tag => [tag]
  | none => line ++ newline.toList

/-- Settles the lines of a list of tokens, the first of which starts with the tokens of `line`. -/
def settleLines (line : List Token) : List Token → List Token
  | [] => settleLine line none
  | t :: ts =>
    if t.kind = .newline then settleLine line (some t) ++ settleLines [] ts
    else settleLines (line ++ [t]) ts

def Cursor.scan (s : Cursor) : Except SyntaxError (List Token) :=
  settleLines [] <$> s.tokens

def scan (source : String) : Except SyntaxError (List Token) :=
  (Cursor.start source.toList).scan

end Mustache
