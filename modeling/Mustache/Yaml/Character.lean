/-! # Characters of a document

Which characters a document may hold, which of them break lines and end words, and where a character
stands. Columns and line numbers follow the line feed alone; the other breaks fold inside scalars but
leave the column running.
-/
namespace Mustache.Yaml

def nextLine : Char := Char.ofNat 0x85

/-- The mark that may stand at the start of a document and takes no column. -/
def byteOrderMark : Char := Char.ofNat 0xFEFF

/-- Whether a document may hold a character: of the controls only the tab and the breaks, and no
character from the end of the basic plane. -/
def isAllowed (c : Char) : Bool :=
  let n := c.toNat
  (0x20 ≤ n && n ≤ 0x7E) || c == '\n' || c == '\t' || c == '\r' || c == nextLine ||
    (0xA0 ≤ n && n ≤ 0xFFFD) || 0x10000 ≤ n

def isBreak (c : Char) : Bool :=
  c == '\n' || c == nextLine || c.toNat == 0x2028 || c.toNat == 0x2029

/-- Whether a text starts with what ends a word: a blank or a break, or the end of the document. -/
def endsWord : List Char → Bool
  | [] => true
  | c :: _ => c == ' ' || c == '\t' || isBreak c

def isFlowMark (c : Char) : Bool :=
  c == ',' || c == '[' || c == ']' || c == '\x7b' || c == '\x7d'

def startsWithThree (c : Char) (cs : List Char) : Bool :=
  cs.take 3 == [c, c, c] && endsWord (cs.drop 3)

def startsWithMark (cs : List Char) : Bool :=
  startsWithThree '-' cs || startsWithThree '.' cs

structure Position where
  offset : Nat := 0
  line : Nat := 0
  column : Nat := 0
  deriving DecidableEq, Repr

def Position.next (p : Position) (c : Char) : Position :=
  if c = '\n' then ⟨p.offset + 1, p.line + 1, 0⟩
  else if c = byteOrderMark then ⟨p.offset + 1, p.line, p.column⟩
  else ⟨p.offset + 1, p.line, p.column + 1⟩

def Position.past (p : Position) (cs : List Char) : Position :=
  cs.foldl Position.next p

end Mustache.Yaml
