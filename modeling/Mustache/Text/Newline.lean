/-! # Line breaks of files

A file may end its lines with a line feed, a carriage return or both. Texts in memory use the line
feed alone, so `unifyNewlines` reads each of the three as one line feed.
-/
namespace Mustache.Text

/-- Reads every line end (CR LF, CR or LF) as one line feed. -/
def unifyNewlines : List Char → List Char
  | [] => []
  | '\r' :: '\n' :: cs => '\n' :: unifyNewlines cs
  | c :: cs => (if c = '\r' then '\n' else c) :: unifyNewlines cs

def newlines (cs : List Char) : Nat :=
  cs.count '\n'

end Mustache.Text
