import Mustache.Yaml.Character

/-! # Gaps inside scalars

Between two words of a scalar stand blanks and line breaks. Blanks alone are kept; once there is a
break, the blanks beside it are dropped, a single line feed becomes a blank and the first of several is
dropped. Texts under construction are lists with the newest character first.
-/
namespace Mustache.Yaml

/-- A gap: its blanks before the first break and its breaks, the newest first. A joined gap starts with
a break that was escaped, so it stands for nothing itself. -/
structure Gap where
  blanks : List Char := []
  breaks : List Char := []
  joined : Bool := false

namespace Gap

def blank (g : Gap) (c : Char) : Gap :=
  if g.breaks.isEmpty && !g.joined then { g with blanks := c :: g.blanks } else g

/-- The gap with one more break; the next-line control counts as a line feed. -/
def lineBreak (g : Gap) (c : Char) : Gap :=
  { g with breaks := (if c = nextLine then '\n' else c) :: g.breaks }

def after (g : Gap) (text : List Char) : List Char :=
  if g.joined then g.breaks ++ text
  else match g.breaks.reverse with
    | [] => g.blanks ++ text
    | ['\n'] => ' ' :: text
    | '\n' :: more => more.reverse ++ text
    | _ => g.breaks ++ text

end Gap

/-- A scalar that has been read: its text, the newest character first, the place after it and what
remains. -/
structure ScalarRead where
  text : List Char
  position : Position
  rest : List Char

end Mustache.Yaml
