/-! # Where lines begin

An indent goes before the first thing put on each line. The state tells whether the current line still
waits for it: at the start and after a line break it does, until something claims it.
-/
namespace Mustache

/-- Whether the line under way still waits for its indent. -/
inductive LineState where
  | pending
  | consumed
  deriving DecidableEq, Repr

namespace LineState

def label : LineState → String
  | pending => "pending"
  | consumed => "consumed"

def isPending (s : LineState) : Bool := s = pending

def newline (_ : LineState) : LineState := pending

/-- Claims the indent: whether it was still to come, and the state in which it is not. -/
def claim (s : LineState) : Bool × LineState := (s.isPending, consumed)

end LineState
end Mustache
