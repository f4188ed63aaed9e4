import Mustache.Instruction

/-! # Events

What happens while templates are compiled and rendered is noted as events. Only the missing partial is
a warning; the others are of interest to those who trace a run.
-/
namespace Mustache

inductive Severity where
  | debug
  | warning
  deriving DecidableEq, Repr

/-- Something that happened while a template was compiled or rendered. -/
inductive Event where
  | routineCompiled (level : Nat) (name key : String)
  | routineReused (key : String)
  | compiled (name : String) (instructions routines reused : Nat)
  | partialReached (name program : String)
  | partialLoaded (name : String)
  | partialMissing (name : String)
  deriving DecidableEq, Repr

namespace Event

def severity : Event → Severity
  | partialMissing _ => .warning
  | _ => .debug

def message : Event → String
  | routineCompiled level name key =>
    Text.margin level ++ "section '" ++ name ++ "' -> new routine " ++ shortKey key
  | routineReused key => "Section " ++ shortKey key ++ " reused"
  | compiled name instructions routines reused =>
    "Compiled '" ++ name ++ "': " ++ toString instructions ++ " instructions, " ++
      toString routines ++ " section routines (" ++ toString reused ++ " reused)"
  | partialReached name program => "Rendering partial '" ++ name ++ "' from '" ++ program ++ "'"
  | partialLoaded name => "Loading partial '" ++ name ++ "'"
  | partialMissing name => "Partial '" ++ name ++ "' not found, rendering it as empty"

def warnings (events : List Event) : List String :=
  (events.filter (·.severity = .warning)).map message

end Event
end Mustache
