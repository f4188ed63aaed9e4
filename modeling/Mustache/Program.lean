import Mustache.Event
import Mustache.LineState
import Mustache.Node
import Mustache.Registry
import Mustache.Text.Search

/-! # Programs

A program is a compiled template: a name and a list of instructions. `compile` walks a tree once. It
carries the state of the line under way, which settles what takes an indent, and the registry: a
section whose key is registered calls the registered routine and its children are not walked; else its
children are compiled and the routine is registered after them.
-/
namespace Mustache

structure Program where
  name : String
  instructions : List Instruction

inductive CompileError where
  | unknownNode (kind text : String)
  | alreadyRegistered (key : String)
  deriving DecidableEq, Repr

def CompileError.message : CompileError → String
  | unknownNode kind text => "Unknown node type: " ++ kind ++ " (" ++ text ++ ")"
  | alreadyRegistered key => "Section routine '" ++ key ++ "' already registered"

/-- The state of a compilation: the line under way, the routines so far and the events so far. -/
structure Compilation where
  line : LineState
  registry : Registry
  events : List Event

abbrev CompileM := StateT Compilation (Except CompileError)

namespace Compilation

def start : Compilation := ⟨.pending, .empty, []⟩

def note (e : Event) : CompileM Unit :=
  modify fun s => { s with events := s.events ++ [e] }

def breakLine : CompileM Unit :=
  modify fun s => { s with line := s.line.newline }

def claimIndent : CompileM Bool :=
  modifyGet fun s => (s.line.claim.1, { s with line := s.line.claim.2 })

def isInline : CompileM Bool := do
  return !(← get).line.isPending

/-- The registered routine with a key; finding one is counted and noted. -/
def request (key : String) : CompileM (Option (Routine Instruction)) := do
  let (found, registry) := (← get).registry.request key
  modify fun s => { s with registry := registry }
  if found.isSome then note (.routineReused key)
  return found

def register (routine : Routine Instruction) : CompileM Unit := do
  match (← get).registry.register? routine with
  | some registry => modify fun s => { s with registry := registry }
  | none => throw (.alreadyRegistered routine.key)

end Compilation

open Compilation

mutual

/-- The instruction of a node, if it has one. `level` counts the sections around the node and itself;
only events show it. -/
def compileNode (source : List Char) (level : Nat) : Node → CompileM (Option Instruction)
  | .text s => do
    if s = "\n" then
      breakLine
      return some (.literal s false)
    else if s.isEmpty then return none
    else return some (.literal s (← claimIndent))
  | .interpolation name escape => do
    return some (.interpolate (.ofName name) name escape (← claimIndent))
  | .sectionBlock name start stop delimiters children => do
    let inline ← isInline
    let raw := String.ofList (Text.slice source start stop)
    let key := sectionKey raw delimiters.tag
    match ← request key with
    | some routine => return some (.callSection routine (.ofName name) name inline)
    | none =>
      note (.routineCompiled level name key)
      let body ← compileNodes source (level + 1) children
      let routine : Routine Instruction := ⟨key, raw, delimiters.tag, body⟩
      register routine
      return some (.callSection routine (.ofName name) name inline)
  | .invertedBlock name children => do
    let body ← compileNodes source (level + 1) children
    return some (.callInverted (.ofName name) name body)
  | .partialTag name indent => do
    return some (.callPartial name indent (← isInline))
  | .comment => return none
  | .foreign kind text => throw (.unknownNode kind text)

def compileNodes (source : List Char) (level : Nat) : List Node → CompileM (List Instruction)
  | [] => return []
  | n :: ns => do
    let instruction ← compileNode source level n
    let rest ← compileNodes source level ns
    return instruction.toList ++ rest

end

def compile (source : String) (tree : List Node) (name : String) :
    Except CompileError (Program × List Event) := do
  let (instructions, s) ← (compileNodes source.toList 1 tree).run .start
  let summary := Event.compiled name instructions.length s.registry.routines.length s.registry.hits
  return (⟨name, instructions⟩, s.events ++ [summary])

namespace Program

def headline (p : Program) : String :=
  "Program(" ++ Text.quoted p.name ++ ", " ++ toString p.instructions.length ++ " instructions)"

/-- The routines that the program refers to, each once, in the order of their first use. -/
def routines (p : Program) : List (Routine Instruction) :=
  Instruction.routinesOf [] p.instructions

def routineHead (r : Routine Instruction) : String :=
  "routine " ++ shortKey r.key ++ (match r.delimiters with
    | some tag => " " ++ tag
    | none => "")

def describe (p : Program) : String :=
  let routineLines (r : Routine Instruction) : List String :=
    routineHead r :: Instruction.describeLines 1 r.body
  "\n".intercalate (("program " ++ p.name) :: Instruction.describeLines 1 p.instructions ++
    p.routines.flatMap routineLines)

end Program
end Mustache
