import Mustache.Context
import Mustache.Escape
import Mustache.File.Tree
import Mustache.Program
import Mustache.SyntaxError
import Mustache.Value.Call

/-! # The state of a rendering

A rendering changes the scopes and the nesting depth, uses up iterators, may change sets and notes events.
All of them outlive a rendering that fails, so the state is kept beside the outcome. `withScope` and
`withDepth` put back what they changed, however what they enclose ends.
-/
namespace Mustache

inductive RenderError where
  | malformed (e : SyntaxError)
  | uncompilable (e : CompileError)
  /-- A partial has no source; where it was searched, if that is a path. -/
  | notFound (name : String) (searched : Option Path)
  /-- Partials or lambdas are nested deeper than the limit or the stack allows. -/
  | tooDeep (limit : Int)
  | unescapable (e : EscapeError)
  | callFailed (e : CallError)
  /-- A set has another size than when a section began to run over it. -/
  | setResized
  | unreadable (e : FileError)
  deriving DecidableEq, Repr

def RenderError.message : RenderError → String
  | malformed e => e.message
  | uncompilable e => e.message
  | notFound name searched =>
    "Template '" ++ name ++ "' not found" ++ (match searched with
      | some path => ". Searched: " ++ path.toString
      | none => "")
  | tooDeep limit =>
    "Maximum template nesting depth (" ++ toString limit ++
      ") exceeded; check for partials or lambdas that render themselves"
  | unescapable e => e.message
  | callFailed e => e.message
  | setResized => "Set changed size during iteration"
  | unreadable e => e.message

/-- What renderings use up and change: what each iterator still has to give, and what each set holds. -/
structure Store where
  iterators : List (List Value) := []
  sets : Value.Sets := []

namespace Store

def remaining (store : Store) (id : Nat) : List Value :=
  store.iterators[id]?.getD []

def next? (store : Store) (id : Nat) : Option (Value × Store) :=
  match store.remaining id with
  | [] => none
  | v :: rest => some (v, { store with iterators := store.iterators.set id rest })

def after (store : Store) (answer : Answer) : Store :=
  match answer.change with
  | none => store
  | some (id, items) => { store with sets := store.sets.set id items }

def current (store : Store) (v : Value) : Value :=
  if store.sets.isEmpty then v else v.current store.sets

end Store

structure RenderState where
  context : Context
  store : Store
  events : List Event

abbrev RenderM := ExceptT RenderError (StateM RenderState)

namespace RenderM

def note (events : List Event) : RenderM Unit :=
  modify fun s => { s with events := s.events ++ events }

def lift {ε α : Type} (wrap : ε → RenderError) (x : Except ε α) : RenderM α :=
  match x with
  | .ok a => pure a
  | .error e => throw (wrap e)

/-- Runs `body` and changes the context after it, whether it succeeds or not. -/
def thenRestore {α : Type} (restore : Context → Context) (body : RenderM α) : RenderM α :=
  fun s =>
    let (outcome, after) := body.run s
    (outcome, { after with context := restore after.context })

def withScope {α : Type} (v : Value) (body : RenderM α) : RenderM α := do
  modify fun s => { s with context := s.context.push v }
  thenRestore Context.drop body

/-- Runs `body` one nested template deeper, unless the limit is reached or `frames` frames are too many. -/
def withDepth {α : Type} (frames : Nat) (body : RenderM α) : RenderM α := do
  let context := (← get).context
  match context.deeper? frames with
  | none => throw (.tooDeep context.limit)
  | some deeper =>
    modify fun s => { s with context := deeper }
    thenRestore Context.shallower body

def resolve (lookup : Lookup) (name : String) : RenderM Value := do
  let s ← get
  return s.store.current (s.context.resolve lookup name)

/-- The text that a call gives for an argument; a set may be changed. -/
def answer (call : Option String → Except CallError Answer) (argument : Option String) :
    RenderM String := do
  let a ← lift .callFailed (call argument)
  modify fun s => { s with store := s.store.after a }
  return a.text

def takeNext (id : Nat) : RenderM (Option Value) := do
  match (← get).store.next? id with
  | none => return none
  | some (v, store) =>
    modify fun s => { s with store }
    return some v

def checkSize (id : Nat) (items : List Value) : RenderM Unit := do
  let now := (← get).store.sets[id]?.getD items
  if now.length ≠ items.length then throw .setResized

end RenderM
end Mustache
