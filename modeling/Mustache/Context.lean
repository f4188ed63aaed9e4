import Mustache.Lookup
import Mustache.Value

/-! # Scopes

A context is the stack of scopes that names are resolved in, with the nesting depth of the template
under way and its limit. Nested templates are also refused when the interpreter's stack has few frames left.
-/
namespace Mustache

/-- The interpreter's stack: the frames in use where a rendering starts to run instructions, and the most
that there can be. -/
structure Stack where
  inUse : Nat
  limit : Int

namespace Stack

/-- The frames that are kept free for one more nested template. -/
def reserve : Int := 200

/-- The stack of a rendering that the outermost code asks for: below the run of the instructions are that
code and the calls of the engine and of the program. -/
def standard : Stack := ⟨5, 1000⟩

/-- How many frames more may be in use where a nested template is let in. -/
def room (s : Stack) : Int :=
  s.limit - reserve - s.inUse

end Stack

/-- The scopes, the innermost first, and the depth of nested templates with its limit. -/
structure Context where
  scopes : List Value
  depth : Nat
  limit : Int
  stack : Stack

namespace Context

def standardLimit : Int := 100

/-- The context of some data; the missing value gives no scope. -/
def ofData (data : Value) (limit : Int) : Context :=
  match data with
  | .null => ⟨[], 0, limit, .standard⟩
  | v => ⟨[v], 0, limit, .standard⟩

def push (c : Context) (v : Value) : Context :=
  { c with scopes := v :: c.scopes }

def pop? (c : Context) : Option (Value × Context) :=
  match c.scopes with
  | [] => none
  | v :: outer => some (v, { c with scopes := outer })

def drop (c : Context) : Context :=
  { c with scopes := c.scopes.tail }

def innermost (c : Context) : Value :=
  c.scopes.head?.getD .null

/-- The member of the first scope, from the innermost outwards, that has one with the name. -/
def nearest (c : Context) (name : String) : Value :=
  (c.scopes.findSome? (·.member? name)).getD .null

def pathParts (path : String) : List String :=
  (path.toList.splitOn '.').map String.ofList

def alongPath (c : Context) (path : String) : Value :=
  (c.scopes.getLast?.bind fun root => (pathParts path).foldlM Value.member? root).getD .null

/-- The value of a name under a lookup; what is not found is the missing value. -/
def resolve (c : Context) (lookup : Lookup) (name : String) : Value :=
  match lookup with
  | .innermost => c.innermost
  | .nearest => c.nearest name
  | .path => c.alongPath name

/-- The context one nested template deeper, unless the limit is reached or the stack has too little room for
the frames that are in use since the rendering started. -/
def deeper? (c : Context) (frames : Nat) : Option Context :=
  if c.limit ≤ c.depth ∨ c.stack.room < frames then none else some { c with depth := c.depth + 1 }

def shallower (c : Context) : Context :=
  { c with depth := c.depth - 1 }

def levelsLeft (c : Context) : Nat :=
  (c.limit - c.depth).toNat

end Context
end Mustache
