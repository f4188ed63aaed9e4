/-! # Kinds of lookup

How a tag's name is resolved is settled by the name alone: a single dot is the innermost scope, a name
without dots is searched from the innermost scope outwards, and a dotted path starts at the root.
-/
namespace Mustache

inductive Lookup where
  | innermost
  /-- The first scope, from the innermost outwards, that has the name. -/
  | nearest
  /-- The value reached from the root scope along the parts of a dotted path. -/
  | path
  deriving DecidableEq, Repr

namespace Lookup

def ofName (name : String) : Lookup :=
  if name = "." then innermost
  else if '.' ∈ name.toList then path
  else nearest

def label : Lookup → String
  | innermost => "last"
  | nearest => "find"
  | path => "find_dot"

end Lookup
end Mustache
