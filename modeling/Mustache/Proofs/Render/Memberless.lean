import Mathlib.Control.Monad.Basic
import Mustache.Engine
import Mustache.Proofs.Render.Lockstep

/-! # Scopes without members

A section over a flag, a number or a text puts a scope on the stack in which no name is found. Below the
innermost scope and above the root such a scope is transparent: contexts with it and without it walk in
step.
-/
namespace Mustache

variable {v : Value} {inner outer : List Value}

def RenderState.under (s : RenderState) (scopes : List Value) : RenderState :=
  { s with context := { s.context with scopes } }

end Mustache
