import Mustache.Instruction

/-! # The registry of routines

While a template is compiled, the registry holds the routines compiled so far in the order of their
registration and counts how often one was found again. A key is registered once.
-/
namespace Mustache

/-- The routines registered so far, and how many requests found one. -/
structure Registry where
  routines : List (Routine Instruction)
  hits : Nat

namespace Registry

def empty : Registry := ⟨[], 0⟩

def find? (r : Registry) (key : String) : Option (Routine Instruction) :=
  r.routines.find? (·.key = key)

def contains (r : Registry) (key : String) : Bool :=
  (r.find? key).isSome

def request (r : Registry) (key : String) : Option (Routine Instruction) × Registry :=
  match r.find? key with
  | some routine => (some routine, { r with hits := r.hits + 1 })
  | none => (none, r)

/-- Adds a routine; `none` if its key is taken. -/
def register? (r : Registry) (routine : Routine Instruction) : Option Registry :=
  if r.contains routine.key then none
  else some { r with routines := r.routines ++ [routine] }

end Registry
end Mustache
