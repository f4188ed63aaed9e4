import Mustache.Proofs.Compile.Walk
import Mustache.Proofs.Node.Subnodes

/-! # The part of a tree that is compiled

The children of a section whose key is registered are not walked. `pruned` leaves them out: what remains
are the nodes that have instructions of their own, and every routine's children stand in it once, below
the first section with its key. The keys registered so far are carried along; a section's own key comes
in after those of the sections inside it.
-/
namespace Mustache

namespace Node

mutual

/-- A node without the children that are not walked, and the keys registered after it. -/
def prunedOne (source : List Char) (keys : List String) : Node → Node × List String
  | sectionBlock name start stop delimiters children =>
    if bodyKey source start stop delimiters ∈ keys then
      (sectionBlock name start stop delimiters [], keys)
    else
      let inside := pruned source keys children
      (sectionBlock name start stop delimiters inside.1,
        inside.2 ++ [bodyKey source start stop delimiters])
  | invertedBlock name children =>
    let inside := pruned source keys children
    (invertedBlock name inside.1, inside.2)
  | text s => (text s, keys)
  | interpolation name escape => (interpolation name escape, keys)
  | partialTag name indent => (partialTag name indent, keys)
  | comment => (comment, keys)
  | foreign kind shown => (foreign kind shown, keys)

def pruned (source : List Char) (keys : List String) : List Node → List Node × List String
  | [] => ([], keys)
  | n :: ns =>
    let first := prunedOne source keys n
    let rest := pruned source first.2 ns
    (first.1 :: rest.1, rest.2)

end

variable {source : List Char} {keys : List String} {name : String} {start stop : Int}
  {delimiters : Delimiters} {children : List Node}

theorem prunedOne_reused (h : bodyKey source start stop delimiters ∈ keys) :
    prunedOne source keys (sectionBlock name start stop delimiters children) =
      (sectionBlock name start stop delimiters [], keys) := by
  rw [prunedOne, if_pos h]

theorem prunedOne_fresh (h : bodyKey source start stop delimiters ∉ keys) :
    prunedOne source keys (sectionBlock name start stop delimiters children) =
      (sectionBlock name start stop delimiters (pruned source keys children).1,
        (pruned source keys children).2 ++ [bodyKey source start stop delimiters]) := by
  rw [prunedOne, if_neg h]

theorem prunedOne_inverted : prunedOne source keys (invertedBlock name children) =
    (invertedBlock name (pruned source keys children).1, (pruned source keys children).2) := by
  rw [prunedOne]

end Node

def Progress.keys (a : Progress) : List String :=
  a.routines.map Routine.key

namespace Progress

variable {a : Progress} {key : String}

@[simp] theorem keys_register (a : Progress) (r : Routine Instruction) :
    (a.register r).keys = a.keys ++ [r.key] := by
  simp [keys, register]

@[simp] theorem keys_start : Progress.start.keys = [] := rfl

theorem mem_keys_of_find? {r : Routine Instruction} (h : a.find? key = some r) :
    r ∈ a.routines ∧ r.key = key ∧ key ∈ a.keys := by
  have hr := List.mem_of_find?_eq_some h
  have hkey : r.key = key := by simpa using List.find?_some h
  exact ⟨hr, hkey, List.mem_map.mpr ⟨r, hr, hkey⟩⟩

theorem not_mem_keys_of_find? (h : a.find? key = none) : key ∉ a.keys := by
  intro hmem
  obtain ⟨r, hr, hkey⟩ := List.mem_map.mp hmem
  exact List.find?_eq_none.mp h r hr (by simpa using hkey)

end Progress

theorem Walks.keys_pruned {source : List Char} {ns : List Node} {a b : Progress} {is : List Instruction}
    (h : Walks source ns a is b) : (Node.pruned source a.keys ns).2 = b.keys := by
  induction h with
  | nil a => rfl
  | newline _ ih | empty _ ih | text _ _ _ ih | interpolation _ ih | partialTag _ ih | comment _ ih =>
    exact ih
  | reused hr _ ih =>
    rw [Node.pruned, Node.prunedOne_reused (Progress.mem_keys_of_find? hr).2.2]
    exact ih
  | fresh hnone _ _ _ ihbody ih =>
    rw [Node.pruned, Node.prunedOne_fresh (Progress.not_mem_keys_of_find? hnone), ihbody]
    rw [Progress.keys_register] at ih
    exact ih
  | inverted _ _ ihbody ih =>
    rw [Node.pruned, Node.prunedOne_inverted, ihbody]
    exact ih

end Mustache
