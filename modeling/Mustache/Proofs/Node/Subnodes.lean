import Mustache.Lookup
import Mustache.Node
import Mustache.Context

/-! # The nodes inside a tree

`subnodes` lists the nodes of a tree at all depths in the order of the text. Two trees that differ only
in the offsets of their sections have the same `unplaced` tree, so they have equally many subnodes.
-/
namespace Mustache.Node

mutual

def subnodesOne : Node → List Node
  | text s => [text s]
  | interpolation name escape => [interpolation name escape]
  | sectionBlock name start stop delimiters children =>
    sectionBlock name start stop delimiters children :: subnodes children
  | invertedBlock name children => invertedBlock name children :: subnodes children
  | partialTag name indent => [partialTag name indent]
  | comment => [comment]
  | foreign kind shown => [foreign kind shown]

def subnodes : List Node → List Node
  | [] => []
  | n :: ns => subnodesOne n ++ subnodes ns

end

mutual

def unplacedOne : Node → Node
  | text s => text s
  | interpolation name escape => interpolation name escape
  | sectionBlock name _ _ delimiters children => sectionBlock name 0 0 delimiters (unplaced children)
  | invertedBlock name children => invertedBlock name (unplaced children)
  | partialTag name indent => partialTag name indent
  | comment => comment
  | foreign kind shown => foreign kind shown

def unplaced : List Node → List Node
  | [] => []
  | n :: ns => unplacedOne n :: unplaced ns

end

theorem exists_of_unplaced_cons {n : Node} {ns ms : List Node}
    (h : unplaced (n :: ns) = unplaced ms) :
    ∃ m ms', ms = m :: ms' ∧ unplacedOne n = unplacedOne m ∧ unplaced ns = unplaced ms' := by
  cases ms with
  | nil =>
    rw [unplaced, unplaced] at h
    cases h
  | cons m ms =>
    rw [unplaced, unplaced] at h
    obtain ⟨hm, hms⟩ := List.cons.inj h
    exact ⟨m, ms, rfl, hm, hms⟩

theorem eq_of_unplacedOne_section {m : Node} {name : String} {start stop : Int}
    {delimiters : Delimiters} {children : List Node}
    (h : unplacedOne (sectionBlock name start stop delimiters children) = unplacedOne m) :
    ∃ start' stop' children', m = sectionBlock name start' stop' delimiters children' ∧
      unplaced children = unplaced children' := by
  cases m with
  | sectionBlock name' start' stop' delimiters' children' =>
    rw [unplacedOne, unplacedOne] at h
    obtain ⟨rfl, -, -, rfl, hc⟩ := sectionBlock.inj h
    exact ⟨start', stop', children', rfl, hc⟩
  | _ =>
    rw [unplacedOne, unplacedOne] at h
    cases h

theorem eq_of_unplacedOne_inverted {m : Node} {name : String} {children : List Node}
    (h : unplacedOne (invertedBlock name children) = unplacedOne m) :
    ∃ children', m = invertedBlock name children' ∧ unplaced children = unplaced children' := by
  cases m with
  | invertedBlock name' children' =>
    rw [unplacedOne, unplacedOne] at h
    obtain ⟨rfl, hc⟩ := invertedBlock.inj h
    exact ⟨children', rfl, hc⟩
  | _ =>
    rw [unplacedOne, unplacedOne] at h
    cases h

def isLeaf : Node → Bool
  | sectionBlock _ _ _ _ _ | invertedBlock _ _ => false
  | text _ | interpolation _ _ | partialTag _ _ | comment | foreign _ _ => true

theorem unplacedOne_of_isLeaf {n : Node} (hn : n.isLeaf = true) : unplacedOne n = n := by
  cases n with
  | sectionBlock _ _ _ _ _ => cases hn
  | invertedBlock _ _ => cases hn
  | _ => rfl

theorem subnodesOne_of_isLeaf {n : Node} (hn : n.isLeaf = true) : subnodesOne n = [n] := by
  cases n with
  | sectionBlock _ _ _ _ _ => cases hn
  | invertedBlock _ _ => cases hn
  | _ => rfl

theorem eq_of_unplacedOne {n m : Node} (h : unplacedOne n = unplacedOne m)
    (hn : n.isLeaf = true) : m = n := by
  rw [unplacedOne_of_isLeaf hn] at h
  cases m with
  | sectionBlock _ _ _ _ _ =>
    rw [h, unplacedOne] at hn
    cases hn
  | invertedBlock _ _ =>
    rw [h, unplacedOne] at hn
    cases hn
  | _ => exact h.symm

theorem mem_subnodesOne_self (n : Node) : n ∈ subnodesOne n := by
  cases n <;> exact List.mem_cons_self

mutual

theorem length_subnodesOne_unplaced :
    ∀ n : Node, (subnodesOne (unplacedOne n)).length = (subnodesOne n).length
  | text _ | interpolation _ _ | partialTag _ _ | comment | foreign _ _ => rfl
  | sectionBlock name start stop delimiters children => by
    have h := length_subnodes_unplaced children
    rw [unplacedOne, subnodesOne, subnodesOne, List.length_cons, List.length_cons, h]
  | invertedBlock name children => by
    have h := length_subnodes_unplaced children
    rw [unplacedOne, subnodesOne, subnodesOne, List.length_cons, List.length_cons, h]

theorem length_subnodes_unplaced :
    ∀ ns : List Node, (subnodes (unplaced ns)).length = (subnodes ns).length
  | [] => rfl
  | n :: ns => by
    have hn := length_subnodesOne_unplaced n
    have hns := length_subnodes_unplaced ns
    rw [unplaced, subnodes, subnodes, List.length_append, List.length_append, hn, hns]

end

theorem length_subnodes_congr {ns ms : List Node} (h : unplaced ns = unplaced ms) :
    (subnodes ns).length = (subnodes ms).length := by
  rw [← length_subnodes_unplaced, h, length_subnodes_unplaced]

mutual

/-- The nodes inside a subnode are subnodes, and strictly fewer of them are inside it. -/
theorem children_of_mem_subnodesOne {name : String} {start stop : Int} {delimiters : Delimiters}
    {children : List Node} : ∀ n : Node, sectionBlock name start stop delimiters children ∈ subnodesOne n →
      (∀ m ∈ subnodes children, m ∈ subnodesOne n) ∧
        (subnodes children).length < (subnodesOne n).length
  | text _, h | interpolation _ _, h | partialTag _ _, h | comment, h | foreign _ _, h => by
    simp [subnodesOne] at h
  | sectionBlock name' start' stop' delimiters' children', h => by
    rw [subnodesOne] at h ⊢
    rcases List.mem_cons.mp h with heq | hmem
    · obtain ⟨rfl, rfl, rfl, rfl, rfl⟩ := sectionBlock.inj heq
      exact ⟨fun m hm => List.mem_cons_of_mem _ hm, Nat.lt_succ_self _⟩
    · obtain ⟨hsub, hlt⟩ := children_of_mem_subnodes children' hmem
      exact ⟨fun m hm => List.mem_cons_of_mem _ (hsub m hm), Nat.lt_succ_of_lt hlt⟩
  | invertedBlock name' children', h => by
    rw [subnodesOne] at h ⊢
    obtain ⟨hsub, hlt⟩ := children_of_mem_subnodes children' ((List.mem_cons.mp h).resolve_left nofun)
    exact ⟨fun m hm => List.mem_cons_of_mem _ (hsub m hm), Nat.lt_succ_of_lt hlt⟩

theorem children_of_mem_subnodes {name : String} {start stop : Int} {delimiters : Delimiters}
    {children : List Node} : ∀ ns : List Node, sectionBlock name start stop delimiters children ∈ subnodes ns →
      (∀ m ∈ subnodes children, m ∈ subnodes ns) ∧ (subnodes children).length < (subnodes ns).length
  | [], h => by
    rw [subnodes] at h
    cases h
  | n :: ns, h => by
    rw [subnodes] at h ⊢
    rw [List.length_append]
    rcases List.mem_append.mp h with h | h
    · obtain ⟨hsub, hlt⟩ := children_of_mem_subnodesOne n h
      exact ⟨fun m hm => List.mem_append_left _ (hsub m hm), by omega⟩
    · obtain ⟨hsub, hlt⟩ := children_of_mem_subnodes ns h
      exact ⟨fun m hm => List.mem_append_right _ (hsub m hm), by omega⟩

end

/-- The keys that a lookup of a name asks scopes for. -/
def keysOf (name : String) : List String :=
  match Lookup.ofName name with
  | .innermost => []
  | .nearest => [name]
  | .path => Context.pathParts name

def keys : Node → List String
  | interpolation name _ => keysOf name
  | sectionBlock name _ _ _ _ => keysOf name
  | invertedBlock name _ => keysOf name
  | text _ | partialTag _ _ | comment | foreign _ _ => []

def keysIn (tree : List Node) : List String :=
  (subnodes tree).flatMap keys

theorem keys_subset_keysIn {tree : List Node} {n : Node} (hn : n ∈ subnodes tree) :
    ∀ key ∈ n.keys, key ∈ keysIn tree :=
  fun _ hkey => List.mem_flatMap.mpr ⟨n, hn, hkey⟩

theorem keysIn_subset {ns ms : List Node} (h : ∀ n ∈ subnodes ns, n ∈ subnodes ms) :
    keysIn ns ⊆ keysIn ms := by
  intro key hkey
  obtain ⟨n, hn, hin⟩ := List.mem_flatMap.mp hkey
  exact keys_subset_keysIn (h n hn) key hin

/-- The kinds of nodes that need no other template. -/
def isPlain : Node → Bool
  | text _ | interpolation _ _ | sectionBlock _ _ _ _ _ | invertedBlock _ _ | comment => true
  | partialTag _ _ | foreign _ _ => false

end Mustache.Node
