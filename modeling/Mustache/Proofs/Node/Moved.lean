import Mustache.Proofs.Node.Change
import Mustache.Proofs.Token.DelimiterTag

/-! # Moving a tree

Tokens further on in a text build the same tree with its sections further on, or the same error further
down. So the tree of a text below the line that sets its delimiters is the tree that the text has under
these delimiters, moved by the length of that line.
-/
namespace Mustache

namespace Node

mutual

def movedOne (k : Nat) : Node → Node
  | text s => text s
  | interpolation name escape => interpolation name escape
  | sectionBlock name start stop delimiters children =>
    sectionBlock name (start + k) (stop + k) delimiters (moved k children)
  | invertedBlock name children => invertedBlock name (moved k children)
  | partialTag name indent => partialTag name indent
  | comment => comment
  | foreign kind shown => foreign kind shown

def moved (k : Nat) : List Node → List Node
  | [] => []
  | n :: ns => movedOne k n :: moved k ns

end

@[simp] theorem moved_cons (k : Nat) (n : Node) (ns : List Node) :
    moved k (n :: ns) = movedOne k n :: moved k ns := rfl

theorem moved_eq_map (k : Nat) (ns : List Node) : moved k ns = ns.map (movedOne k) := by
  induction ns with
  | nil => rfl
  | cons n ns ih => rw [moved_cons, ih, List.map_cons]

mutual

theorem mem_subnodesOne_moved (k : Nat) {m : Node} :
    ∀ n : Node, m ∈ subnodesOne (movedOne k n) → ∃ m' ∈ subnodesOne n, m = movedOne k m'
  | text _, h | interpolation _ _, h | partialTag _ _, h | comment, h | foreign _ _, h =>
    ⟨_, List.mem_singleton_self _, List.mem_singleton.mp h⟩
  | sectionBlock name start stop delimiters children, h => by
    rcases List.mem_cons.mp h with rfl | h
    · exact ⟨_, List.mem_cons_self, rfl⟩
    · obtain ⟨m', hm', heq⟩ := mem_subnodes_moved k children h
      exact ⟨m', List.mem_cons_of_mem _ hm', heq⟩
  | invertedBlock name children, h => by
    rcases List.mem_cons.mp h with rfl | h
    · exact ⟨_, List.mem_cons_self, rfl⟩
    · obtain ⟨m', hm', heq⟩ := mem_subnodes_moved k children h
      exact ⟨m', List.mem_cons_of_mem _ hm', heq⟩

theorem mem_subnodes_moved (k : Nat) {m : Node} :
    ∀ ns : List Node, m ∈ subnodes (moved k ns) → ∃ m' ∈ subnodes ns, m = movedOne k m'
  | [], h => nomatch h
  | n :: ns, h => by
    rcases List.mem_append.mp h with h | h
    · obtain ⟨m', hm', heq⟩ := mem_subnodesOne_moved k n h
      exact ⟨m', List.mem_append_left _ hm', heq⟩
    · obtain ⟨m', hm', heq⟩ := mem_subnodes_moved k ns h
      exact ⟨m', List.mem_append_right _ hm', heq⟩

end

end Node

theorem TreeBuilder.carries_moved (k l : Nat) : Carries (Token.moved k l) (Node.movedOne k) l where
  kind_eq _ := rfl
  value_eq _ := rfl
  line_eq _ := rfl
  leaf?_eq t := by
    have hkind : (t.moved k l).kind = t.kind := rfl
    unfold Token.leaf?
    rw [hkind]
    cases t.kind <;> rfl
  closeSection_eq s t := by
    rw [← Node.moved_eq_map]
    by_cases h : s.tag.kind = .invertedStart
    · simp [closeSection, Token.moved, h, Node.movedOne]
    · simp [closeSection, Token.moved, h, Node.movedOne]

theorem Node.ofTokens_moved (k l : Nat) (ts : List Token) : Node.ofTokens (ts.map (Token.moved k l)) =
    ((Node.ofTokens ts).map (Node.moved k)).mapError (SyntaxError.lowered l) := by
  have hmoved : Node.moved k = List.map (Node.movedOne k) := funext (Node.moved_eq_map k)
  rw [hmoved]
  exact (TreeBuilder.carries_moved k l).ofTokens ts

/-- The tree of a text that is read under some delimiters. -/
def parseUnder (d : Delimiters) (text : String) : Except SyntaxError (List Node) := do
  Node.ofTokens (← (Cursor.startUnder d text.toList).scan)

/-- The tree of a text below the line that sets its delimiters. -/
theorem parse_delimiterLine {d : Delimiters} (hwf : d.WellFormed) (hd : d ≠ .standard) (text : String) :
    parse (d.line ++ text) = ((parseUnder d text).map (Node.moved d.line.length)).mapError
      (SyntaxError.lowered 1) := by
  obtain ⟨t, ht, hscan⟩ := Cursor.scan_delimiterLine hwf hd text.toList
  rw [parse, scan, String.toList_append, hscan, Cursor.scan_moved, parseUnder]
  cases (Cursor.startUnder d text.toList).scan with
  | error e => rfl
  | ok ts =>
    have hskip : Node.ofTokens (t :: ts.map (Token.moved d.line.length 1)) =
        Node.ofTokens (ts.map (Token.moved d.line.length 1)) := by
      rw [Node.ofTokens, TreeBuilder.foldlM_take_cons (TreeBuilder.take_of_delimiterTag ht _)]
      rfl
    rw [Node.ofTokens_moved] at hskip
    exact hskip

end Mustache
